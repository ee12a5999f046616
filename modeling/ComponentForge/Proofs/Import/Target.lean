import ComponentForge.Proofs.Import.Rendered

/-!
# Where specifiers lead

A relative specifier is followed from the directory of the file that it stands in, and names a script.
From each file of an entity the specifiers of its template lead to the file of the entity that they
are about, and so do the import lines from the index files.
-/

namespace ComponentForge

open Layout Specifier

namespace Path

/-- The path without its last name and the slash before it. -/
def parent (path : Path) : Path :=
  ⟨(path.text.splitEnd (· != '/')).1.dropLast⟩

/-- The path that steps lead to from a directory. -/
def follow : Path → List Step → Path
  | directory, [] => directory
  | directory, .stay :: more => follow directory more
  | directory, .up :: more => follow directory.parent more
  | directory, .name n :: more => follow (directory.join ⟨n⟩) more

/-- The path of a directory that entries can be named in. -/
structure IsDirectory (path : Path) : Prop where
  ne_nil : path.text ≠ []
  bare : path.endsInSlash = false

end Path

/-- The path of the script that a specifier in this file leads to. -/
def Specifier.target (file : Path) (specifier : Text) : Path :=
  file.parent.follow (Path.stepsOf (specifier ++ '.' :: EntityKind.extension))

namespace Path

variable {base : Path} {n : Text}

theorem isDirectory_join (base : Path) (hn : IsName n) : (base.join ⟨n⟩).IsDirectory where
  ne_nil := by
    have relative := (Descends.of_name hn).relative
    simp only [join, relative, Bool.false_eq_true, if_false]
    split <;> simp [hn.ne_nil]
  bare := by
    have down := Descends.of_name hn
    rw [endsInSlash_join base down.relative down.text_ne_nil, down.bare]

namespace IsDirectory

theorem join_name (h : base.IsDirectory) (hn : IsName n) : base.join ⟨n⟩ = ⟨base.text ++ '/' :: n⟩ := by
  have relative := (Descends.of_name hn).relative
  have bare : base.text.endsWith '/' = false := h.bare
  simp [Path.join, relative, bare, h.ne_nil]

theorem parent_join (h : base.IsDirectory) (hn : IsName n) : (base.join ⟨n⟩).parent = base := by
  have split : Text.splitEnd (· != '/') (base.text ++ ['/'] ++ n) = (base.text ++ ['/'], n) := by
    refine Text.splitEnd_append_of_last (by simp) fun c hc => ?_
    rw [bne_iff_ne]
    rintro rfl
    exact hn.no_slash hc
  have regroup : base.text ++ '/' :: n = base.text ++ ['/'] ++ n := by simp
  rw [parent, h.join_name hn, regroup, split, List.dropLast_concat]

/-- Two names below a directory are one after the other. -/
theorem join_slash (h : base.IsDirectory) {a b : Text} (ha : IsName a) (hb : IsName b) :
    base.join ⟨a ++ '/' :: b⟩ = (base.join ⟨a⟩).join ⟨b⟩ := by
  have relative : Path.isAbsolute ⟨a ++ '/' :: b⟩ = false :=
    (isAbsolute_append ha.ne_nil).trans (Descends.of_name ha).relative
  have bare : base.text.endsWith '/' = false := h.bare
  rw [(base.isDirectory_join ha).join_name hb, h.join_name ha]
  simp [Path.join, relative, bare, h.ne_nil]

end IsDirectory

theorem stepsOf_up (rest : Text) : stepsOf ("../".toList ++ rest) = .up :: stepsOf rest :=
  stepsOf_append_slash "..".toList rest

theorem stepsOf_stay (rest : Text) : stepsOf ("./".toList ++ rest) = .stay :: stepsOf rest :=
  stepsOf_append_slash ".".toList rest

theorem stepsOf_below (hn : IsName n) (rest : Text) :
    stepsOf (n ++ '/' :: rest) = .name n :: stepsOf rest := by
  rw [stepsOf_append_slash, stepsOf_name hn]
  rfl

end Path

namespace Specifier

variable {base : Path} {n above : Text}

theorem target_join (h : base.IsDirectory) (hn : IsName n) (specifier : Text) :
    target (base.join ⟨n⟩) specifier = base.follow (Path.stepsOf (fileName specifier)) := by
  rw [target, h.parent_join hn]
  rfl

/-- A specifier that stays starts from the directory of its file. -/
theorem target_stay (h : base.IsDirectory) (hn : IsName n) (specifier : Text) :
    target (base.join ⟨n⟩) ("./".toList ++ specifier) =
      base.follow (Path.stepsOf (fileName specifier)) := by
  have regroup : fileName ("./".toList ++ specifier) = "./".toList ++ fileName specifier := rfl
  rw [target_join h hn, regroup, Path.stepsOf_stay, Path.follow]

/-- A specifier that goes up starts from the directory above that of its file. -/
theorem target_up (h : base.IsDirectory) (habove : IsName above) (hn : IsName n) (specifier : Text) :
    target ((base.join ⟨above⟩).join ⟨n⟩) ("../".toList ++ specifier) =
      base.follow (Path.stepsOf (fileName specifier)) := by
  have regroup : fileName ("../".toList ++ specifier) = "../".toList ++ fileName specifier := rfl
  rw [target_join (base.isDirectory_join habove) hn, regroup, Path.stepsOf_up, Path.follow,
    h.parent_join habove]

theorem follow_file (file : Text) (h : IsName (fileName file)) :
    base.follow (Path.stepsOf (fileName file)) = base.join (fileNamed file) := by
  rw [Path.stepsOf_name h]
  rfl

theorem follow_below (directory file : Text) (hdirectory : IsName directory)
    (h : IsName (fileName file)) : base.follow (Path.stepsOf (fileName (directory ++ '/' :: file))) =
      (base.join ⟨directory⟩).join (fileNamed file) := by
  have regroup : fileName (directory ++ '/' :: file) = directory ++ '/' :: fileName file := by
    simp [fileName]
  rw [regroup, Path.stepsOf_below hdirectory, Path.follow, follow_file file h]

end Specifier

/-- The import line of an entity of the kind, and the index file that gets it. -/
def Names.entry? (names : Names) : EntityKind → Option (Spot × IndexPatch)
  | .component => some (.index, names.componentPatch)
  | .container => some (.index, names.containerPatch)
  | .storybook => some (.stories, names.storyPatch)
  | .module => none

/-- What the file of a spot is about. -/
def Spot.subject? : Spot → Option EntityKind
  | container | componentTest | story => some .component
  | containerTest => some .container
  | component | index | stories => none

namespace Layout

variable {config : Config} {m entity : Text}

theorem isDirectory_modulePath (hm : IsName m) : (modulePath config m).IsDirectory :=
  Path.isDirectory_join _ hm

theorem isName_components : IsName "components".toList := by decide

theorem isName_containers : IsName "containers".toList := by decide

theorem isName_stories : IsName "stories".toList := by decide

theorem isName_tests : IsName "tests".toList := by decide

/-- The directory of stories lies below that of components. -/
theorem storiesDir_eq (hm : IsName m) : entityDir config .storybook m =
    ((modulePath config m).join ⟨"components".toList⟩).join ⟨"stories".toList⟩ :=
  (isDirectory_modulePath hm).join_slash isName_components isName_stories

end Layout

section Targets

variable {config : Config} {names : Names}

/-- From each file of an entity the specifiers lead to what the file is about. -/
theorem Spot.targets (hm : IsName names.moduleDir) (worded : names.Worded)
    (stem : names.containerFile = containerStem config names.componentFile) (spot : Spot) :
    (spot.specifiers names).map (target (spot.path config names)) =
      spot.subject?.toList.map fun kind =>
        outputPath config kind names.componentFile names.moduleDir := by
  have module : (modulePath config names.moduleDir).IsDirectory := isDirectory_modulePath hm
  have components := (modulePath config names.moduleDir).isDirectory_join isName_components
  have containers := (modulePath config names.moduleDir).isDirectory_join isName_containers
  have component : IsName (fileName names.componentFile) :=
    worded.componentFile.isName_append (by decide)
  have container : IsName (fileName names.containerFile) :=
    worded.containerFile.isName_append (by decide)
  have stories := isName_fileName_stem config .storybook worded.componentFile
  cases spot with
  | component => rfl
  | index => rfl
  | stories => rfl
  | container =>
    rw [stem] at container
    have led := (target_up module isName_containers container _).trans
      (follow_below "components".toList names.componentFile isName_components component)
    exact congrArg (fun path => [path]) led
  | componentTest =>
    have led := (target_up components isName_tests component _).trans
      (follow_file names.componentFile component)
    exact congrArg (fun path => [path]) led
  | containerTest =>
    have led := (target_up containers isName_tests component _).trans
      (follow_file names.containerFile container)
    rw [stem] at led
    rw [specifiers, stem]
    exact congrArg (fun path => [path]) led
  | story =>
    have led := (target_up components isName_stories stories _).trans
      (follow_file names.componentFile component)
    rw [← storiesDir_eq hm] at led
    exact congrArg (fun path => [path]) led

/-- A line with one quotation, if that is relative. -/
theorem relatives_quote {before specifier after : Text} (hbefore : '\'' ∉ before)
    (oneLine : '\n' ∉ before) (quote : '\'' ∉ specifier) (feed : '\n' ∉ specifier)
    (hafter : '\'' ∉ after) (relative : isRelative specifier) :
    relatives (before ++ '\'' :: (specifier ++ '\'' :: after)) = [specifier] := by
  rw [relatives, quotations_quote hbefore oneLine quote feed hafter]
  exact List.filter_cons_of_pos relative

theorem relatives_importLine {identifier directory file : Text} (hidentifier : IsWord identifier)
    (hdirectory : '\'' ∉ directory ∧ '\n' ∉ directory) (hfile : IsWord file) :
    relatives ("import ".toList ++ identifier ++ (" from '".toList ++ ("./".toList ++ directory)) ++
      file ++ "';".toList) = ["./".toList ++ (directory ++ file)] := by
  have regroup : "import ".toList ++ identifier ++ (" from '".toList ++ ("./".toList ++ directory)) ++
      file ++ "';".toList = ("import ".toList ++ (identifier ++ " from ".toList)) ++
        '\'' :: (("./".toList ++ (directory ++ file)) ++ '\'' :: ";".toList) := by
    have opening : " from '".toList = " from ".toList ++ ['\''] := rfl
    have closing : "';".toList = '\'' :: ";".toList := rfl
    rw [opening, closing]
    simp only [List.append_assoc, List.cons_append, List.nil_append]
  have quote : isNameLetter '\'' = false := by decide
  have feed : isNameLetter '\n' = false := by decide
  rw [regroup]
  refine relatives_quote ?_ ?_ ?_ ?_ (by decide) rfl
  · simp only [List.mem_append, not_or]
    exact ⟨by decide, hidentifier.notMem quote, by decide⟩
  · simp only [List.mem_append, not_or]
    exact ⟨by decide, hidentifier.notMem feed, by decide⟩
  · simp only [List.mem_append, not_or]
    exact ⟨by decide, hdirectory.1, hfile.notMem quote⟩
  · simp only [List.mem_append, not_or]
    exact ⟨by decide, hdirectory.2, hfile.notMem feed⟩

theorem relatives_storyLine {file : Text} (hfile : IsWord file) :
    relatives ("import './".toList ++ file ++ ".stories';".toList) =
      ["./".toList ++ (file ++ ".stories".toList)] := by
  have regroup : "import './".toList ++ file ++ ".stories';".toList = "import ".toList ++
      '\'' :: (("./".toList ++ (file ++ ".stories".toList)) ++ '\'' :: ";".toList) := by
    have opening : "import './".toList = "import ".toList ++ '\'' :: "./".toList := rfl
    have closing : ".stories';".toList = ".stories".toList ++ '\'' :: ";".toList := rfl
    rw [opening, closing]
    simp only [List.append_assoc, List.cons_append]
  rw [regroup]
  refine relatives_quote (by decide) (by decide) ?_ ?_ (by decide) rfl
  · simp only [List.mem_append, not_or]
    exact ⟨by decide, hfile.notMem (by decide), by decide⟩
  · simp only [List.mem_append, not_or]
    exact ⟨by decide, hfile.notMem (by decide), by decide⟩

/-- From an index file each import line leads to the file of its entity. -/
theorem Names.entry_targets (hm : IsName names.moduleDir) (worded : names.Worded)
    (stem : names.containerFile = containerStem config names.componentFile) {kind : EntityKind}
    {spot : Spot} {patch : IndexPatch} (h : names.entry? kind = some (spot, patch)) :
    (relatives patch.importLine).map (target (spot.path config names)) =
      [outputPath config kind names.componentFile names.moduleDir] := by
  have module : (modulePath config names.moduleDir).IsDirectory := isDirectory_modulePath hm
  have index : IsName "index.js".toList := by decide
  have component : IsName (fileName names.componentFile) :=
    worded.componentFile.isName_append (by decide)
  have container : IsName (fileName names.containerFile) :=
    worded.containerFile.isName_append (by decide)
  have story : IsName (fileName (names.componentFile ++ ".stories".toList)) :=
    isName_fileName_stem config .storybook worded.componentFile
  cases kind with
  | module => cases h
  | component =>
    obtain ⟨rfl, rfl⟩ := Prod.mk.inj (Option.some.inj h)
    have led := (target_stay module index ("components/".toList ++ names.componentFile)).trans
      (follow_below "components".toList names.componentFile isName_components component)
    have line : relatives names.componentPatch.importLine = _ :=
      @relatives_importLine _ "components/".toList _ worded.componentName (by decide)
        worded.componentFile
    rw [line]
    exact congrArg (fun path => [path]) led
  | container =>
    obtain ⟨rfl, rfl⟩ := Prod.mk.inj (Option.some.inj h)
    have led := (target_stay module index ("containers/".toList ++ names.containerFile)).trans
      (follow_below "containers".toList names.containerFile isName_containers container)
    have line : relatives names.containerPatch.importLine = _ :=
      @relatives_importLine _ "containers/".toList _ worded.containerName (by decide)
        worded.containerFile
    rw [line, List.map_singleton]
    rw [stem] at led ⊢
    exact congrArg (fun path => [path]) led
  | storybook =>
    obtain ⟨rfl, rfl⟩ := Prod.mk.inj (Option.some.inj h)
    have directory := ((modulePath config names.moduleDir).join
      ⟨"components".toList⟩).isDirectory_join isName_stories
    rw [← storiesDir_eq hm] at directory
    have led := (target_stay directory index _).trans
      (follow_file (names.componentFile ++ ".stories".toList) story)
    have line : relatives names.storyPatch.importLine = _ := relatives_storyLine worded.componentFile
    rw [line]
    exact congrArg (fun path => [path]) led

end Targets

end ComponentForge
