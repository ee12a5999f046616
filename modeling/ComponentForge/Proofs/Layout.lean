import ComponentForge.Layout
import ComponentForge.Proofs.Letter.NameLetter
import ComponentForge.Proofs.Path

/-!
# Routes of a layout

The paths of a layout go down from the project root along the modules directory, a module and a tail
of names below the module. The tails of the two index files are not on the way to any other file.
-/

namespace ComponentForge

theorem IsWord.isName_append {word : Text} (h : IsWord word) {more : Text} (hmore : '/' ∉ more) :
    IsName (word ++ more) := by
  obtain ⟨c, rest, rfl⟩ := List.exists_cons_of_ne_nil h.ne_nil
  have slash : '/' ∉ c :: rest := h.notMem (by decide)
  have dot : '.' ∉ c :: rest := h.notMem (by decide)
  refine isName_of_mem (c := c) ?_ (by simp) ?_
  · rw [List.mem_append, not_or]
    exact ⟨slash, hmore⟩
  · rintro rfl
    exact dot List.mem_cons_self

namespace Layout

/-- The modules directory lies below the project root. -/
structure Inside (modulesPath : Text) : Prop where
  relative : (Path.mk modulesPath).isAbsolute = false
  no_up : .up ∉ (Path.mk modulesPath).steps

theorem inside_default : Inside Config.default.modulesPath :=
  ⟨by decide, by decide⟩

/-- The names that lead to the modules directory. -/
def modulesRoute (modulesPath : Text) : List Text :=
  (Path.mk modulesPath).names

/-- The names below a module that lead to the entities of a kind. -/
def directoryNames : EntityKind → List Text
  | .component => ["components".toList]
  | .container => ["containers".toList]
  | .storybook => ["components".toList, "stories".toList]
  | .module => []

def fileName (stem : Text) : Text :=
  stem ++ '.' :: EntityKind.extension

/-- The names below a module that lead to an entity. -/
def entityTail (config : Config) (kind : EntityKind) (entity : Text) : List Text :=
  directoryNames kind ++ [fileName (stem config kind entity)]

def testTail (kind : EntityKind) (entity : Text) : List Text :=
  directoryNames kind ++ ["tests".toList, fileName entity]

def indexTail : List Text :=
  ["index.js".toList]

def storiesTail : List Text :=
  ["components".toList, "stories".toList, "index.js".toList]

variable {config : Config} {kind : EntityKind} {m entity : Text}

theorem descends_modulePath (inside : Inside config.modulesPath) (hm : IsName m) :
    (modulePath config m).Descends (modulesRoute config.modulesPath ++ [m]) := by
  have here : (Path.ofString ".").steps = [.stay] := by decide
  have steps := Path.steps_join (.ofString ".") inside.relative
  rw [here] at steps
  have names : ((Path.ofString ".").join ⟨config.modulesPath⟩).names =
      modulesRoute config.modulesPath := by
    rw [Path.names, steps]
    rfl
  rw [modulePath, ← names]
  refine .join_of_no_up ?_ ?_ (.of_name hm)
  · rw [steps]
    simpa using inside.no_up
  · exact Path.isAbsolute_join (by decide) inside.relative (by decide)

theorem descends_directory {path : Path} {q : List Text} (h : path.Descends q) (kind : EntityKind)
    (hkind : kind ≠ .module) : (path.join ⟨kind.directory⟩).Descends (q ++ directoryNames kind) := by
  refine h.join ?_
  cases kind with
  | module => exact absurd rfl hkind
  | component => exact .of_name ⟨by decide, by decide⟩
  | container => exact .of_name ⟨by decide, by decide⟩
  | storybook => exact ⟨⟨[.name "components".toList], "stories".toList, by decide, by decide, rfl⟩,
      by decide, by decide⟩

theorem descends_entityDir (inside : Inside config.modulesPath) (hm : IsName m)
    (hkind : kind ≠ .module) : (entityDir config kind m).Descends
      (modulesRoute config.modulesPath ++ m :: directoryNames kind) := by
  have below := descends_directory (descends_modulePath inside hm) kind hkind
  rw [List.append_assoc, List.singleton_append] at below
  cases kind with
  | module => exact absurd rfl hkind
  | _ => exact below

theorem isWord_containerStem (h : IsWord entity) : IsWord (containerStem config entity) := by
  refine h.append ?_
  cases config.snakeCaseFileNames <;> decide

theorem isName_fileName_stem (config : Config) (kind : EntityKind) (h : IsWord entity) :
    IsName (fileName (stem config kind entity)) := by
  cases kind with
  | container => exact (isWord_containerStem h).isName_append (by decide)
  | storybook =>
    rw [fileName, stem, List.append_assoc]
    exact h.isName_append (by decide)
  | component => exact h.isName_append (by decide)
  | module => exact h.isName_append (by decide)

theorem descends_outputPath (inside : Inside config.modulesPath) (hm : IsName m)
    (hkind : kind ≠ .module) (hentity : IsWord entity) : (outputPath config kind entity m).Descends
      (modulesRoute config.modulesPath ++ m :: entityTail config kind entity) := by
  have below := (descends_entityDir inside hm hkind).join
    (Path.Descends.of_name (isName_fileName_stem config kind hentity))
  rw [List.append_assoc, List.cons_append] at below
  cases kind with
  | module => exact absurd rfl hkind
  | _ => exact below

theorem descends_testPath (inside : Inside config.modulesPath) (hm : IsName m)
    (hkind : kind ≠ .module) (hentity : IsWord entity) : (testPath config kind entity m).Descends
      (modulesRoute config.modulesPath ++ m :: testTail kind entity) := by
  have tests : (Path.ofString "tests").Descends ["tests".toList] := .of_name ⟨by decide, by decide⟩
  have file : (fileNamed entity).Descends [fileName entity] :=
    .of_name (hentity.isName_append (by decide))
  have below := ((descends_entityDir inside hm hkind).join tests).join file
  simp only [List.append_assoc, List.cons_append, List.nil_append] at below
  exact below

theorem descends_indexFile : indexFile.Descends indexTail :=
  .of_name ⟨by decide, by decide⟩

theorem descends_indexPath (inside : Inside config.modulesPath) (hm : IsName m) :
    (indexPath config m).Descends (modulesRoute config.modulesPath ++ m :: indexTail) := by
  have below := (descends_modulePath inside hm).join descends_indexFile
  rw [List.append_assoc, List.singleton_append] at below
  exact below

theorem descends_storiesIndexPath (inside : Inside config.modulesPath) (hm : IsName m) :
    (storiesIndexPath config m).Descends (modulesRoute config.modulesPath ++ m :: storiesTail) := by
  have directory : (entityDir config .storybook m).Descends _ :=
    descends_entityDir inside hm (by decide)
  have below := directory.join descends_indexFile
  rw [List.append_assoc, List.cons_append] at below
  exact below

/-- Neither index file is on the way along the tail or at its end. -/
structure Aside (tail : List Text) : Prop where
  index : ¬ indexTail <+: tail
  stories : ¬ storiesTail <+: tail

theorem aside_nil : Aside [] :=
  ⟨by decide, by decide⟩

theorem aside_containers (rest : List Text) : Aside ("containers".toList :: rest) where
  index h := absurd (List.cons_prefix_cons.1 h).1 (by decide)
  stories h := absurd (List.cons_prefix_cons.1 h).1 (by decide)

theorem aside_components {rest : List Text} (h : ¬ storiesTail.tail <+: rest) :
    Aside ("components".toList :: rest) where
  index hindex := absurd (List.cons_prefix_cons.1 hindex).1 (by decide)
  stories hstories := h (List.cons_prefix_cons.1 hstories).2

theorem aside_directoryNames (kind : EntityKind) : Aside (directoryNames kind) := by
  cases kind with
  | module => exact aside_nil
  | container => exact aside_containers []
  | component => exact aside_components (by decide)
  | storybook => exact aside_components (by decide)

theorem fileName_stories_ne (config : Config) (entity : Text) :
    fileName (stem config .storybook entity) ≠ "index.js".toList := by
  intro same
  have dots := congrArg (List.count '.') same
  have literal : "index.js".toList.count '.' = 1 := by decide
  have ending : ".stories".toList.count '.' = 1 := by decide
  rw [fileName, stem, literal, List.count_append, List.count_append, ending, List.count_cons_self] at dots
  omega

theorem aside_entityTail (hkind : kind ≠ .module) : Aside (entityTail config kind entity) := by
  cases kind with
  | module => exact absurd rfl hkind
  | container => exact aside_containers _
  | component =>
    refine aside_components fun h => ?_
    have := (List.cons_prefix_cons.1 h).2.length_le
    simp at this
  | storybook =>
    refine aside_components fun h => ?_
    have last := (List.cons_prefix_cons.1 h).2
    exact fileName_stories_ne config entity (List.cons_prefix_cons.1 last).1.symm

theorem aside_testTail (hkind : kind = .component ∨ kind = .container) :
    Aside (testTail kind entity) := by
  rcases hkind with rfl | rfl
  · refine aside_components fun h => ?_
    exact absurd (List.cons_prefix_cons.1 h).1 (by decide)
  · exact aside_containers _

theorem aside_dropLast_indexTail : Aside indexTail.dropLast :=
  aside_nil

theorem aside_dropLast_storiesTail : Aside storiesTail.dropLast :=
  aside_directoryNames .storybook

theorem indexTail_ne_storiesTail : indexTail ≠ storiesTail := by
  decide

/-- A tail that keeps aside is not the tail of an index file. -/
theorem Aside.ne {tail : List Text} (h : Aside tail) : tail ≠ indexTail ∧ tail ≠ storiesTail := by
  constructor
  · rintro rfl
    exact h.index (List.prefix_refl _)
  · rintro rfl
    exact h.stories (List.prefix_refl _)

theorem Aside.dropLast {tail : List Text} (h : Aside tail) : Aside tail.dropLast :=
  ⟨fun hindex => h.index (hindex.trans tail.dropLast_prefix),
    fun hstories => h.stories (hstories.trans tail.dropLast_prefix)⟩

end Layout

end ComponentForge
