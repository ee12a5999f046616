import ComponentForge.Generator.Entity
import ComponentForge.Proofs.Index.Imports
import ComponentForge.Proofs.Letter.Casing

/-!
# Import lines of entities

The names that are derived from an accepted name are words, so the import lines that are built from
them are import statements on one line, and none of them lies inside another one.
-/

namespace ComponentForge

open Text

namespace Index

/-- The statement that imports what `subject` says. -/
def importOf (subject : Text) : Text :=
  ['i', 'm', 'p', 'o', 'r', 't'] ++ ' ' :: (subject ++ [';'])

/-- The text can stand in a statement and leaves the lines and the zone of an index file alone. -/
structure Plain (text : Text) : Prop where
  oneLine : '\n' ∉ text
  no_comma : ',' ∉ text
  no_semicolon : ';' ∉ text
  no_open : '{' ∉ text
  no_close : '}' ∉ text

theorem Plain.append {a b : Text} (ha : Plain a) (hb : Plain b) : Plain (a ++ b) where
  oneLine := by simp [ha.oneLine, hb.oneLine]
  no_comma := by simp [ha.no_comma, hb.no_comma]
  no_semicolon := by simp [ha.no_semicolon, hb.no_semicolon]
  no_open := by simp [ha.no_open, hb.no_open]
  no_close := by simp [ha.no_close, hb.no_close]

theorem plain_of_isWord {word : Text} (h : IsWord word) : Plain word :=
  ⟨h.notMem (by decide), h.notMem (by decide), h.notMem (by decide), h.notMem (by decide),
    h.notMem (by decide)⟩

theorem importOf_isImportLine {subject : Text} (plain : Plain subject) (quoted : '\'' ∈ subject) :
    IsImportLine (importOf subject) where
  oneLine := by simp [importOf, plain.oneLine]
  trimmed := by
    apply trimEnd_of_last
    intro c hc
    obtain rfl : ';' = c := by simpa [importOf, List.getLast?_cons] using hc
    rfl
  statement := by rfl
  no_comma := by simp [importOf, plain.no_comma]
  braceless := by simp [Braceless, importOf, plain.no_open, plain.no_close]
  quoted := by simp [importOf, quoted]

/-- An import line with as many spaces as another one lies inside it only if it is the same. -/
theorem eq_of_infix_importOf {a b : Text} (hb : Plain b) (spaces : a.count ' ' = b.count ' ')
    (inside : importOf a <:+: importOf b) : importOf a = importOf b := by
  obtain ⟨before, after, whole⟩ := inside
  have space_count := congrArg (List.count ' ') whole
  have semicolon_count := congrArg (List.count ';') whole
  simp [importOf, List.count_eq_zero_of_not_mem hb.no_semicolon] at semicolon_count
  simp [importOf] at space_count
  have no_space : ' ' ∉ before := List.count_eq_zero.1 (by omega)
  have nothing_after : after = [] := by
    rcases List.eq_nil_or_concat after with h | ⟨front, last, rfl⟩
    · exact h
    · exfalso
      have ends := congrArg List.getLast? whole
      obtain rfl : last = ';' := by simpa [importOf, List.getLast?_cons] using ends
      simp at semicolon_count
      omega
  subst nothing_after
  have aligned : (before ++ ['i', 'm', 'p', 'o', 'r', 't']) ++ ' ' :: (a ++ [';']) =
      ['i', 'm', 'p', 'o', 'r', 't'] ++ ' ' :: (b ++ [';']) := by
    simpa [importOf] using whole
  have same_cut := congrArg (Text.cut? · [' ']) aligned
  simp only [cut?_char (show ' ' ∉ before ++ ['i', 'm', 'p', 'o', 'r', 't'] by simp [no_space]),
    cut?_char (show ' ' ∉ ['i', 'm', 'p', 'o', 'r', 't'] by decide)] at same_cut
  obtain ⟨-, same⟩ := Prod.mk.inj (Option.some.inj same_cut)
  rw [importOf, importOf, same]

end Index

namespace Names

/-- The names of an entity whose raw name passes every check of a name under the configuration. -/
def Accepted (config : Config) (raw : Text) (names : Names) : Prop :=
  ∃ name module dir, EntityName.parse raw = .ok name ∧ name.module = some module ∧
    config.policy.checkedModuleDir module = .ok dir ∧
    config.policy.checkEntity name.entity = .ok () ∧ names = derive config module name.entity

variable {config : Config} {raw : Text} {names : Names}

theorem isWord_of_checkEntity {policy : NamingPolicy} {entity : Text}
    (h : policy.checkEntity entity = .ok ()) :
    IsWord (NamingPolicy.identifier entity) ∧ IsWord (policy.fileName entity) := by
  simp only [NamingPolicy.checkEntity] at h
  split at h
  · simp at h
  · rename_i words
    simp only [Bool.or_eq_true, List.isEmpty_iff, not_or] at words
    exact ⟨⟨words.1, Casing.isNameLetter_apply _ entity⟩, ⟨words.2, Casing.isNameLetter_apply _ entity⟩⟩

/-- What index files and paths are made of. -/
structure Worded (names : Names) : Prop where
  componentName : IsWord names.componentName
  componentFile : IsWord names.componentFile
  containerName : IsWord names.containerName
  containerFile : IsWord names.containerFile

theorem Accepted.worded (h : Accepted config raw names) : Worded names := by
  obtain ⟨name, module, dir, -, -, -, checked, rfl⟩ := h
  obtain ⟨identifier, file⟩ := isWord_of_checkEntity checked
  refine ⟨identifier, file, identifier.append (by decide), file.append ?_⟩
  cases config.snakeCaseFileNames <;> decide

/-- A raw name has one set of names. -/
theorem Accepted.eq {others : Names} (h : Accepted config raw names)
    (h' : Accepted config raw others) : names = others := by
  obtain ⟨name, module, dir, parsed, module_some, -, -, rfl⟩ := h
  obtain ⟨name', module', dir', parsed', module_some', -, -, rfl⟩ := h'
  obtain rfl := Except.ok.inj (parsed.symm.trans parsed')
  obtain rfl := Option.some.inj (module_some.symm.trans module_some')
  rfl

/-- A component and the container around it have different identifiers. -/
theorem Accepted.containerName_ne (h : Accepted config raw names) :
    names.containerName ≠ names.componentName := by
  obtain ⟨name, module, dir, -, -, -, -, rfl⟩ := h
  intro same
  have lengths := congrArg List.length same
  simp [derive] at lengths

theorem Accepted.importLine_ne (h : Accepted config raw names) :
    names.containerPatch.importLine ≠ names.componentPatch.importLine := by
  obtain ⟨name, module, dir, -, -, -, -, rfl⟩ := h
  -- the literals of the two lines differ in nothing that the lengths show
  have longer : ∀ opening name ending lead lead' file stem closing : Text,
      lead.length = lead'.length → ending ≠ [] →
      opening ++ (name ++ ending) ++ lead ++ (file ++ stem) ++ closing ≠
        opening ++ name ++ lead' ++ file ++ closing := by
    intro opening name ending lead lead' file stem closing leads hne same
    have lengths := congrArg List.length same
    have pos := List.length_pos_iff.2 hne
    simp only [List.length_append] at lengths
    omega
  exact longer _ _ _ _ _ _ _ _ (by decide) (by decide)

/-- What the import line of an identifier says; `lead` stands before the file name. -/
def subject (identifier lead file : Text) : Text :=
  identifier ++ (lead ++ (file ++ ['\'']))

theorem import_line_eq (identifier lead file : Text) :
    "import ".toList ++ identifier ++ lead ++ file ++ "';".toList =
      Index.importOf (subject identifier lead file) := by
  have opening : "import ".toList = ['i', 'm', 'p', 'o', 'r', 't', ' '] := rfl
  have closing : "';".toList = ['\'', ';'] := rfl
  rw [opening, closing]
  simp [Index.importOf, subject]

theorem componentPatch_eq (names : Names) : names.componentPatch =
    ⟨Index.importOf (subject names.componentName " from './components/".toList names.componentFile),
      some (Index.entry names.componentName)⟩ :=
  congrArg (IndexPatch.mk · _) (import_line_eq _ _ _)

theorem containerPatch_eq (names : Names) : names.containerPatch =
    ⟨Index.importOf (subject names.containerName " from './containers/".toList names.containerFile),
      some (Index.entry names.containerName)⟩ :=
  congrArg (IndexPatch.mk · _) (import_line_eq _ _ _)

/-- The patches that an entity of the kind has for the index file of its module. -/
def modulePatches (names : Names) : EntityKind → List IndexPatch
  | .component => [names.componentPatch]
  | .container => [names.containerPatch, names.componentPatch]
  | _ => []

theorem eq_of_mem_modulePatches {names : Names} {kind : EntityKind} {patch : IndexPatch}
    (h : patch ∈ names.modulePatches kind) :
    patch = names.componentPatch ∨ patch = names.containerPatch := by
  cases kind with
  | module => simp [modulePatches] at h
  | storybook => simp [modulePatches] at h
  | component => exact Or.inl (List.mem_singleton.1 h)
  | container =>
    rcases List.mem_cons.1 h with same | h
    · exact Or.inr same
    · exact Or.inl (List.mem_singleton.1 h)

theorem story_line_eq (file : Text) : "import './".toList ++ file ++ ".stories';".toList =
    Index.importOf (['\'', '.', '/'] ++ (file ++ ".stories'".toList)) := by
  have opening : "import './".toList =
      ['i', 'm', 'p', 'o', 'r', 't', ' ', '\'', '.', '/'] := rfl
  have closing : ".stories';".toList = ".stories'".toList ++ [';'] := rfl
  rw [opening, closing]
  generalize ".stories'".toList = ending
  simp [Index.importOf]

theorem storyPatch_eq (names : Names) : names.storyPatch =
    ⟨Index.importOf (['\'', '.', '/'] ++ (names.componentFile ++ ".stories'".toList)), none⟩ :=
  congrArg (IndexPatch.mk · _) (story_line_eq _)

end Names

namespace Index

open Names

/-- The directories that identifiers are imported from, as an import line names them. -/
def importLeads : List Text :=
  [" from './components/".toList, " from './containers/".toList]

/-- An import line as components and containers have it. -/
def IsModuleImport (line : Text) : Prop :=
  ∃ identifier lead file, IsWord identifier ∧ lead ∈ importLeads ∧ IsWord file ∧
    line = importOf (subject identifier lead file)

/-- An import line as storybook entries have it. -/
def IsStoryImport (line : Text) : Prop :=
  ∃ file, IsWord file ∧ line = importOf (['\'', '.', '/'] ++ (file ++ ".stories'".toList))

theorem plain_lead : ∀ lead ∈ importLeads, Plain lead := by
  intro lead hlead
  have checked : ∀ lead ∈ importLeads,
      '\n' ∉ lead ∧ ',' ∉ lead ∧ ';' ∉ lead ∧ '{' ∉ lead ∧ '}' ∉ lead := by decide
  obtain ⟨oneLine, comma, semicolon, opening, closing⟩ := checked lead hlead
  exact ⟨oneLine, comma, semicolon, opening, closing⟩

theorem plain_subject {identifier lead file : Text} (hidentifier : IsWord identifier)
    (hlead : lead ∈ importLeads) (hfile : IsWord file) : Plain (subject identifier lead file) :=
  (plain_of_isWord hidentifier).append ((plain_lead lead hlead).append
    ((plain_of_isWord hfile).append ⟨by decide, by decide, by decide, by decide, by decide⟩))

theorem count_space {word : Text} (h : IsWord word) : word.count ' ' = 0 :=
  List.count_eq_zero_of_not_mem (h.notMem (by decide))

theorem count_space_subject {identifier lead file : Text} (hidentifier : IsWord identifier)
    (hlead : lead ∈ importLeads) (hfile : IsWord file) :
    (subject identifier lead file).count ' ' = 2 := by
  have checked : ∀ lead ∈ importLeads, lead.count ' ' = 2 := by decide
  simp [subject, count_space hidentifier, count_space hfile, checked lead hlead]

theorem IsModuleImport.isImportLine {line : Text} (h : IsModuleImport line) : IsImportLine line := by
  obtain ⟨identifier, lead, file, hidentifier, hlead, hfile, rfl⟩ := h
  exact importOf_isImportLine (plain_subject hidentifier hlead hfile) (by simp [subject])

theorem IsModuleImport.eq_of_infix {a b : Text} (ha : IsModuleImport a) (hb : IsModuleImport b)
    (inside : a <:+: b) : a = b := by
  obtain ⟨i, l, f, hi, hl, hf, rfl⟩ := ha
  obtain ⟨i', l', f', hi', hl', hf', rfl⟩ := hb
  refine eq_of_infix_importOf (plain_subject hi' hl' hf') ?_ inside
  rw [count_space_subject hi hl hf, count_space_subject hi' hl' hf']

theorem plain_story {file : Text} (h : IsWord file) :
    Plain (['\'', '.', '/'] ++ (file ++ ".stories'".toList)) :=
  Plain.append ⟨by decide, by decide, by decide, by decide, by decide⟩
    ((plain_of_isWord h).append ⟨by decide, by decide, by decide, by decide, by decide⟩)

theorem count_space_story {file : Text} (h : IsWord file) :
    (['\'', '.', '/'] ++ (file ++ ".stories'".toList)).count ' ' = 0 := by
  have ending : ".stories'".toList.count ' ' = 0 := by decide
  rw [List.count_append, List.count_append, count_space h, ending]
  rfl

theorem IsStoryImport.isImportLine {line : Text} (h : IsStoryImport line) : IsImportLine line := by
  obtain ⟨file, hfile, rfl⟩ := h
  exact importOf_isImportLine (plain_story hfile) List.mem_cons_self

theorem IsStoryImport.eq_of_infix {a b : Text} (ha : IsStoryImport a) (hb : IsStoryImport b)
    (inside : a <:+: b) : a = b := by
  obtain ⟨f, hf, rfl⟩ := ha
  obtain ⟨f', hf', rfl⟩ := hb
  refine eq_of_infix_importOf (plain_story hf') ?_ inside
  rw [count_space_story hf, count_space_story hf']

/-- A patch as components and containers have it. -/
def IsModulePatch (patch : IndexPatch) : Prop :=
  ∃ line x, IsModuleImport line ∧ IsWord x ∧ patch = ⟨line, some (entry x)⟩

end Index

namespace Names.Worded

open Index

variable {names : Names}

theorem componentPatch (h : names.Worded) : IsModulePatch names.componentPatch :=
  ⟨_, _, ⟨_, _, _, h.componentName, List.mem_cons_self, h.componentFile, rfl⟩, h.componentName,
    componentPatch_eq names⟩

theorem containerPatch (h : names.Worded) : IsModulePatch names.containerPatch :=
  ⟨_, _, ⟨_, _, _, h.containerName, List.mem_cons_of_mem _ List.mem_cons_self, h.containerFile, rfl⟩,
    h.containerName, containerPatch_eq names⟩

theorem modulePatch (h : names.Worded) {kind : EntityKind} {patch : IndexPatch}
    (hpatch : patch ∈ names.modulePatches kind) : IsModulePatch patch := by
  rcases eq_of_mem_modulePatches hpatch with rfl | rfl
  · exact h.componentPatch
  · exact h.containerPatch

theorem storyPatch (h : names.Worded) :
    ∃ line, IsStoryImport line ∧ names.storyPatch = ⟨line, none⟩ :=
  ⟨_, ⟨_, h.componentFile, rfl⟩, storyPatch_eq names⟩

end Names.Worded

end ComponentForge
