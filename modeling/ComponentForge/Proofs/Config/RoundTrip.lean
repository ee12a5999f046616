import ComponentForge.Config.Outline
import ComponentForge.Config.Reader
import ComponentForge.Proofs.Yaml.Decode

/-!
# Writing a configuration and reading it back

The overrides read from a printed configuration hold the value of every key, only that templates are
left out where there are none. On top of the defaults they make the same configuration again.
-/

namespace ComponentForge

open Yaml (Datum Document IsKey)

namespace CustomTemplate

/-- The keys of a template. -/
def keys : List Text :=
  ["name", "test", "text"].map String.toList

theorem keys_toRecord (t : CustomTemplate) : t.toRecord.map Prod.fst = keys :=
  rfl

theorem isRecord_toRecord (t : CustomTemplate) : Yaml.IsRecord t.toRecord where
  ne_nil := List.cons_ne_nil _ _
  keys := by
    have checked : ∀ key ∈ keys, IsKey key := by decide
    intro field hfield
    refine checked field.1 ?_
    rw [← t.keys_toRecord]
    exact List.mem_map.2 ⟨field, hfield, rfl⟩

theorem ofNode?_toRecord (d : Document) (t : CustomTemplate) :
    ofNode? d (Yaml.recordNode t.toRecord) = some t := by
  have distinct : (t.toRecord.map Prod.fst).Nodup := by
    rw [keys_toRecord]
    decide
  have find : ∀ {key : String} {datum : Datum} (i : Nat), t.toRecord[i]? = some (key.toList, datum) →
      Yaml.field? (t.toRecord.map fun field => (field.1, field.2.node)) key = some (some datum.node) :=
    fun i h => Yaml.field?_map_of_mem Datum.node distinct (List.mem_of_getElem? h)
  have name : Yaml.field? _ "name" = some (some (Datum.string t.name).node) := find 0 rfl
  have test : Yaml.field? _ "test" = some (some (Datum.bool t.test).node) := find 1 rfl
  have text : Yaml.field? _ "text" = some (some (Datum.string t.text).node) := find 2 rfl
  rw [ofNode?, Document.fields?_record]
  simp only [name, test, text, Option.bind_eq_bind, Option.bind_some, Document.string?_string,
    Document.bool?_bool]
  rfl

end CustomTemplate

namespace Config

/-- The keys of a configuration. -/
def keys : List Text :=
  ["tabSize", "storybook", "generateComponentTests", "generateContainerTests", "modulesPath",
    "useIndexFile", "snakeCaseFileNames", "templates"].map String.toList

theorem keys_toOutline (config : Config) : (config.toOutline.map Prod.fst).Sublist keys := by
  by_cases empty : config.templates.isEmpty
  · simp [toOutline, keys, empty]
  · simp [toOutline, keys, empty]

theorem isEntry_toOutline (config : Config) : ∀ entry ∈ config.toOutline, Yaml.IsEntry entry := by
  have checked : ∀ key ∈ keys, IsKey key := by decide
  intro entry mem
  have key : IsKey entry.1 :=
    checked entry.1 (config.keys_toOutline.subset (List.mem_map.2 ⟨entry, mem, rfl⟩))
  rcases List.mem_append.1 mem with scalar | list
  · obtain ⟨datum, same⟩ : ∃ datum, entry = (entry.1, .datum datum) := by
      simp only [List.mem_cons, List.not_mem_nil, or_false] at scalar
      rcases scalar with rfl | rfl | rfl | rfl | rfl | rfl | rfl <;> exact ⟨_, rfl⟩
    rw [same]
    exact key
  · split at list
    · cases list
    · rename_i some
      obtain rfl := List.mem_singleton.1 list
      refine ⟨key, by simpa using some, fun record hrecord => ?_⟩
      obtain ⟨t, -, rfl⟩ := List.mem_map.1 hrecord
      exact t.isRecord_toRecord

end Config

namespace Overrides

/-- The overrides of every key, of templates only if there are any. -/
def ofConfig (config : Config) : Overrides where
  tabSize := config.tabSize
  storybook := config.storybook
  generateComponentTests := config.generateComponentTests
  generateContainerTests := config.generateContainerTests
  modulesPath := config.modulesPath
  useIndexFile := config.useIndexFile
  snakeCaseFileNames := config.snakeCaseFileNames
  templates := if config.templates.isEmpty then .none else some config.templates

section Entries

variable {d : Document} {outline : Yaml.Outline} {key : String} {α : Type} {decode : Yaml.Node → Option α}

theorem entry?_of_mem (distinct : (outline.map Prod.fst).Nodup) {field : Yaml.Field} {value : α}
    (mem : (key.toList, field) ∈ outline) (h : decode field.node = some value) :
    entry? d (outline.map fun entry => (entry.1, entry.2.node)) key decode = some (some value) := by
  unfold entry?
  rw [Yaml.field?_map_of_mem Yaml.Field.node distinct mem]
  exact Document.optional?_field h

theorem entry?_of_not_mem (h : key.toList ∉ outline.map Prod.fst) :
    entry? d (outline.map fun entry => (entry.1, entry.2.node)) key decode = some .none := by
  unfold entry?
  rw [Yaml.field?_map_of_not_mem Yaml.Field.node h]
  rfl

end Entries

section Outlines

variable {config : Config} {d : Document}

theorem distinct_toOutline : (config.toOutline.map Prod.fst).Nodup :=
  config.keys_toOutline.nodup (by decide)

/-- Templates are missing where there are none. -/
theorem entry?_templates :
    entry? d (config.toOutline.map fun entry => (entry.1, entry.2.node)) "templates"
      (fun node => (d.items? node).bind fun nodes => nodes.mapM (CustomTemplate.ofNode? d)) =
        some (ofConfig config).templates := by
  by_cases empty : config.templates.isEmpty
  · have left_out : (ofConfig config).templates = .none := by simp [ofConfig, empty]
    rw [left_out]
    refine entry?_of_not_mem fun mem => ?_
    simp [Config.toOutline, empty] at mem
  · have given : (ofConfig config).templates = some config.templates := by simp [ofConfig, empty]
    have listed : ("templates".toList, .records (config.templates.map CustomTemplate.toRecord)) ∈
        config.toOutline := by
      simp [Config.toOutline, empty]
    have decoded : (config.templates.map _).mapM (CustomTemplate.ofNode? d) =
        some (config.templates.map fun t => t) :=
      Document.mapM_map fun t _ => CustomTemplate.ofNode?_toRecord d t
    rw [given]
    refine entry?_of_mem distinct_toOutline listed ?_
    rw [Document.items?_records, Option.bind_some, List.map_map]
    rwa [List.map_id'] at decoded

theorem ofDocument?_toOutline (root : d.root = Yaml.outlineNode config.toOutline)
    (small : config.tabSize ≤ Yaml.maxUnsigned) : ofDocument? d = some (ofConfig config) := by
  have scalar : ∀ {α : Type} {key : String} {field : Yaml.Field} {decode : Yaml.Node → Option α}
      {value : α} (i : Nat), config.toOutline[i]? = some (key.toList, field) →
      decode field.node = some value →
      entry? d (config.toOutline.map fun entry => (entry.1, entry.2.node)) key decode =
        some (some value) :=
    fun i h reads => entry?_of_mem distinct_toOutline (List.mem_of_getElem? h) reads
  have tabSize : entry? d _ "tabSize" d.nat? = some (some config.tabSize) :=
    scalar 0 rfl (Document.nat?_number small)
  have storybook : entry? d _ "storybook" d.bool? = some (some config.storybook) :=
    scalar 1 rfl (Document.bool?_bool _)
  have componentTests : entry? d _ "generateComponentTests" d.bool? =
      some (some config.generateComponentTests) :=
    scalar 2 rfl (Document.bool?_bool _)
  have containerTests : entry? d _ "generateContainerTests" d.bool? =
      some (some config.generateContainerTests) :=
    scalar 3 rfl (Document.bool?_bool _)
  have modulesPath : entry? d _ "modulesPath" d.string? = some (some config.modulesPath) :=
    scalar 4 rfl (Document.string?_string _)
  have useIndexFile : entry? d _ "useIndexFile" d.bool? = some (some config.useIndexFile) :=
    scalar 5 rfl (Document.bool?_bool _)
  have snakeCase : entry? d _ "snakeCaseFileNames" d.bool? = some (some config.snakeCaseFileNames) :=
    scalar 6 rfl (Document.bool?_bool _)
  rw [ofDocument?, root, Document.fields?_outline]
  simp only [Option.bind_eq_bind, Option.bind_some, tabSize, storybook, componentTests, containerTests,
    modulesPath, useIndexFile, snakeCase, entry?_templates]
  rfl

end Outlines

end Overrides

namespace Config

theorem merge_ofConfig (config : Config) : default.merge (.ofConfig config) = config := by
  obtain ⟨_, _, _, _, _, _, _, templates⟩ := config
  cases templates <;> rfl

/-- What is written is no source of white space. -/
theorem not_blank_toYaml (config : Config) : config.toYaml.all isBlank = false := by
  obtain ⟨rest, shape⟩ : ∃ rest, config.toYaml = 't' :: rest := by
    rw [toYaml, toOutline, List.cons_append, Yaml.print_cons, Yaml.print_datum, Yaml.printField_eq]
    exact ⟨_, rfl⟩
  have letter : isBlank 't' = false := by decide
  rw [shape, List.all_cons, letter, Bool.false_and]

/-- A configuration with valid values is read back as it was written. -/
theorem parse_toYaml (config : Config) (sourceName : Text) (valid : config.validate = .ok ())
    (width : config.tabSize < 2 ^ 64) : parse config.toYaml sourceName = .ok config := by
  have small : config.tabSize ≤ Yaml.maxUnsigned := Nat.le_of_lt_succ width
  have hne : config.toOutline ≠ [] := List.cons_ne_nil _ _
  have reads := Yaml.read?_print hne config.isEntry_toOutline
  have overrides : Overrides.ofDocument? ⟨Yaml.outlineNode config.toOutline, [], []⟩ =
      some (.ofConfig config) := Overrides.ofDocument?_toOutline rfl small
  have checked : config.check config.toYaml sourceName = .ok () := by
    rw [check, valid]
  rw [← toYaml] at reads
  rw [parse, config.not_blank_toYaml, reads, Option.bind_some, overrides]
  simp only [merge_ofConfig, checked]
  rfl

/-- A path that looks like null and a template of indented lines are read back. -/
theorem parse_toYaml_null_path :
    validate { default with
      modulesPath := "null".toList, templates := [⟨"storybook".toList, true, "  - a: #b\n\n".toList⟩] } =
        .ok () ∧
      parse (toYaml { default with
        modulesPath := "null".toList, templates := [⟨"storybook".toList, true, "  - a: #b\n\n".toList⟩] })
          ".bija.yaml".toList =
        .ok { default with
          modulesPath := "null".toList, templates := [⟨"storybook".toList, true, "  - a: #b\n\n".toList⟩] } :=
  ⟨by decide, parse_toYaml _ _ (by decide) (by decide)⟩

end Config

end ComponentForge
