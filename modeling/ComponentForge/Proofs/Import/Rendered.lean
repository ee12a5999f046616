import ComponentForge.Proofs.Generator.Plans
import ComponentForge.Proofs.Import.Specifier
import ComponentForge.Proofs.Template.Filling

/-!
# Specifiers of the built-in templates

Values without quotes and line feeds can be put into a template before or after its quotations are
read. So the specifiers of a rendered template are seen in the template, whatever the names are.
-/

namespace ComponentForge

open Specifier

namespace Template

/-- The quotations of a template, as pieces. -/
def quotationsFrom : (reading : Option (List Piece)) → List Piece → List (List Piece)
  | _, [] => []
  | none, piece :: rest => quotationsFrom (if piece = .char '\'' then some [] else none) rest
  | some body, piece :: rest =>
    if piece = .char '\'' then body :: quotationsFrom none rest
    else quotationsFrom (if piece = .char '\n' then none else some (body ++ [piece])) rest

/-- The values of the variables hold neither quotes nor line feeds. -/
def Variables.Quotable (vars : Variables) : Prop :=
  ∀ name, ∀ value ∈ vars.value? name, '\'' ∉ value ∧ '\n' ∉ value

variable {vars : Variables}

/-- Quotations can be read before the values are put in. -/
theorem quotationsFrom_value (quotable : vars.Quotable) (reading : Option (List Piece))
    (ps : List Piece) : Specifier.quotationsFrom (reading.map (put vars)) (put vars ps) =
      (quotationsFrom reading ps).map (put vars) := by
  induction ps generalizing reading with
  | nil => cases reading <;> rfl
  | cons piece more ih =>
    have outside := ih none
    have opened := ih (some [])
    rw [put, List.flatMap_cons, ← put]
    by_cases literal : ∃ c, piece = .char c
    · obtain ⟨c, rfl⟩ := literal
      cases reading with
      | none =>
        by_cases quote : c = '\''
        · subst quote
          simpa [quotationsFrom, Specifier.quotationsFrom, put, Piece.value] using opened
        · simpa [quotationsFrom, Specifier.quotationsFrom, put, Piece.value, quote] using outside
      | some body =>
        have longer := ih (some (body ++ [.char c]))
        by_cases quote : c = '\''
        · subst quote
          simpa [quotationsFrom, Specifier.quotationsFrom, put, Piece.value] using outside
        · by_cases feed : c = '\n'
          · subst feed
            simpa [quotationsFrom, Specifier.quotationsFrom, put, Piece.value] using outside
          · simpa [quotationsFrom, Specifier.quotationsFrom, put, Piece.value, quote, feed] using longer
    · have not_quote : piece ≠ .char '\'' := fun same => literal ⟨_, same⟩
      have not_feed : piece ≠ .char '\n' := fun same => literal ⟨_, same⟩
      have plain : '\'' ∉ piece.value vars ∧ '\n' ∉ piece.value vars := by
        cases piece with
        | char c => exact absurd ⟨c, rfl⟩ literal
        | placeholder body =>
          rw [Piece.value]
          cases found : vars.value? body.trim with
          | none => simp
          | some value => exact quotable _ value found
      obtain ⟨put_outside, put_inside⟩ := Specifier.quotationsFrom_put plain.1 plain.2 (put vars more)
      cases reading with
      | none =>
        rw [Option.map_none, put_outside]
        simpa [quotationsFrom, not_quote] using outside
      | some body =>
        have longer := ih (some (body ++ [piece]))
        rw [Option.map_some, put_inside]
        simpa [quotationsFrom, put, not_quote, not_feed] using longer

/-- The templates that an entity's files may have. -/
def builtins : List Text :=
  [component, componentClass, container, storybook, componentTest, containerTest]

/-- The names of the variables that an entity has. -/
def variableNames : List Text :=
  ["moduleName".toList, "componentName".toList, "componentFileName".toList, "containerName".toList,
    "containerFileName".toList]

def Piece.uses (names : List Text) : Piece → Bool
  | char _ => true
  | placeholder body => names.contains body.trim

theorem isSome_value? {name : Text} (h : name ∈ vars.map Prod.fst) : (vars.value? name).isSome := by
  obtain ⟨binding, mem, rfl⟩ := List.mem_map.1 h
  exact List.lookup_isSome_iff.2 ⟨binding, List.mem_reverse.2 mem, beq_self_eq_true _⟩

theorem mem_of_value? {name value : Text} (h : vars.value? name = some value) :
    (name, value) ∈ vars := by
  obtain ⟨before, after, whole, -⟩ := List.lookup_eq_some_iff.1 h
  rw [← List.mem_reverse, whole]
  simp

/-- A template that uses no variables but those of an entity, with its quotations. -/
def Reads (text : Text) (quotations : List (List Piece)) : Prop :=
  (pieces text).all (·.uses variableNames) ∧ quotationsFrom none (pieces text) = quotations

instance (text : Text) (quotations : List (List Piece)) : Decidable (Reads text quotations) :=
  inferInstanceAs (Decidable (_ ∧ _))

theorem Reads.known {text : Text} {quotations : List (List Piece)} (h : Reads text quotations)
    (names : Names) : Known names.bindings (pieces text) := by
  intro body hbody
  have used := List.all_eq_true.1 h.1 _ hbody
  exact isSome_value? (by simpa [Piece.uses, variableNames, Names.bindings] using used)

theorem reads_component : Reads component [literal "react".toList] := by
  decide +kernel

theorem reads_componentClass : Reads componentClass [literal "react".toList] := by
  decide +kernel

theorem reads_container : Reads container [literal "react".toList,
    literal "../components/".toList ++ [.placeholder " componentFileName ".toList]] := by
  decide +kernel

theorem reads_storybook : Reads storybook [literal "react".toList,
    literal "@storybook/react".toList, literal "@storybook/addon-actions".toList,
    literal "../".toList ++ [.placeholder " componentFileName ".toList],
    [.placeholder " moduleName ".toList], literal "default".toList] := by
  decide +kernel

/-- The quotations of a test, about the file that the placeholder with this body names. -/
def testQuotations (body label : Text) : List (List Piece) :=
  [literal "chai".toList, literal "enzyme".toList, literal "../".toList ++ [.placeholder body],
    [.placeholder " moduleName ".toList] ++ (literal label ++ [.placeholder body]),
    literal "should do something".toList]

theorem reads_componentTest : Reads componentTest
    (testQuotations " componentFileName ".toList ".components.".toList) := by
  decide +kernel

theorem reads_containerTest : Reads containerTest
    (testQuotations " containerFileName ".toList ".containers.".toList) := by
  decide +kernel

theorem known_builtins (names : Names) : ∀ text ∈ builtins, Known names.bindings (pieces text) := by
  intro text mem
  simp only [builtins, List.mem_cons, List.not_mem_nil, or_false] at mem
  rcases mem with rfl | rfl | rfl | rfl | rfl | rfl
  · exact reads_component.known names
  · exact reads_componentClass.known names
  · exact reads_container.known names
  · exact reads_storybook.known names
  · exact reads_componentTest.known names
  · exact reads_containerTest.known names

end Template

namespace Names

variable {config : Config} {raw : Text} {names : Names}

/-- What is derived from an accepted name is name letters. -/
theorem Accepted.letters (accepted : names.Accepted config raw) {binding : Text × Text}
    (h : binding ∈ names.bindings) : ∀ c ∈ binding.2, isNameLetter c := by
  have worded := accepted.worded
  obtain ⟨name, module, dir, -, -, -, -, rfl⟩ := accepted
  simp only [bindings, List.mem_cons, List.not_mem_nil, or_false] at h
  rcases h with rfl | rfl | rfl | rfl | rfl
  · exact Casing.isNameLetter_apply _ module
  · exact worded.componentName.letters
  · exact worded.componentFile.letters
  · exact worded.containerName.letters
  · exact worded.containerFile.letters

theorem Accepted.quotable (accepted : names.Accepted config raw) : names.bindings.Quotable := by
  intro name value found
  have letters := accepted.letters (Template.mem_of_value? found)
  refine ⟨fun quote => ?_, fun feed => ?_⟩
  · exact absurd (letters _ quote) (by decide)
  · exact absurd (letters _ feed) (by decide)

end Names

namespace Template

theorem mem_builtins {kind : EntityKind} {flavor : TemplateFlavor} {text : Text}
    (h : builtin? kind flavor = some text) : text ∈ builtins := by
  unfold builtin? at h
  split at h <;> simp_all [builtins]

/-- The relative specifiers that a template has with these values. -/
def relatives (vars : Variables) (text : Text) : List Text :=
  ((quotationsFrom none (pieces text)).map (put vars)).filter isRelative

variable {config : Config} {raw : Text} {names : Names} {kind : EntityKind} {flavor : TemplateFlavor}
  {text : Text}

/-- Where no template is configured each file gets a text, with the specifiers of its template. -/
theorem fill_builtin (stock : config.templates = []) (accepted : names.Accepted config raw)
    (h : builtin? kind flavor = some text) : ∃ filled, fill config kind flavor names = .ok filled ∧
      Specifier.relatives filled = relatives names.bindings text := by
  have chosen : choose? config kind flavor = some text := by
    simp [choose?, Config.customTemplate?, stock, h]
  have rendered := render_of_known (known_builtins names text (mem_builtins h))
  have quoted : Specifier.relatives (put names.bindings (pieces text)) =
      relatives names.bindings text := by
    have read := quotationsFrom_value accepted.quotable none (pieces text)
    rw [Specifier.relatives, Specifier.quotations, relatives, ← read]
    rfl
  rw [fill, chosen]
  simp only [rendered]
  refine ⟨_, rfl, ?_⟩
  cases flavor.isTest with
  | true => exact quoted
  | false => exact (relatives_reindent config.tabSize _).trans quoted

end Template

/-- The relative specifiers in a file of an entity. -/
def Spot.specifiers (names : Names) : Spot → List Text
  | container => ["../components/".toList ++ names.componentFile]
  | componentTest | story => ["../".toList ++ names.componentFile]
  | containerTest => ["../".toList ++ names.containerFile]
  | component | index | stories => []

namespace Template

variable (names : Names)

theorem put_componentFile :
    put names.bindings [.placeholder " componentFileName ".toList] = names.componentFile :=
  List.append_nil _

theorem put_containerFile :
    put names.bindings [.placeholder " containerFileName ".toList] = names.containerFile :=
  List.append_nil _

theorem put_moduleVariable :
    put names.bindings [.placeholder " moduleName ".toList] = names.moduleVariable :=
  List.append_nil _

/-- What begins with name letters is not relative. -/
theorem not_isRelative_of_letters {word rest : Text} (letters : ∀ c ∈ word, isNameLetter c)
    (h : isRelative rest = false) : isRelative (word ++ rest) = false := by
  cases word with
  | nil => exact h
  | cons c word =>
    have dotless : ('.' == c) = false := by
      rw [beq_eq_false_iff_ne]
      rintro rfl
      exact absurd (letters '.' List.mem_cons_self) (by decide)
    have here : "./".toList = ['.', '/'] := rfl
    have above : "../".toList = ['.', '.', '/'] := rfl
    rw [isRelative, here, above]
    simp [List.isPrefixOf, dotless]

theorem relatives_component : relatives names.bindings component = [] := by
  rw [relatives, reads_component.2, List.map_singleton, put_literal]
  rfl

theorem relatives_componentClass : relatives names.bindings componentClass = [] := by
  rw [relatives, reads_componentClass.2, List.map_singleton, put_literal]
  rfl

theorem relatives_container : relatives names.bindings container =
    ["../components/".toList ++ names.componentFile] := by
  rw [relatives, reads_container.2]
  simp only [List.map_cons, List.map_nil, put_append, put_literal, put_componentFile]
  rfl

variable {names} {config : Config} {raw : Text}

theorem relatives_storybook (accepted : names.Accepted config raw) :
    relatives names.bindings storybook = ["../".toList ++ names.componentFile] := by
  have letters : ∀ c ∈ names.moduleVariable, isNameLetter c := accepted.letters List.mem_cons_self
  have module : isRelative (names.moduleVariable ++ []) = false :=
    not_isRelative_of_letters letters (by rfl)
  rw [List.append_nil] at module
  rw [relatives, reads_storybook.2]
  simp only [List.map_cons, List.map_nil, put_append, put_literal, put_componentFile,
    put_moduleVariable, List.filter_cons, module]
  rfl

/-- What a test says to describe begins with the module, so that it is not a specifier. -/
theorem relatives_of_test (accepted : names.Accepted config raw) {text body label file : Text}
    (value : put names.bindings [.placeholder body] = file)
    (labelled : isRelative (label ++ file) = false) (reads : Reads text (testQuotations body label)) :
    relatives names.bindings text = ["../".toList ++ file] := by
  have letters : ∀ c ∈ names.moduleVariable, isNameLetter c := accepted.letters List.mem_cons_self
  have described := not_isRelative_of_letters letters labelled
  rw [relatives, reads.2]
  simp only [testQuotations, List.map_cons, List.map_nil, put_append, put_literal, value,
    put_moduleVariable, List.filter_cons, described]
  rfl

theorem relatives_componentTest (accepted : names.Accepted config raw) :
    relatives names.bindings componentTest = ["../".toList ++ names.componentFile] :=
  relatives_of_test accepted (put_componentFile names) rfl reads_componentTest

theorem relatives_containerTest (accepted : names.Accepted config raw) :
    relatives names.bindings containerTest = ["../".toList ++ names.containerFile] :=
  relatives_of_test accepted (put_containerFile names) rfl reads_containerTest

end Template

/-- The file of every spot has a template, and the specifiers are those of the spot. -/
theorem Spot.exists_filled {config : Config} {raw : Text} {names : Names} {useClass : Bool}
    {spot : Spot} {kind : EntityKind} {flavor : TemplateFlavor} (stock : config.templates = [])
    (accepted : names.Accepted config raw) (h : spot.template? useClass = some (kind, flavor)) :
    ∃ text, Template.fill config kind flavor names = .ok text ∧
      relatives text = spot.specifiers names := by
  have filled : ∀ {kind flavor text}, Template.builtin? kind flavor = some text →
      Template.relatives names.bindings text = spot.specifiers names →
      ∃ text, Template.fill config kind flavor names = .ok text ∧
        relatives text = spot.specifiers names := by
    intro kind flavor text builtin same
    obtain ⟨text, fills, read⟩ := Template.fill_builtin stock accepted builtin
    exact ⟨text, fills, read.trans same⟩
  cases spot with
  | index => cases h
  | stories => cases h
  | component =>
    obtain ⟨rfl, rfl⟩ := Prod.mk.inj (Option.some.inj h)
    cases useClass with
    | true => exact filled rfl (Template.relatives_componentClass names)
    | false => exact filled rfl (Template.relatives_component names)
  | container =>
    obtain ⟨rfl, rfl⟩ := Prod.mk.inj (Option.some.inj h)
    exact filled rfl (Template.relatives_container names)
  | componentTest =>
    obtain ⟨rfl, rfl⟩ := Prod.mk.inj (Option.some.inj h)
    exact filled rfl (Template.relatives_componentTest accepted)
  | containerTest =>
    obtain ⟨rfl, rfl⟩ := Prod.mk.inj (Option.some.inj h)
    exact filled rfl (Template.relatives_containerTest accepted)
  | story =>
    obtain ⟨rfl, rfl⟩ := Prod.mk.inj (Option.some.inj h)
    exact filled rfl (Template.relatives_storybook accepted)

end ComponentForge
