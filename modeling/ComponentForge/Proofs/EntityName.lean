import ComponentForge.EntityName
import ComponentForge.Proofs.Sequence
import ComponentForge.Proofs.Text.Split

/-!
# Names that parse

A name parses exactly if it is a part, or two parts with a colon between them. A part is neither
empty nor holds a colon, a path separator, white space or a dot.
-/

namespace ComponentForge

/-- The text can stand for a module or for an entity in a name. -/
structure IsPart (part : Text) : Prop where
  ne_nil : part ≠ []
  clear : ∀ c ∈ part, c ≠ ':' ∧ c ≠ '/' ∧ c ≠ '\\' ∧ c ≠ '.' ∧ isBlank c = false

/-- The name is that of an entity in a module, both of them parts. -/
structure Qualified (raw module entity : Text) : Prop where
  eq : raw = module ++ ':' :: entity
  module : IsPart module
  entity : IsPart entity

namespace EntityName

variable {part : Text}

theorem checkPart_eq_ok_iff : checkPart part = .ok () ↔
    ∀ c ∈ part, c ≠ '/' ∧ c ≠ '\\' ∧ c ≠ '.' ∧ isBlank c = false := by
  rw [checkPart]
  by_cases separators : part.any fun c => c == '/' || c == '\\'
  · obtain ⟨c, hc, separator⟩ := List.any_eq_true.1 separators
    simp only [separators, if_true, reduceCtorEq, false_iff]
    intro clear
    simp [(clear c hc).1, (clear c hc).2.1] at separator
  · rw [if_neg separators]
    by_cases blanks : part.any isBlank
    · obtain ⟨c, hc, blank⟩ := List.any_eq_true.1 blanks
      simp only [blanks, if_true, reduceCtorEq, false_iff]
      intro clear
      simp [(clear c hc).2.2.2] at blank
    · rw [if_neg blanks]
      by_cases dots : part.contains '.'
      · simp only [dots, if_true, reduceCtorEq, false_iff]
        intro clear
        exact (clear '.' (by simpa using dots)).2.2.1 rfl
      · simp only [dots, Bool.false_eq_true, if_false, true_iff]
        intro c hc
        simp only [List.any_eq_true, Bool.or_eq_true, beq_iff_eq, not_exists, not_and, not_or]
          at separators blanks
        refine ⟨(separators c hc).1, (separators c hc).2, ?_, by simpa using blanks c hc⟩
        rintro rfl
        exact dots (by simpa using hc)

theorem isPart_iff : IsPart part ↔ ':' ∉ part ∧ part ≠ [] ∧ checkPart part = .ok () := by
  rw [checkPart_eq_ok_iff]
  constructor
  · intro h
    exact ⟨fun mem => (h.clear ':' mem).1 rfl, h.ne_nil, fun c hc => (h.clear c hc).2⟩
  · rintro ⟨colon, hne, clear⟩
    refine ⟨hne, fun c hc => ⟨?_, clear c hc⟩⟩
    rintro rfl
    exact colon hc

end EntityName

namespace Qualified

variable {raw module entity : Text}

theorem cut (h : Qualified raw module entity) : raw.cut? [':'] = some (module, entity) := by
  rw [h.eq]
  exact Text.cut?_char (EntityName.isPart_iff.1 h.module).1 entity

theorem unique {module' entity' : Text} (h : Qualified raw module entity)
    (h' : Qualified raw module' entity') : module = module' ∧ entity = entity' :=
  Prod.mk.inj (Option.some.inj (h.cut.symm.trans h'.cut))

theorem not_isPart (h : Qualified raw module entity) : ¬ IsPart raw := by
  intro part
  exact (part.clear ':' (by simp [h.eq])).1 rfl

end Qualified

namespace EntityName

variable {raw module entity : Text} {name : EntityName}

/-- What is checked of the entity, after its module. -/
theorem entity_checked_iff {raw entity : Text} {module : Option Text} : (do
      if entity.isEmpty then throw .emptyEntity
      checkPart entity
      return ⟨raw, module, entity⟩ : Except NameFault EntityName) = .ok name ↔
    entity ≠ [] ∧ checkPart entity = .ok () ∧ name = ⟨raw, module, entity⟩ := by
  cases entity with
  | nil => simp [throw, throwThe, MonadExceptOf.throw, bind, Except.bind]
  | cons c rest =>
    simp only [List.isEmpty_cons, Bool.false_eq_true, if_false]
    rw [except_bind_eq_ok_iff]
    constructor
    · rintro ⟨⟨⟩, checked, done⟩
      exact ⟨List.cons_ne_nil c rest, checked, (Except.ok.inj done).symm⟩
    · rintro ⟨-, checked, rfl⟩
      exact ⟨(), checked, rfl⟩

/-- A name without a colon is an entity's. -/
theorem parse_plain_iff (colon : ':' ∉ raw) :
    parse raw = .ok name ↔ IsPart raw ∧ name = ⟨raw, none, raw⟩ := by
  have whole : raw.cut? [':'] = none := by
    have absent : ¬ [':'] <:+: raw := fun inside => colon (inside.subset List.mem_cons_self)
    rw [Text.cut?, Text.splitBefore?_eq_none_iff.2 absent]
    rfl
  rw [parse, whole, isPart_iff]
  simp only [pure_bind]
  rw [entity_checked_iff]
  simp [colon, and_assoc]

/-- A name with a colon is that of an entity in the module before its first colon. -/
theorem parse_colon_iff (colon : ':' ∉ module) :
    parse (module ++ ':' :: entity) = .ok name ↔
      IsPart module ∧ IsPart entity ∧ name = ⟨module ++ ':' :: entity, some module, entity⟩ := by
  rw [parse, Text.cut?_char colon, isPart_iff, isPart_iff]
  dsimp only
  by_cases again : ':' ∈ entity
  · simp [again, throw, throwThe, MonadExceptOf.throw, bind, Except.bind]
  by_cases hne : module = []
  · simp [again, hne, throw, throwThe, MonadExceptOf.throw, bind, Except.bind]
  rw [if_neg (by simpa using again), if_neg (by simpa using hne), except_bind_eq_ok_iff]
  constructor
  · rintro ⟨⟨⟩, checked, rest⟩
    rw [pure_bind] at rest
    obtain ⟨ne_nil, entity_checked, rfl⟩ := entity_checked_iff.1 rest
    exact ⟨⟨colon, hne, checked⟩, ⟨again, ne_nil, entity_checked⟩, rfl⟩
  · rintro ⟨⟨-, -, checked⟩, ⟨-, ne_nil, entity_checked⟩, rfl⟩
    exact ⟨(), checked, entity_checked_iff.2 ⟨ne_nil, entity_checked, rfl⟩⟩

/-- A name parses exactly if it is a part, or two parts with a colon between them. -/
theorem parse_eq_ok_iff : parse raw = .ok name ↔ (IsPart raw ∧ name = ⟨raw, none, raw⟩) ∨
    ∃ module entity, Qualified raw module entity ∧ name = ⟨raw, some module, entity⟩ := by
  by_cases colon : ':' ∈ raw
  · obtain ⟨module, entity, rfl, first⟩ := List.eq_append_cons_of_mem colon
    rw [parse_colon_iff first]
    constructor
    · rintro ⟨module_part, entity_part, rfl⟩
      exact Or.inr ⟨module, entity, ⟨rfl, module_part, entity_part⟩, rfl⟩
    · rintro (⟨part, -⟩ | ⟨other, last, qualified, rfl⟩)
      · exact absurd rfl (part.clear ':' colon).1
      · obtain ⟨rfl, rfl⟩ := Prod.mk.inj (Option.some.inj ((Text.cut?_char first _).symm.trans qualified.cut))
        exact ⟨qualified.module, qualified.entity, rfl⟩
  · rw [parse_plain_iff colon]
    refine ⟨Or.inl, ?_⟩
    rintro (plain | ⟨module, entity, qualified, -⟩)
    · exact plain
    · rw [qualified.eq] at colon
      simp at colon

end EntityName

end ComponentForge
