import ComponentForge.Proofs.Yaml.Document

/-!
# Decoding the nodes of an outline

Each datum decodes to the value it was printed from, and none of them is taken for a null.
-/

namespace ComponentForge.Yaml

/-! ## Numbers -/

section Numbers

variable {n : Nat}

theorem hexValue?_digitChar : ∀ d : Fin 10, hexValue? (Nat.digitChar d) = some d.val := by
  decide +kernel

theorem digits?_toDigits (n : Nat) : digits? 10 (Nat.toDigits 10 n) = some n := by
  have read : ∀ n, (Nat.toDigits 10 n).foldlM (fun n c => do
      let d ← hexValue? c
      if d < 10 then some (n * 10 + d) else none) 0 = some n := by
    intro n
    induction n using Nat.strongRecOn with
    | ind n ih =>
      have last : ∀ d < 10, hexValue? (Nat.digitChar d) = some d :=
        fun d hd => hexValue?_digitChar ⟨d, hd⟩
      rw [Nat.toDigits_eq_if (by decide)]
      by_cases small : n < 10
      · simp [small, last]
      · have digit : n % 10 < 10 := Nat.mod_lt n (by decide)
        rw [if_neg small, List.foldlM_append, ih (n / 10) (by omega)]
        simp [last _ digit, digit]
        omega
  rw [digits?, if_neg (by simp)]
  exact read n

/-- The first digit of a number is zero only if the number is. -/
theorem head?_toDigits (pos : 0 < n) : (Nat.toDigits 10 n).head? ≠ some '0' := by
  induction n using Nat.strongRecOn with
  | ind n ih =>
    rw [Nat.toDigits_eq_if (by decide)]
    by_cases small : n < 10
    · have nonzero : ∀ d : Fin 10, d.val ≠ 0 → Nat.digitChar d ≠ '0' := by decide +kernel
      simpa [small] using nonzero ⟨n, small⟩ (Nat.pos_iff_ne_zero.1 pos)
    · rw [if_neg small, List.head?_append_of_ne_nil _ Nat.toDigits_ne_nil]
      exact ih (n / 10) (by omega) (by omega)

theorem unsigned?_toDigits (small : n ≤ maxUnsigned) : unsigned? (Nat.toDigits 10 n) = some n := by
  by_cases zero : n = 0
  · subst zero
    decide
  have digits := digits?_toDigits n
  have not_zero := head?_toDigits (Nat.pos_iff_ne_zero.2 zero)
  have is_digit : ∀ c ∈ Nat.toDigits 10 n, c.isDigit := fun c hc =>
    Nat.isDigit_of_mem_toDigits (by decide) (by decide) hc
  obtain ⟨x, more, shape⟩ := List.exists_cons_of_ne_nil (Nat.toDigits_ne_nil (n := n) (b := 10))
  rw [shape] at digits not_zero is_digit ⊢
  have not_zero : x ≠ '0' := by simpa using not_zero
  have not_plus : x ≠ '+' := by
    rintro rfl
    exact absurd (is_digit '+' List.mem_cons_self) (by decide)
  have no_sign : Text.after? (x :: more) ['+'] = none := by simp [Text.after?, not_plus]
  simp [unsigned?, no_sign, not_zero, digits, small]

end Numbers

/-! ## Null -/

/-- A datum is never taken for a null. -/
theorem Datum.not_null {datum : Datum} (plain : datum.style = .plain) :
    datum.text ≠ [] ∧ datum.text ∉ nullWords := by
  cases datum with
  | bool b => cases b <;> decide
  | number n =>
    have no_digit : ∀ word ∈ nullWords, word.all fun c => !c.isDigit := by decide +kernel
    have hne : Nat.toDigits 10 n ≠ [] := Nat.toDigits_ne_nil
    refine ⟨hne, fun null => ?_⟩
    obtain ⟨x, hx⟩ := List.exists_mem_of_ne_nil _ hne
    have digit : x.isDigit := Nat.isDigit_of_mem_toDigits (by decide) (by decide) hx
    have other := List.all_eq_true.1 (no_digit _ null) x hx
    simp [digit] at other
  | string text =>
    have reserved : ∀ word ∈ nullWords, isAmbiguous word := by decide +kernel
    have allows := allows_styleOf text
    rw [show styleOf text = .plain from plain] at allows
    obtain ⟨not_ambiguous, -⟩ := allows
    refine ⟨ne_nil_of_not_ambiguous not_ambiguous, fun null => ?_⟩
    rw [reserved text null] at not_ambiguous
    cases not_ambiguous

namespace Document

variable {d : Document} {datum : Datum}

theorem optional?_datum {α : Type} {decode : Node → Option α} {value : α}
    (h : decode datum.node = some value) : d.optional? decode datum.node = some (some value) := by
  have here : d.resolve? datum.node = some (.scalar none datum.style datum.text) := rfl
  rw [optional?, here]
  cases style : datum.style with
  | plain =>
    obtain ⟨hne, not_null⟩ := Datum.not_null style
    simp [hne, not_null, h]
  | singleQuoted => simp [h]
  | doubleQuoted => simp [h]
  | literal => simp [h]
  | folded => simp [h]

theorem optional?_field {α : Type} {decode : Node → Option α} {field : Field} {value : α}
    (h : decode field.node = some value) : d.optional? decode field.node = some (some value) := by
  cases field with
  | datum datum => exact optional?_datum h
  | records records =>
    have here : d.resolve? (Field.records records).node = some (.sequence (records.map recordNode)) := rfl
    rw [optional?, here]
    simp [h]

theorem nat?_number {n : Nat} (small : n ≤ maxUnsigned) : d.nat? (Datum.number n).node = some n :=
  unsigned?_toDigits small

theorem bool?_bool (b : Bool) : d.bool? (Datum.bool b).node = some b := by
  cases b <;> rfl

theorem string?_string (text : Text) : d.string? (Datum.string text).node = some text :=
  rfl

/-! ## Mappings -/

theorem mapM_map {α β γ : Type} {decode : β → Option γ} {encode : α → β} {value : α → γ} {items : List α}
    (h : ∀ a ∈ items, decode (encode a) = some (value a)) :
    (items.map encode).mapM decode = some (items.map value) := by
  induction items with
  | nil => rfl
  | cons a items ih =>
    rw [List.map_cons, List.mapM_cons, h a List.mem_cons_self,
      ih fun b hb => h b (List.mem_cons_of_mem a hb)]
    rfl

theorem fields?_record (record : Record) : d.fields? (recordNode record) =
    some (record.map fun field => (field.1, field.2.node)) := by
  show (record.map _).mapM _ = _
  exact mapM_map fun _ _ => rfl

theorem fields?_outline (outline : Outline) : d.fields? (outlineNode outline) =
    some (outline.map fun entry => (entry.1, entry.2.node)) := by
  show (outline.map _).mapM _ = _
  exact mapM_map fun _ _ => rfl

theorem items?_records (records : List Record) :
    d.items? (Field.records records).node = some (records.map recordNode) :=
  rfl

end Document

section Fields

variable {fields : List (Text × Node)} {name : Text} {key : String} {node : Node}

theorem filter_of_not_mem (h : name ∉ fields.map Prod.fst) : fields.filter (·.1 == name) = [] := by
  rw [List.filter_eq_nil_iff]
  rintro ⟨other, node⟩ hmem same
  exact h (List.mem_map.2 ⟨_, hmem, by simpa using same⟩)

theorem filter_of_mem (distinct : (fields.map Prod.fst).Nodup) (h : (name, node) ∈ fields) :
    fields.filter (·.1 == name) = [(name, node)] := by
  induction fields with
  | nil => cases h
  | cons field fields ih =>
    obtain ⟨first, others⟩ := List.nodup_cons.1 distinct
    rcases List.mem_cons.1 h with rfl | h
    · rw [List.filter_cons_of_pos (by simp), filter_of_not_mem first]
    · have differs : field.1 ≠ name := by
        rintro rfl
        exact first (List.mem_map.2 ⟨_, h, rfl⟩)
      rw [List.filter_cons_of_neg (by simpa using differs), ih others h]

theorem field?_of_not_mem (h : key.toList ∉ fields.map Prod.fst) : field? fields key = some none := by
  rw [field?, filter_of_not_mem h]

/-- Where no key occurs twice, the value of a key is found. -/
theorem field?_of_mem (distinct : (fields.map Prod.fst).Nodup) (h : (key.toList, node) ∈ fields) :
    field? fields key = some (some node) := by
  rw [field?, filter_of_mem distinct h]

variable {α : Type} {entries : List (Text × α)}

theorem field?_map_of_mem (toNode : α → Node) {a : α} (distinct : (entries.map Prod.fst).Nodup)
    (h : (key.toList, a) ∈ entries) :
    field? (entries.map fun entry => (entry.1, toNode entry.2)) key = some (some (toNode a)) := by
  refine field?_of_mem ?_ (List.mem_map.2 ⟨_, h, rfl⟩)
  rwa [List.map_map]

theorem field?_map_of_not_mem (toNode : α → Node) (h : key.toList ∉ entries.map Prod.fst) :
    field? (entries.map fun entry => (entry.1, toNode entry.2)) key = some none := by
  refine field?_of_not_mem ?_
  rwa [List.map_map]

end Fields

end ComponentForge.Yaml
