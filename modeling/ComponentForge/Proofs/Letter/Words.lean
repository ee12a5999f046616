import ComponentForge.Proofs.Letter.Casing

/-!
# What a casing leaves of a name

The words of a name hold its letters and digits, all of them and in their order. So a casing leaves
nothing of a name exactly where the name has neither a letter nor a digit.
-/

namespace ComponentForge

/-- The name has neither a letter nor a digit. -/
def Wordless (name : Text) : Prop :=
  ∀ c ∈ name, Letter.isAlphanumeric c = false

namespace Casing

theorem pieces_flatten (isBoundary : Char → Bool) (text : Text) :
    (text.pieces isBoundary).flatten = text.filter fun c => !isBoundary c := by
  induction text with
  | nil => rfl
  | cons c rest ih =>
    rw [Text.pieces]
    by_cases boundary : isBoundary c
    · simp [boundary, ih]
    · rw [if_neg boundary, List.filter_cons_of_pos (by simpa using boundary), ← ih]
      cases Text.pieces isBoundary rest with
      | nil => rfl
      | cons piece more => rfl

theorem wordsFrom_flatten (mode : Mode) (word run : Text) :
    (wordsFrom mode word run).flatten = word ++ run := by
  fun_induction wordsFrom mode word run with
  | case1 _ word empty => simpa [List.isEmpty_iff] using empty
  | case2 => simp
  | case3 => simp
  | case4 mode word c next rest _ ih => simp [ih]
  | case5 mode word c next rest _ _ ih => simp [ih]
  | case6 mode word c next rest _ _ ih => simpa using ih

/-- The words hold what is a letter or a digit, and nothing else. -/
theorem words_flatten (name : Text) : (words name).flatten = name.filter Letter.isAlphanumeric := by
  have runs : ∀ pieces : List Text, (pieces.flatMap (wordsFrom .start [])).flatten = pieces.flatten := by
    intro pieces
    induction pieces with
    | nil => rfl
    | cons piece more ih => simp [wordsFrom_flatten, ih]
  rw [words, runs, pieces_flatten]
  simp

theorem words_eq_nil_iff {name : Text} : words name = [] ↔ Wordless name := by
  constructor
  · intro none c hc
    have nothing_left : name.filter Letter.isAlphanumeric = [] := by rw [← words_flatten, none]; rfl
    simpa using List.filter_eq_nil_iff.1 nothing_left c hc
  · intro wordless
    have nothing_left : (name.pieces fun c => !Letter.isAlphanumeric c).flatten = [] := by
      rw [pieces_flatten, List.filter_eq_nil_iff]
      intro c hc
      simp [wordless c hc]
    refine List.flatMap_eq_nil_iff.2 fun piece hpiece => ?_
    rw [List.flatten_eq_nil_iff.1 nothing_left piece hpiece]
    rfl

theorem lowered_ne_nil {word : Text} (h : word ≠ []) : lowered word ≠ [] := by
  fun_cases lowered word with
  | case1 => exact absurd rfl h
  | case2 => simp
  | case3 c rest _ => simp [Letter.lower_ne_nil]

theorem capitalized_ne_nil {word : Text} (h : word ≠ []) : capitalized word ≠ [] := by
  cases word with
  | nil => exact absurd rfl h
  | cons c rest => simp [capitalized, Letter.upper_ne_nil]

theorem join_ne_nil {separator piece : Text} {pieces : List Text} (mem : piece ∈ pieces)
    (h : piece ≠ []) : Text.join separator pieces ≠ [] := by
  fun_induction Text.join separator pieces with
  | case1 => simp at mem
  | case2 only => rwa [← List.mem_singleton.1 mem]
  | case3 first more _ ih =>
    rcases List.mem_cons.1 mem with rfl | mem
    · simp [h]
    · simp [ih mem]

theorem write_ne_nil (casing : Casing) {ws : List Text} (h : ws.flatten ≠ []) :
    casing.write ws ≠ [] := by
  obtain ⟨word, mem, hne⟩ := List.flatten_ne_nil_iff.1 h
  have capitals : ∀ more : List Text, word ∈ more → more.flatMap capitalized ≠ [] :=
    fun more mem nil => capitalized_ne_nil hne (List.flatMap_eq_nil_iff.1 nil word mem)
  cases casing with
  | snake => exact join_ne_nil (List.mem_map_of_mem mem) (lowered_ne_nil hne)
  | upperCamel => exact capitals ws mem
  | camel =>
    cases ws with
    | nil => simp at mem
    | cons first more =>
      rcases List.mem_cons.1 mem with rfl | mem
      · simp [write, lowered_ne_nil hne]
      · exact List.append_ne_nil_of_right_ne_nil _ (capitals more mem)

/-- A casing leaves nothing exactly of a name without a letter or a digit. -/
theorem apply_eq_nil_iff {casing : Casing} {name : Text} : casing.apply name = [] ↔ Wordless name := by
  rw [apply, ← words_eq_nil_iff]
  constructor
  · intro nothing
    have no_letters : (words name).flatten = [] :=
      Decidable.byContradiction fun h => casing.write_ne_nil h nothing
    rw [words_flatten, List.filter_eq_nil_iff] at no_letters
    exact words_eq_nil_iff.2 fun c hc => by simpa using no_letters c hc
  · intro none
    rw [none]
    cases casing <;> rfl

end Casing

end ComponentForge
