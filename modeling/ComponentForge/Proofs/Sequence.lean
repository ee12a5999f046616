/-!
# Steps in sequence

How the runs of a sequence follow from the runs of its steps, and what all of its runs keep, those
that fail included.
-/

namespace ComponentForge

variable {ε σ α β : Type}

section Sequence

variable {x : EStateM ε σ α} {f : α → EStateM ε σ β} {s u : σ}

theorem bind_of_ok {a : α} (h : x s = .ok a u) : (x >>= f) s = f a u := by
  show EStateM.bind x f s = f a u
  rw [EStateM.bind, h]

theorem bind_of_error {e : ε} (h : x s = .error e u) : (x >>= f) s = .error e u := by
  show EStateM.bind x f s = .error e u
  rw [EStateM.bind, h]

theorem bind_eq_ok_iff {b : β} {v : σ} :
    (x >>= f) s = .ok b v ↔ ∃ a u, x s = .ok a u ∧ f a u = .ok b v := by
  constructor
  · intro h
    cases hx : x s with
    | ok a u => exact ⟨a, u, rfl, (bind_of_ok hx).symm.trans h⟩
    | error e u => simp [bind_of_error hx] at h
  · rintro ⟨a, u, hx, hf⟩
    rw [bind_of_ok hx, hf]

theorem bind_eq_error_iff {e : ε} {v : σ} :
    (x >>= f) s = .error e v ↔ x s = .error e v ∨ ∃ a u, x s = .ok a u ∧ f a u = .error e v := by
  cases hx : x s with
  | ok a u =>
    rw [bind_of_ok hx]
    constructor
    · exact fun h => Or.inr ⟨a, u, rfl, h⟩
    · rintro (failed | ⟨a', u', same, h⟩)
      · cases failed
      · obtain ⟨rfl, rfl⟩ := EStateM.Result.ok.inj same
        exact h
  | error e' u => simp [bind_of_error hx]

theorem pure_run (a : α) (s : σ) : (pure a : EStateM ε σ α) s = .ok a s := rfl

theorem throw_run (e : ε) (s : σ) : (throw e : EStateM ε σ α) s = .error e s := rfl

theorem modify_run (g : σ → σ) (s : σ) : (modify g : EStateM ε σ PUnit) s = .ok ⟨⟩ (g s) := rfl

theorem get_bind_run (f : σ → EStateM ε σ β) (s : σ) : (get >>= f) s = f s s := rfl

theorem except_bind_eq_ok_iff {y : Except ε α} {g : α → Except ε β} {b : β} :
    (y >>= g) = .ok b ↔ ∃ a, y = .ok a ∧ g a = .ok b := by
  cases y with
  | error e => simp [bind, Except.bind]
  | ok a => simp [bind, Except.bind]

/-- The run ends without an error. -/
def succeeds (x : EStateM ε σ α) (s : σ) : Bool :=
  match x s with
  | .ok _ _ => true
  | .error _ _ => false

theorem exists_of_succeeds (h : succeeds x s) : ∃ a u, x s = .ok a u := by
  rw [succeeds] at h
  cases hx : x s with
  | ok a u => exact ⟨a, u, rfl⟩
  | error e u => simp [hx] at h

end Sequence

/-- From a state of the invariant every run ends in one, and its error is of the given kind. -/
def Keeps (I : σ → Prop) (E : ε → Prop) (x : EStateM ε σ α) : Prop :=
  ∀ s, I s → match x s with
    | .ok _ u => I u
    | .error e u => I u ∧ E e

namespace Keeps

variable {I : σ → Prop} {E : ε → Prop} {x : EStateM ε σ α} {f : α → EStateM ε σ β}

theorem pure (a : α) : Keeps I E (pure a : EStateM ε σ α) :=
  fun _ h => h

/-- What follows a step needs to keep the invariant for the results that the step can have. -/
theorem bind_of_results (hx : Keeps I E x) (hf : ∀ s a u, x s = .ok a u → Keeps I E (f a)) :
    Keeps I E (x >>= f) := by
  intro s hs
  have hstep := hx s hs
  cases h : x s with
  | ok a u =>
    rw [h] at hstep
    rw [bind_of_ok h]
    exact hf s a u h u hstep
  | error e u =>
    rw [h] at hstep
    rw [bind_of_error h]
    exact hstep

theorem bind (hx : Keeps I E x) (hf : ∀ a, Keeps I E (f a)) : Keeps I E (x >>= f) :=
  hx.bind_of_results fun _ a _ _ => hf a

theorem of_ok {s u : σ} {a : α} (hx : Keeps I E x) (hs : I s) (h : x s = .ok a u) : I u := by
  have hstep := hx s hs
  rwa [h] at hstep

theorem of_error {s u : σ} {e : ε} (hx : Keeps I E x) (hs : I s) (h : x s = .error e u) :
    I u ∧ E e := by
  have hstep := hx s hs
  rwa [h] at hstep

end Keeps

end ComponentForge
