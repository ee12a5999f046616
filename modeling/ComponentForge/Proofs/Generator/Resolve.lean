import ComponentForge.Proofs.Generator.Names
import ComponentForge.Proofs.Layout
import ComponentForge.Proofs.Sequence

/-!
# Resolved names

A name is resolved before anything is done: the session stays as it is, the module is a name of a
directory entry, and the entity has passed every check.
-/

namespace ComponentForge

namespace EntityName

variable {part raw : Text} {name : EntityName}

theorem isName_of_checkPart (h : checkPart part = .ok ()) (hne : part ≠ []) : IsName part := by
  simp only [checkPart] at h
  split at h
  · simp at h
  · rename_i separators
    split at h
    · simp at h
    · split at h
      · simp at h
      · rename_i dots
        obtain ⟨c, rest, rfl⟩ := List.exists_cons_of_ne_nil hne
        refine isName_of_mem (c := c) ?_ List.mem_cons_self ?_
        · intro slash
          exact separators (List.any_eq_true.2 ⟨'/', slash, by decide⟩)
        · rintro rfl
          simp at dots

/-- Both parts of a parsed name are checked. -/
theorem isName_of_parse (h : parse raw = .ok name) :
    IsName name.entity ∧ ∀ module ∈ name.module, IsName module := by
  have last : ∀ (module : Option Text) (entity : Text),
      (if entity.isEmpty then .error .emptyEntity
        else checkPart entity >>= fun _ => .ok ⟨raw, module, entity⟩ : Except NameFault EntityName) =
        .ok name → IsName entity ∧ name = ⟨raw, module, entity⟩ := by
    intro module entity hlast
    split at hlast
    · simp at hlast
    · rename_i hne
      cases checked : checkPart entity with
      | error fault => simp [checked, bind, Except.bind] at hlast
      | ok _ =>
        rw [checked] at hlast
        exact ⟨isName_of_checkPart checked (by simpa using hne), (Except.ok.inj hlast).symm⟩
  simp only [parse, bind, Except.bind, throw, throwThe, MonadExceptOf.throw, pure, Except.pure] at h
  split at h
  · split at h
    · simp at h
    · split at h
      · simp at h
      · rename_i hne
        split at h
        · simp at h
        · rename_i checked
          obtain ⟨hentity, rfl⟩ := last _ _ h
          refine ⟨hentity, fun module hmodule => ?_⟩
          obtain rfl := Option.some.inj hmodule
          exact isName_of_checkPart checked (by simpa using hne)
  · obtain ⟨hentity, rfl⟩ := last _ _ h
    exact ⟨hentity, by simp⟩

end EntityName

theorem IsWord.isName {word : Text} (h : IsWord word) : IsName word := by
  have whole : IsName (word ++ []) := h.isName_append (by simp)
  simpa using whole

namespace NamingPolicy

variable {policy : NamingPolicy} {module dir : Text}

theorem isName_of_checkedModuleDir (hmodule : IsName module)
    (h : policy.checkedModuleDir module = .ok dir) : IsName dir ∧ dir = policy.moduleDir module := by
  simp only [checkedModuleDir] at h
  split at h
  · simp at h
  · rename_i hne
    obtain rfl := Except.ok.inj h
    refine ⟨?_, rfl⟩
    by_cases snake : policy.snakeCase
    · simp only [moduleDir, snake, if_true] at hne ⊢
      exact IsWord.isName ⟨by simpa using hne, Casing.isNameLetter_apply .snake module⟩
    · simpa [moduleDir, snake] using hmodule

end NamingPolicy

theorem Names.Accepted.isName_moduleDir {config : Config} {raw : Text} {names : Names}
    (h : names.Accepted config raw) : IsName names.moduleDir := by
  obtain ⟨name, module, dir, parsed, module_some, checked, -, rfl⟩ := h
  have hmodule := (EntityName.isName_of_parse parsed).2 module module_some
  obtain ⟨isName, rfl⟩ := NamingPolicy.isName_of_checkedModuleDir hmodule checked
  exact isName

namespace Run

variable {α ε : Type} {fail : ε → Failure} {x : Except ε α} {s u : Session} {a : α}

theorem ofExcept_eq_ok_iff : Run.ofExcept fail x s = .ok a u ↔ u = s ∧ x = .ok a := by
  cases x with
  | ok b =>
    rw [Run.ofExcept, pure_run]
    constructor
    · intro h
      obtain ⟨rfl, rfl⟩ := EStateM.Result.ok.inj h
      exact ⟨rfl, rfl⟩
    · rintro ⟨rfl, h⟩
      rw [Except.ok.inj h]
  | error e =>
    rw [Run.ofExcept, throw_run]
    simp

theorem ofExcept_bind_eq_ok_iff {β : Type} {f : α → Run β} {b : β} :
    (Run.ofExcept fail x >>= f) s = .ok b u ↔ ∃ a, x = .ok a ∧ f a s = .ok b u := by
  rw [bind_eq_ok_iff]
  constructor
  · rintro ⟨a, v, hx, hf⟩
    obtain ⟨rfl, value⟩ := ofExcept_eq_ok_iff.1 hx
    exact ⟨a, value, hf⟩
  · rintro ⟨a, hx, hf⟩
    exact ⟨a, s, ofExcept_eq_ok_iff.2 ⟨rfl, hx⟩, hf⟩

end Run

namespace Project

variable {project : Project} {raw : Text} {s u : Session}

theorem resolveEntity_ok {names : Names} (h : project.resolveEntity raw s = .ok names u) :
    u = s ∧ names.Accepted project.config raw ∧ IsName names.moduleDir ∧
      project.exists? s.tree (Layout.modulePath project.config names.moduleDir) := by
  rw [resolveEntity] at h
  obtain ⟨name, parsed, h⟩ := Run.ofExcept_bind_eq_ok_iff.1 h
  obtain ⟨module, provided, h⟩ := Run.ofExcept_bind_eq_ok_iff.1 h
  obtain ⟨dir, checked, h⟩ := Run.ofExcept_bind_eq_ok_iff.1 h
  obtain ⟨_, words, h⟩ := Run.ofExcept_bind_eq_ok_iff.1 h
  rw [get_bind_run] at h
  obtain ⟨path, found, h⟩ := Run.ofExcept_bind_eq_ok_iff.1 h
  rw [pure_run] at h
  obtain ⟨rfl, rfl⟩ := EStateM.Result.ok.inj h
  have module_some : name.module = some module := by
    simp only [EntityName.ensureModule] at provided
    split at provided
    · rename_i given
      rw [given, Except.ok.inj provided]
    · simp at provided
  obtain ⟨isName, rfl⟩ := NamingPolicy.isName_of_checkedModuleDir
    ((EntityName.isName_of_parse parsed).2 module module_some) checked
  refine ⟨rfl, ⟨name, module, _, parsed, module_some, checked, words, rfl⟩, isName, ?_⟩
  simp only [ensureModuleExists, checked] at found
  split at found
  · rename_i there
    exact there
  · simp at found

/-- What is done with the resolved names is done with the accepted ones. -/
theorem resolveEntity_bind_ok {α : Type} {f : Names → Run α} {a : α} {names : Names}
    (accepted : names.Accepted project.config raw)
    (h : (project.resolveEntity raw >>= f) s = .ok a u) :
    f names s = .ok a u ∧ IsName names.moduleDir ∧
      project.exists? s.tree (Layout.modulePath project.config names.moduleDir) := by
  obtain ⟨found, v, resolved, done⟩ := bind_eq_ok_iff.1 h
  obtain ⟨rfl, known, isName, there⟩ := resolveEntity_ok resolved
  obtain rfl := known.eq accepted
  exact ⟨done, isName, there⟩

end Project

end ComponentForge
