import ComponentForge.Proofs.Generator.Resolve
import ComponentForge.Proofs.Generator.Reversal
import ComponentForge.Proofs.Generator.Spots

/-!
# What an entity leaves in a tree

While an entity is generated or destroyed, each of its files is as it was at the start, or was made, or
is an index file with some of the patches of the entity. Elsewhere there are only new directories.
-/

namespace ComponentForge

open Access Index Layout ComponentForge.Tree

/-- What became of a file. -/
inductive Stage where
  | same
  | made
  /-- These patches are applied to the index file. -/
  | edited (done : List IndexPatch)

/-- The stage after the patch was taken back. -/
def Stage.without (patch : IndexPatch) : Stage → Stage
  | .edited done => .edited (done.erase patch)
  | stage => stage

namespace Plot

/-- The files that the entity comes with. -/
def covered (plot : Plot) : List Spot :=
  match plot.kind with
  | .component => [.component, .componentTest, .story]
  | .container => [.container, .containerTest, .component, .componentTest, .story]
  | .storybook => [.story]
  | .module => []

/-- The patches of the entity for an index file. -/
def patches (plot : Plot) : Spot → List IndexPatch
  | .index => plot.names.modulePatches plot.kind
  | .stories => [plot.names.storyPatch]
  | _ => []

/-- The file can be read at the start. -/
def Opens (plot : Plot) (spot : Spot) (content : Text) : Prop :=
  ReadsAt plot.start (plot.root.join (plot.path spot)) (plot.route spot) content

/-- None of the files stands at the start, and the index files have nothing of the patches but can
take them. -/
structure Sound (plot : Plot) : Prop where
  site : plot.start.Site plot.root plot.base
  inside : Inside plot.config.modulesPath
  isName : IsName plot.names.moduleDir
  worded : plot.names.Worded
  free : ∀ spot ∈ plot.covered, Access.exists? plot.start (plot.root.join (plot.path spot)) = false
  lacks : ∀ spot content, plot.Opens spot content →
    ∀ patch ∈ plot.patches spot, patch.revert? content = .ok none
  reversible : ∀ spot content, plot.Opens spot content →
    ∀ patch ∈ plot.patches spot, ∀ edited, patch.apply content = .ok edited →
      ∃ text : List IndexPatch → Text, text [] = content ∧ Reversible (plot.patches spot) text

/-- What stands at the route of a file in its stage. -/
def Holds (plot : Plot) (spot : Spot) (stage : Stage) (node : Option Node) : Prop :=
  match stage with
  | .same => node = plot.start.get? (plot.route spot)
  | .made => spot ∈ plot.covered ∧ (plot.root.join (plot.path spot)).Fits ∧
      plot.start.get? (plot.route spot) = none ∧ ∃ text, node = some (.file (.text text))
  | .edited done => (plot.config.useIndexFile = true ∧ plot.patches spot ≠ []) ∧
      (plot.root.join (plot.path spot)).Fits ∧ (done.Nodup ∧ done ⊆ plot.patches spot) ∧
      ∃ text : List IndexPatch → Text, Reversible (plot.patches spot) text ∧
        plot.start.get? (plot.route spot) = some (.file (.text (text []))) ∧
        node = some (.file (.text (text done)))

/-- Every file is in its stage, and elsewhere there are only new directories. -/
structure Trace (plot : Plot) (stage : Spot → Stage) (t : Tree) : Prop where
  site : t.Site plot.root plot.base
  holds : ∀ spot, plot.Holds spot (stage spot) (t.get? (plot.route spot))
  rest : ∀ s, (∀ spot, s ≠ plot.route spot) →
    t.get? s = plot.start.get? s ∨ plot.start.get? s = none ∧ t.get? s = some .dir

variable {plot : Plot} {spot : Spot} {stage : Spot → Stage} {t u : Tree} {text content : Text}
  {patch : IndexPatch}

theorem index_notMem_covered : .index ∉ plot.covered := by
  rw [covered]
  cases plot.kind <;> decide

theorem stories_notMem_covered : .stories ∉ plot.covered := by
  rw [covered]
  cases plot.kind <;> decide

theorem patches_of_covered (h : spot ∈ plot.covered) : plot.patches spot = [] := by
  cases spot with
  | index => exact absurd h index_notMem_covered
  | stories => exact absurd h stories_notMem_covered
  | _ => rfl

/-- What a component comes with is part of a container, too. -/
theorem component_covered (h : plot.kind = .component ∨ plot.kind = .container) :
    (∀ spot ∈ [Spot.component, .componentTest, .story], spot ∈ plot.covered) ∧
      plot.names.componentPatch ∈ plot.patches .index := by
  rcases h with h | h <;> simp [covered, patches, h, Names.modulePatches]

theorem container_covered (h : plot.kind = .container) :
    (∀ spot ∈ [Spot.container, .containerTest], spot ∈ plot.covered) ∧
      plot.names.containerPatch ∈ plot.patches .index := by
  simp [covered, patches, h, Names.modulePatches]

theorem story_covered (h : plot.kind ≠ .module) : .story ∈ plot.covered := by
  rw [covered]
  cases kind : plot.kind with
  | module => exact absurd kind h
  | _ => decide

namespace Sound

theorem descends (sound : plot.Sound) (spot : Spot) : (plot.path spot).Descends (plot.down spot) :=
  spot.descends sound.inside sound.isName sound.worded

theorem trace (sound : plot.Sound) : plot.Trace (fun _ => .same) plot.start where
  site := sound.site
  holds _ := rfl
  rest _ _ := Or.inl rfl

end Sound

namespace Trace

/-- One file goes into another stage. -/
theorem update (trace : plot.Trace stage t) (touches : plot.Touches spot t u)
    (site : u.Site plot.root plot.base) {new : Stage}
    (h : plot.Holds spot new (u.get? (plot.route spot))) :
    plot.Trace (Function.update stage spot new) u where
  site := site
  holds other := by
    by_cases same : other = spot
    · subst same
      rwa [Function.update_self]
    · rw [Function.update_of_ne same, touches.same other same]
      exact trace.holds other
  rest s hs := by
    rcases touches.rest s hs with same | ⟨gone, dir⟩
    · rw [same]
      exact trace.rest s hs
    · rcases trace.rest s hs with first | ⟨-, first⟩
      · exact Or.inr ⟨first ▸ gone, dir⟩
      · simp [gone] at first

theorem update_self (trace : plot.Trace stage t) {new : Stage} (h : stage spot = new) :
    plot.Trace (Function.update stage spot new) t := by
  rwa [← h, Function.update_eq_self]

/-- A file of the entity is as it was or was made. -/
theorem covered_cases (trace : plot.Trace stage t) (hspot : spot ∈ plot.covered) :
    stage spot = .same ∨ stage spot = .made := by
  have holds := trace.holds spot
  cases h : stage spot with
  | same => exact Or.inl rfl
  | made => exact Or.inr rfl
  | edited done =>
    rw [h] at holds
    exact absurd (patches_of_covered hspot) holds.1.2

/-- A file of the entity exists if it was made. -/
theorem exists?_iff (trace : plot.Trace stage t) (sound : plot.Sound) (hspot : spot ∈ plot.covered) :
    Access.exists? t (plot.root.join (plot.path spot)) ↔ stage spot = .made := by
  have holds := trace.holds spot
  rcases trace.covered_cases hspot with h | h
  · rw [h] at holds
    have same := sound.site.exists?_congr trace.site (sound.descends spot)
      (congrArg Option.isSome holds)
    rw [same, sound.free spot hspot, h]
    simp
  · rw [h] at holds
    obtain ⟨-, fits, -, text, node⟩ := holds
    have isSome : (t.get? (plot.base ++ plot.down spot)).isSome := by
      rw [← route, node]
      rfl
    exact iff_of_true (trace.site.exists?_of_fits (sound.descends spot) fits isSome) h

end Trace

end Plot

end ComponentForge
