import ComponentForge.Proofs.Generator.Plans
import ComponentForge.Proofs.Generator.Trace

/-!
# Steps of a trace

A job that succeeds brings one file of the entity into its next stage: a write makes the file, a
removal leaves it as it was at the start, and an edit of an index file applies a patch or takes it
back.
-/

namespace ComponentForge

open Access Index Layout ComponentForge.Tree

namespace Plot

variable {plot : Plot} {spot : Spot} {stage : Spot → Stage} {t u : Tree} {config : Config}
  {text content : Text} {patch : IndexPatch} {added : List Change}

namespace Trace

theorem write (trace : plot.Trace stage t) (sound : plot.Sound) (hspot : spot ∈ plot.covered)
    (h : Access.write (plot.root.join (plot.path spot)) text t = .ok () u) :
    plot.Trace (Function.update stage spot .made) u := by
  obtain ⟨filled, site, fits⟩ := trace.site.write_ok (sound.descends spot) h
  have nothing : plot.start.get? (plot.route spot) = none :=
    sound.site.free_of_missing (sound.descends spot) fits (sound.free spot hspot)
  exact trace.update (touches_of_filled filled) site ⟨hspot, fits, nothing, text, filled.holds⟩

theorem remove (trace : plot.Trace stage t) (sound : plot.Sound) (hspot : spot ∈ plot.covered)
    {removed : Bool} (h : Access.remove (plot.root.join (plot.path spot)) t = .ok removed u) :
    (stage spot = .made → removed = true) ∧ plot.Trace (Function.update stage spot .same) u := by
  have holds := trace.holds spot
  rcases trace.covered_cases hspot with same | made
  · have missing : Access.exists? t (plot.root.join (plot.path spot)) = false := by
      rw [← Bool.not_eq_true, trace.exists?_iff sound hspot, same]
      simp
    obtain ⟨-, rfl⟩ := remove_missing missing h
    exact ⟨by simp [same], trace.update_self same⟩
  · rw [made] at holds
    obtain ⟨-, fits, nothing, content, node⟩ := holds
    rw [trace.site.remove_file (sound.descends spot) fits node] at h
    obtain ⟨rfl, rfl⟩ := EStateM.Result.ok.inj h
    have others := trace.site.plain.get?_prune_file node
    have site : (t.prune (plot.route spot)).Site plot.root plot.base := by
      have plain := trace.site.plain.prune (plot.route_ne_nil spot)
      refine trace.site.mono plain fun s hs => ?_
      rw [others, if_neg, hs]
      rintro rfl
      simp [node] at hs
    refine ⟨fun _ => rfl, trace.update ?_ site ?_⟩
    · exact touches_of_eq fun s hs => by rw [others, if_neg hs]
    · show (t.prune (plot.route spot)).get? (plot.route spot) = _
      rw [others, if_pos rfl, nothing]

/-- The index file holds another text. -/
theorem setText (trace : plot.Trace stage t) (node : t.get? (plot.route spot) = some (.file (.text content)))
    {new : Stage} (h : plot.Holds spot new (some (.file (.text text)))) :
    plot.Trace (Function.update stage spot new) (t.set (plot.route spot) (.file (.text text))) := by
  have others := fun s => get?_set t (plot.route_ne_nil spot) (.file (.text text)) (s := s)
  have site : (t.set (plot.route spot) (.file (.text text))).Site plot.root plot.base := by
    refine trace.site.mono (trace.site.plain.refill node) fun s hs => ?_
    rw [others, if_neg, hs]
    rintro rfl
    simp [node] at hs
  refine trace.update (touches_of_eq fun s hs => by rw [others, if_neg hs]) site ?_
  rwa [others, if_pos rfl]

/-- The text of an index file in its stage. -/
theorem text_of_reads (trace : plot.Trace stage t) (sound : plot.Sound)
    (hpatch : patch ∈ plot.patches spot) {r : Route}
    (reads : ReadsAt t (plot.root.join (plot.path spot)) r content) :
    r = plot.route spot ∧ (plot.root.join (plot.path spot)).Fits ∧
      (stage spot = .same ∧ plot.Opens spot content ∨
        ∃ done, ∃ text : List IndexPatch → Text, stage spot = .edited done ∧ done.Nodup ∧
          done ⊆ plot.patches spot ∧ Reversible (plot.patches spot) text ∧
          plot.start.get? (plot.route spot) = some (.file (.text (text []))) ∧ content = text done) := by
  obtain ⟨-, -, fits⟩ := trace.site.of_read (sound.descends spot) reads.read
  obtain rfl := trace.site.readsAt_route (sound.descends spot) reads
  have holds := trace.holds spot
  have node : t.get? (plot.route spot) = some (.file (.text content)) := reads.holds
  refine ⟨rfl, fits, ?_⟩
  cases h : stage spot with
  | same =>
    rw [h] at holds
    refine Or.inl ⟨rfl, (sound.site.readsAt_iff (sound.descends spot) fits).2 ?_⟩
    exact holds.symm.trans node
  | made =>
    rw [h] at holds
    rw [patches_of_covered holds.1] at hpatch
    simp at hpatch
  | edited done =>
    rw [h] at holds
    obtain ⟨-, -, ⟨nodup, sub⟩, text, reversible, started, standing⟩ := holds
    refine Or.inr ⟨done, text, rfl, nodup, sub, reversible, started, ?_⟩
    simpa [node] using standing

/-- Some of the patches are applied after an edit that adds what the text lacks. -/
theorem extend (trace : plot.Trace stage t) (sound : plot.Sound)
    (used : plot.config.useIndexFile = true) (hpatch : patch ∈ plot.patches spot)
    (outcome : (Job.edit (plot.path spot) patch.extend?).Outcome ⟨plot.root, config⟩ t added none u) :
    ∃ new, plot.Trace (Function.update stage spot new) u := by
  cases outcome with
  | lacking _ => exact ⟨stage spot, trace.update_self rfl⟩
  | kept _ _ => exact ⟨stage spot, trace.update_self rfl⟩
  | @edited _ _ r content edited reads changed =>
    have applied := IndexPatch.apply_of_extend? changed
    obtain ⟨rfl, fits, before⟩ := trace.text_of_reads sound hpatch reads
    obtain ⟨done, text, nodup, sub, reversible, started, rfl⟩ : ∃ done,
        ∃ text : List IndexPatch → Text, done.Nodup ∧ done ⊆ plot.patches spot ∧
          Reversible (plot.patches spot) text ∧
          plot.start.get? (plot.route spot) = some (.file (.text (text []))) ∧ content = text done := by
      rcases before with ⟨-, opens⟩ | ⟨done, text, -, others⟩
      · obtain ⟨text, rfl, reversible⟩ := sound.reversible spot content opens patch hpatch edited applied
        exact ⟨[], text, List.nodup_nil, List.nil_subset _, reversible, opens.holds, rfl⟩
      · exact ⟨done, text, others⟩
    rw [reversible.apply done nodup sub patch hpatch] at applied
    obtain rfl := Except.ok.inj applied
    refine ⟨.edited (if patch ∈ done then done else done ++ [patch]), trace.setText reads.holds
      ⟨⟨used, List.ne_nil_of_mem hpatch⟩, fits, ?_, text, reversible, started, rfl⟩⟩
    split
    · exact ⟨nodup, sub⟩
    · rename_i hdone
      refine ⟨List.nodup_append.2 ⟨nodup, List.nodup_singleton patch, ?_⟩, ?_⟩
      · rintro other hother single hsingle rfl
        exact hdone (List.mem_singleton.1 hsingle ▸ hother)
      · exact List.append_subset.2 ⟨sub, List.cons_subset.2 ⟨hpatch, List.nil_subset _⟩⟩

/-- Nothing is taken back from an index file that does not exist. -/
theorem without_of_missing (trace : plot.Trace stage t) (sound : plot.Sound)
    (missing : Access.exists? t (plot.root.join (plot.path spot)) = false) :
    stage spot = (stage spot).without patch := by
  have holds := trace.holds spot
  cases hstage : stage spot with
  | same => rfl
  | made => rfl
  | edited done =>
    rw [hstage] at holds
    obtain ⟨-, fits, -, text, -, -, node⟩ := holds
    have free : t.get? (plot.route spot) = none :=
      trace.site.free_of_missing (sound.descends spot) fits missing
    rw [free] at node
    cases node

/-- A reversal that succeeds takes the patch back. -/
theorem withdraw (trace : plot.Trace stage t) (sound : plot.Sound)
    (hpatch : patch ∈ plot.patches spot)
    (outcome : (Job.edit (plot.path spot) patch.revert?).Outcome ⟨plot.root, config⟩ t added none u) :
    plot.Trace (Function.update stage spot ((stage spot).without patch)) u := by
  cases outcome with
  | lacking missing => exact trace.update_self (trace.without_of_missing sound missing)
  | @kept _ _ r content reads reverted =>
    refine trace.update_self ?_
    obtain ⟨rfl, fits, ⟨same, -⟩ | ⟨done, text, edited, nodup, sub, reversible, -, rfl⟩⟩ :=
      trace.text_of_reads sound hpatch reads
    · rw [same]
      rfl
    · rw [reversible.revert done nodup sub patch hpatch] at reverted
      have hdone : patch ∉ done := fun hdone => by simp [hdone] at reverted
      rw [edited, Stage.without, List.erase_of_not_mem hdone]
  | @edited _ _ r content new reads reverted =>
    obtain ⟨rfl, fits, ⟨-, opens⟩ | ⟨done, text, edited, nodup, sub, reversible, started, rfl⟩⟩ :=
      trace.text_of_reads sound hpatch reads
    · rw [sound.lacks spot content opens patch hpatch] at reverted
      cases reverted
    · rw [reversible.revert done nodup sub patch hpatch] at reverted
      have hdone : patch ∈ done := by_contra fun hdone => by simp [hdone] at reverted
      rw [if_pos hdone] at reverted
      obtain rfl := Option.some.inj (Except.ok.inj reverted)
      have holds := trace.holds spot
      rw [edited] at holds ⊢
      exact trace.setText reads.holds ⟨holds.1, fits,
        ⟨nodup.erase patch, List.Subset.trans List.erase_subset sub⟩, text, reversible, started, rfl⟩

end Trace

end Plot

end ComponentForge
