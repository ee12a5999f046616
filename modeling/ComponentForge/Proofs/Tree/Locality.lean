import ComponentForge.Proofs.Tree.Grounded
import ComponentForge.Proofs.Tree.Making

/-!
# Locality of accesses

What an access finds and makes depends on the routes on the way down its path and below its end, and on
no others. In two trees that are alike there it ends alike: with one value or for one cause, and in
trees that are alike again.
-/

namespace ComponentForge

section Relations

variable {ε σ α β : Type}

/-- Both runs end with one value, or both with one error, and in states that are related. -/
def EndAlike (I : σ → σ → Prop) : EStateM.Result ε σ α → EStateM.Result ε σ α → Prop
  | .ok a s, .ok b u => a = b ∧ I s u
  | .error e s, .error f u => e = f ∧ I s u
  | _, _ => False

/-- From related states the runs end alike. -/
def Respects (I : σ → σ → Prop) (x : EStateM ε σ α) : Prop :=
  ∀ s u, I s u → EndAlike I (x s) (x u)

namespace EndAlike

variable {I : σ → σ → Prop} {x y : EStateM.Result ε σ α}

theorem of_ok {a : α} {s : σ} (h : EndAlike I x y) (hx : x = .ok a s) :
    ∃ u, y = .ok a u ∧ I s u := by
  subst hx
  cases y with
  | ok b u =>
    obtain ⟨rfl, related⟩ := h
    exact ⟨u, rfl, related⟩
  | error e u => exact h.elim

theorem of_error {e : ε} {s : σ} (h : EndAlike I x y) (hx : x = .error e s) :
    ∃ u, y = .error e u ∧ I s u := by
  subst hx
  cases y with
  | ok b u => exact h.elim
  | error f u =>
    obtain ⟨rfl, related⟩ := h
    exact ⟨u, rfl, related⟩

end EndAlike

namespace Respects

variable {I : σ → σ → Prop} {x : EStateM ε σ α} {f : α → EStateM ε σ β}

theorem bind (hx : Respects I x) (hf : ∀ a, Respects I (f a)) : Respects I (x >>= f) := by
  intro s u related
  have ends := hx s u related
  cases hs : x s with
  | ok a s' =>
    obtain ⟨u', hu, related⟩ := ends.of_ok hs
    rw [bind_of_ok hs, bind_of_ok hu]
    exact hf a s' u' related
  | error e s' =>
    obtain ⟨u', hu, related⟩ := ends.of_error hs
    rw [bind_of_error hs, bind_of_error hu]
    exact ⟨rfl, related⟩

end Respects

end Relations

namespace Tree

open Access

/-- The route lies on the way to the route `D`, or it lies there or below. -/
def Near (D s : Route) : Prop :=
  s <+: D ∨ D <+: s

/-- The root path leads to `R` in both trees, and on the way to `D` and below they are the same. -/
structure Alike (root : Path) (R D : Route) (t u : Tree) : Prop where
  left : t.Site root R
  right : u.Site root R
  same : ∀ s, Near D s → t.get? s = u.get? s

section Walks

variable {t u : Tree} {here r : Route} {steps : List Step} {mayCreate : Bool}
  {follow other : Route → Text → List Step → Except Cause Route}

/-- A walk down depends on what stands on its way. -/
theorem walkFrom_congr (plain : t.Plain) (hup : .up ∉ steps)
    (same : ∀ p, p <+: steps.filterMap Step.name? → t.get? (here ++ p) = u.get? (here ++ p)) :
    t.walkFrom mayCreate follow here steps = u.walkFrom mayCreate other here steps := by
  induction steps generalizing here with
  | nil => rfl
  | cons step rest ih =>
    rw [List.mem_cons, not_or] at hup
    cases step with
    | stay => exact ih hup.2 same
    | up => exact absurd rfl hup.1
    | name n =>
      have first := same [n] (by simp [Step.name?])
      have further := @ih (here ++ [n]) hup.2 fun p hp => by
        have below : n :: p <+: (Step.name n :: rest).filterMap Step.name? := by
          simpa [Step.name?, List.cons_prefix_cons] using hp
        simpa using same (n :: p) below
      simp only [walkFrom, ← first]
      cases hn : t.get? (here ++ [n]) with
      | none => rfl
      | some node =>
        cases node with
        | dir => simp only [further]
        | file content => rfl
        | link target => exact absurd hn (plain.no_link _ target)

/-- A walk down ends at the names of its steps. -/
theorem eq_of_walkFrom (plain : t.Plain) (hup : .up ∉ steps)
    (h : t.walkFrom mayCreate follow here steps = .ok r) :
    r = here ++ steps.filterMap Step.name? := by
  induction steps generalizing here with
  | nil =>
    obtain rfl := Except.ok.inj h
    simp
  | cons step rest ih =>
    rw [List.mem_cons, not_or] at hup
    cases step with
    | stay => exact ih hup.2 h
    | up => exact absurd rfl hup.1
    | name n =>
      have last : rest = [] → here ++ [n] = here ++ (Step.name n :: rest).filterMap Step.name? := by
        rintro rfl
        rfl
      obtain ⟨-, enters⟩ := walkFrom_name_eq_ok_iff.1 h
      cases enters with
      | dir _ goes => simpa [Step.name?] using ih hup.2 goes
      | file _ done ends => exact ends.symm.trans (last done)
      | free _ _ done ends => exact ends.symm.trans (last done)
      | link isLink _ => exact absurd isLink (plain.no_link _ _)

end Walks

/-- A look that depends on the related trees alike. -/
theorem respects_ofExcept {α : Type} {I : Tree → Tree → Prop} {look : Tree → Except Cause α}
    (h : ∀ t u, I t u → look t = look u) : Respects I (Access.ofExcept look) := by
  intro t u related
  rw [Access.ofExcept, Access.ofExcept, h t u related]
  cases look u <;> exact ⟨rfl, related⟩

theorem respects_check {I : Tree → Tree → Prop} (path : Path) : Respects I (check path) :=
  respects_ofExcept fun _ _ _ => rfl

namespace Alike

variable {root path : Path} {R D q : Route} {t u : Tree} {base above way : List Step} {n : Text}
  {text : Text}

theorem same_along (alike : Alike root R D t u) (hD : D <+: R ++ q) {p : Route} (hp : p <+: q) :
    t.get? (R ++ p) = u.get? (R ++ p) :=
  alike.same _ ((List.prefix_or_prefix_of_prefix ((List.prefix_append_right_inj R).2 hp) hD))

theorem set {r : Route} (alike : Alike root R D t u) (hr : r ≠ []) (node : Node)
    (left : (t.set r node).Site root R) (right : (u.set r node).Site root R) :
    Alike root R D (t.set r node) (u.set r node) where
  left := left
  right := right
  same s near := by rw [get?_set t hr, get?_set u hr, alike.same s near]

section Below

variable (hbase : ∀ t : Tree, t.Site root R → t.Passes [] base R) (hup : .up ∉ way)
  (hq : way.filterMap Step.name? <+: q) (hD : D <+: R ++ q)

include hbase hup hq hD

theorem walkWithin_eq (alike : Alike root R D t u) (mayCreate : Bool) :
    t.walkWithin mayCreate maxLinks [] (base ++ way) =
      u.walkWithin mayCreate maxLinks [] (base ++ way) := by
  obtain ⟨follow, walked⟩ := walkWithin_eq_walkFrom t mayCreate maxLinks
  obtain ⟨other, walked'⟩ := walkWithin_eq_walkFrom u mayCreate maxLinks
  rw [(hbase t alike.left).walkWithin, (hbase u alike.right).walkWithin, walked, walked']
  exact walkFrom_congr alike.left.plain hup fun p hp => alike.same_along hD (hp.trans hq)

/-- Where the walk ends the trees are the same. -/
theorem get?_of_walkWithin (alike : Alike root R D t u) {mayCreate : Bool} {r : Route}
    (h : t.walkWithin mayCreate maxLinks [] (base ++ way) = .ok r) :
    r = R ++ way.filterMap Step.name? ∧ t.get? r = u.get? r := by
  obtain ⟨follow, walked⟩ := walkWithin_eq_walkFrom t mayCreate maxLinks
  rw [(hbase t alike.left).walkWithin, walked] at h
  obtain rfl := eq_of_walkFrom alike.left.plain hup h
  exact ⟨rfl, alike.same_along hD hq⟩

theorem isDir_eq (alike : Alike root R D t u) : t.isDir (base ++ way) = u.isDir (base ++ way) := by
  have walks := alike.walkWithin_eq hbase hup hq hD false
  rw [isDir, isDir, walk, walk, ← walks]
  cases h : t.walkWithin false maxLinks [] (base ++ way) with
  | error c => rfl
  | ok r => simp [(alike.get?_of_walkWithin hbase hup hq hD h).2]

end Below

section Last

variable (hbase : ∀ t : Tree, t.Site root R → t.Passes [] base R) (hup : .up ∉ above)
  (hq : above.filterMap Step.name? ++ [n] <+: q) (hD : D <+: R ++ q)

include hbase hup hq hD

theorem place_eq (alike : Alike root R D t u) :
    t.place (base ++ above ++ [.name n]) = u.place (base ++ above ++ [.name n]) := by
  have shorter := (List.prefix_append _ [n]).trans hq
  have walks := alike.walkWithin_eq hbase hup shorter hD false
  simp only [place, walk, List.getLast?_concat, List.dropLast_concat, ← walks]
  cases h : t.walkWithin false maxLinks [] (base ++ above) with
  | error c => rfl
  | ok d =>
    have here := (alike.get?_of_walkWithin hbase hup shorter hD h).2
    simp [bind, Except.bind, here]

theorem respects_makeLast : Respects (Alike root R D) (makeLast (base ++ above ++ [.name n])) := by
  intro t u alike
  have placed := alike.place_eq hbase hup hq hD
  rw [makeLast, makeLast, ← placed]
  cases h : t.place (base ++ above ++ [.name n]) with
  | error c => exact ⟨rfl, alike⟩
  | ok r =>
    obtain ⟨d, walked, hd, -, rfl⟩ := place_concat.1 h
    have shorter := (List.prefix_append _ [n]).trans hq
    obtain ⟨rfl, same_dir⟩ := alike.get?_of_walkWithin hbase hup shorter hD walked
    have same : t.get? (R ++ above.filterMap Step.name? ++ [n]) =
        u.get? (R ++ above.filterMap Step.name? ++ [n]) := by
      simpa using alike.same_along hD hq
    dsimp only
    rw [← same]
    cases hn : t.get? (R ++ above.filterMap Step.name? ++ [n]) with
    | some node => exact ⟨rfl, alike⟩
    | none =>
      refine ⟨rfl, alike.set (by simp) .dir ?_ ?_⟩
      · exact alike.left.of_grown (alike.left.plain.set_dir hd) (grown_set_dir hq hn)
      · exact alike.right.of_grown (alike.right.plain.set_dir (same_dir ▸ hd))
          (grown_set_dir hq (same ▸ hn))

end Last

section Make

variable {make : Access Unit} {steps : List Step} {I : Tree → Tree → Prop}
  (hdir : ∀ t u, I t u → t.isDir steps = u.isDir steps)

include hdir

theorem respects_orDir (c : Cause) : Respects I
    (fun t => if t.isDir steps then .ok () t else .error c t : Access Unit) := by
  intro t u related
  dsimp only
  rw [← hdir t u related]
  cases t.isDir steps <;> exact ⟨rfl, related⟩

theorem respects_unlessDir (hmake : Respects I make) : Respects I (unlessDir steps make) := by
  intro t u related
  have ends := hmake t u related
  rw [unlessDir, unlessDir]
  cases h : make t with
  | ok a v =>
    obtain ⟨w, hw, related⟩ := ends.of_ok h
    rw [hw]
    exact ⟨rfl, related⟩
  | error c v =>
    obtain ⟨w, hw, related⟩ := ends.of_error h
    rw [hw]
    exact respects_orDir hdir c v w related

theorem respects_makeAfter (hparent : Respects I make) (hlast : Respects I (makeLast steps)) :
    Respects I (makeAfter make steps) := by
  intro t u related
  have ends := hlast t u related
  rw [makeAfter, makeAfter]
  cases h : makeLast steps t with
  | ok a v =>
    obtain ⟨w, hw, related⟩ := ends.of_ok h
    rw [hw]
    exact ⟨rfl, related⟩
  | error c v =>
    obtain ⟨w, hw, related⟩ := ends.of_error h
    rw [hw]
    cases c with
    | notFound => exact (hparent.bind fun _ => respects_unlessDir hdir hlast) v w related
    | _ => exact respects_orDir hdir _ v w related

end Make

theorem respects_makeMoves (names : List Text) (hq : names.reverse <+: q) (hD : D <+: R ++ q) :
    Respects (Alike root R D) (makeMoves (names.map Step.name ++ root.moves.reverse)) := by
  have moves : ∀ t : Tree, t.Site root R → t.Passes [] root.moves R := fun _ site => site.passes.moves
  induction names with
  | nil =>
    intro t u alike
    rw [List.map_nil, List.nil_append, alike.left.makeMoves_root, alike.right.makeMoves_root]
    exact ⟨rfl, alike⟩
  | cons n above ih =>
    rw [List.reverse_cons] at hq
    have names_above : (above.reverse.map Step.name).filterMap Step.name? = above.reverse := by
      rw [List.filterMap_map]
      exact List.filterMap_some
    have whole : (above.reverse.map Step.name ++ [Step.name n]).filterMap Step.name? =
        above.reverse ++ [n] := by rw [List.filterMap_append, names_above]; rfl
    rw [Site.makeMoves_cons]
    refine respects_makeAfter (fun t u alike => ?_) (ih ((List.prefix_append _ _).trans hq)) ?_
    · rw [List.append_assoc]
      exact alike.isDir_eq moves (by simp) (whole ▸ hq) hD
    · exact respects_makeLast moves (by simp) (names_above.symm ▸ hq) hD

section Accesses

variable (descends : path.Descends q) (hD : D <+: R ++ q)

include descends hD

/-- The directories that a write makes first. -/
theorem respects_makeParents : Respects (Alike root R D) (makeParents (root.join path)) := by
  obtain ⟨above, n, -, -, hq⟩ := descends.steps
  rw [Site.makeParents_eq root descends hq]
  refine (respects_check _).bind fun _ => respects_makeMoves _ ?_ hD
  rw [List.reverse_reverse, ← hq]
  exact List.prefix_append _ _

theorem respects_makeDirs : Respects (Alike root R D) (makeDirs (root.join path)) := by
  obtain ⟨above, n, hsteps, hup, hq⟩ := descends.steps
  have passes : ∀ t : Tree, t.Site root R → t.Passes [] root.steps R := fun _ site => site.passes
  have last : above.filterMap Step.name? ++ [n] <+: q := hq ▸ List.prefix_refl _
  have whole : (above ++ [Step.name n]).filterMap Step.name? = above.filterMap Step.name? ++ [n] :=
    List.filterMap_append
  rw [Site.makeDirs_eq root hsteps descends hq]
  refine (respects_check _).bind fun _ =>
    respects_makeAfter (fun t u alike => ?_) (respects_makeMoves _ ?_ hD) ?_
  · rw [List.append_assoc]
    exact alike.isDir_eq passes (by simp [hup]) (whole ▸ last) hD
  · rw [List.reverse_reverse]
    exact (List.prefix_append _ _).trans last
  · exact respects_makeLast passes hup last hD

theorem walkWithin_join (alike : Alike root R D t u) (mayCreate : Bool) :
    t.walkWithin mayCreate maxLinks [] (root.join path).steps =
      u.walkWithin mayCreate maxLinks [] (root.join path).steps := by
  have names : path.steps.filterMap Step.name? <+: q := descends.names ▸ List.prefix_refl _
  rw [Path.steps_join root descends.relative]
  exact alike.walkWithin_eq (fun _ site => site.passes) descends.no_up names hD mayCreate

theorem get?_of_walkWithin_join (alike : Alike root R D t u) {mayCreate : Bool} {r : Route}
    (h : t.walkWithin mayCreate maxLinks [] (root.join path).steps = .ok r) :
    r = R ++ q ∧ t.get? r = u.get? r := by
  obtain ⟨rfl, -, -⟩ := alike.left.of_walkWithin descends h
  exact ⟨rfl, alike.same_along hD (List.prefix_refl q)⟩

theorem respects_fileToWrite : Respects (Alike root R D) (fileToWrite (root.join path)) := by
  refine respects_ofExcept fun t u alike => ?_
  rw [walkToCreate, walkToCreate, ← alike.walkWithin_join descends hD true]
  cases h : t.walkWithin true maxLinks [] (root.join path).steps with
  | error c => rfl
  | ok r => simp [(alike.get?_of_walkWithin_join descends hD h).2, bind, Except.bind]

theorem respects_fill (text : Text) : Respects (Alike root R D)
    (do let r ← fileToWrite (root.join path); modify (·.set r (.file (.text text)))) := by
  intro t u alike
  have ends := respects_fileToWrite descends hD t u alike
  have filled : ∀ {v : Tree}, v.Site root R → v.get? (R ++ q.dropLast) = some .dir →
      v.get? (R ++ q) ≠ some .dir → (v.set (R ++ q) (.file (.text text))).Site root R := by
    intro v site hd free
    obtain ⟨above, n, -, -, rfl⟩ := descends.steps
    rw [List.dropLast_concat] at hd
    exact (site.set_file text (.refl _ _ v) hd free).2
  cases h : fileToWrite (root.join path) t with
  | error c v =>
    obtain ⟨w, hw, related⟩ := ends.of_error h
    rw [bind_of_error h, bind_of_error hw]
    exact ⟨rfl, related⟩
  | ok r v =>
    obtain ⟨w, hw, -⟩ := ends.of_ok h
    obtain ⟨rfl, rfl, hd, free, -⟩ := alike.left.of_fileToWrite descends h
    obtain ⟨rfl, -, hd', free', -⟩ := alike.right.of_fileToWrite descends hw
    rw [bind_of_ok h, bind_of_ok hw, modify_run, modify_run]
    exact ⟨rfl, alike.set (by simp [descends.ne_nil]) _ (filled alike.left hd free)
      (filled alike.right hd' free')⟩

theorem respects_write (text : Text) : Respects (Alike root R D) (write (root.join path) text) :=
  (respects_makeParents descends hD).bind fun _ => respects_fill descends hD text

theorem respects_read : Respects (Alike root R D) (read (root.join path)) := by
  refine respects_ofExcept fun t u alike => ?_
  have walks := alike.walkWithin_join descends hD false
  rw [resolve, resolve, Site.lookupSteps_join descends, walk, walk, ← walks]
  cases checkPath (root.join path) with
  | error c => rfl
  | ok _ =>
    cases h : t.walkWithin false maxLinks [] (root.join path).steps with
    | error c => rfl
    | ok r => simp [bind, Except.bind, (alike.get?_of_walkWithin_join descends hD h).2]

theorem respects_find : Respects (Alike root R D) (find (root.join path)) := by
  obtain ⟨above, n, hsteps, hup, hq⟩ := descends.steps
  have steps : (root.join path).lookupSteps = root.steps ++ above ++ [.name n] := by
    rw [Site.lookupSteps_join descends, Path.steps_join root descends.relative, hsteps,
      List.append_assoc]
  have last : above.filterMap Step.name? ++ [n] <+: q := hq ▸ List.prefix_refl _
  refine respects_ofExcept fun t u alike => ?_
  have placed := alike.place_eq (fun _ site => site.passes) hup last hD
  rw [steps, ← placed]
  cases h : t.place (root.steps ++ above ++ [.name n]) with
  | error c => rfl
  | ok r =>
    rw [← steps, Site.lookupSteps_join descends] at h
    obtain ⟨rfl, -⟩ := alike.left.place_eq descends h
    simp [bind, Except.bind, alike.same_along hD (List.prefix_refl q)]

theorem exists?_eq (alike : Alike root R D t u) :
    Access.exists? t (root.join path) = Access.exists? u (root.join path) := by
  have ends := respects_find descends hD t u alike
  rw [Access.exists?, Access.exists?]
  cases h : find (root.join path) t with
  | ok found v =>
    obtain ⟨w, hw, -⟩ := ends.of_ok h
    rw [hw]
  | error c v =>
    obtain ⟨w, hw, -⟩ := ends.of_error h
    rw [hw]

/-- A removal below a grounded root. -/
theorem remove_alike (alike : Alike root R D t u) (left : t.Grounded root R)
    (right : u.Grounded root R) :
    EndAlike (Alike root R D) (remove (root.join path) t) (remove (root.join path) u) := by
  cases there : Access.exists? t (root.join path) with
  | true =>
    obtain ⟨v, removed, plain, pruned⟩ := left.remove_of_exists descends there
    obtain ⟨w, removed', plain', pruned'⟩ :=
      right.remove_of_exists descends ((alike.exists?_eq descends hD).symm.trans there)
    rw [removed, removed']
    refine ⟨rfl, (left.of_pruned plain descends.ne_nil pruned).site,
      (right.of_pruned plain' descends.ne_nil pruned').site, fun s near => ?_⟩
    rw [pruned, pruned', alike.same s near]
  | false =>
    have ends := respects_find descends hD t u alike
    rw [remove, remove]
    cases h : find (root.join path) t with
    | ok found v =>
      obtain ⟨r, node⟩ := found
      obtain ⟨rfl, -⟩ := find_eq_ok_iff.1 h
      rw [exists?_iff.2 ⟨r, node, h⟩] at there
      cases there
    | error c v =>
      obtain ⟨w, hw, related⟩ := ends.of_error h
      rw [hw]
      cases c <;> exact ⟨rfl, related⟩

end Accesses

end Alike

end Tree

end ComponentForge
