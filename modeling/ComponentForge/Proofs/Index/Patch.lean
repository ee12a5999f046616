import ComponentForge.Proofs.Index.FrameZone

/-!
# Patches on the two lists

In a sound frame a patch appends its import line and its identifier to the lists that lack them, and
its reversal erases them from the lists that have them. A patch whose lines are all there changes
nothing, and a reversal says so.
-/

namespace ComponentForge.Index

open Text

@[simp]
theorem entry_identifier (x : Text) : (entry x).identifier = x := rfl

namespace Frame.Sound

variable {frame : Frame} {J K : List Text} {line x : Text}

theorem not_hits_frame (lacks : frame.Lacks line x) {row : Text}
    (h : row ∈ frame.first ++ frame.second ++ frame.rest.rows) :
    ¬ (Pattern.entry x).Hits row := by
  apply lacks.entry row
  simp only [Frame.rows, List.mem_append] at h ⊢
  rcases h with (h | h) | h <;> simp [h]

theorem not_hits_front (hJ : ∀ j ∈ J, IsImportLine j) (hx : IsWord x)
    (lacks : frame.Lacks line x) : ∀ row ∈ frame.front J, ¬ (Pattern.entry x).Hits row := by
  intro row hrow
  cases h : frame.upper <;> simp only [Frame.front, h, if_true, if_false, Bool.false_eq_true,
    List.mem_append] at hrow
  · exact not_hits_frame lacks (by simp [hrow])
  · rcases hrow with (hrow | hrow) | hrow
    · exact not_hits_frame lacks (by simp [hrow])
    · obtain ⟨j, hj, rfl⟩ := List.mem_map.1 hrow
      exact not_hits_terminate hx (hJ j hj)
    · exact not_hits_frame lacks (by simp [hrow])

/-- Entries other than the identifier's own are not taken for it. -/
theorem not_hits_item (sound : frame.Sound) (hK : ∀ y ∈ K, IsWord y) (hx : IsWord x)
    (lacks : frame.Lacks line x) (hmem : x ∉ K) {item : Item} (hitem : item ∈ frame.items K)
    (comma : Bool) : ¬ (Pattern.entry x).Hits (item.row comma) := by
  rcases List.mem_append.1 hitem with hitem | hitem
  · intro hit
    have hlast : item ∈ frame.last := by simpa using hitem
    refine lacks.entry (item.row false) ?_ (hits_of_comma hx (sound.tidy item hlast) hit)
    simpa [Frame.rows] using Or.inr (Or.inr (Or.inl ⟨item, hlast, rfl⟩))
  · obtain ⟨y, hy, rfl⟩ := List.mem_map.1 hitem
    rw [hits_ofIdentifier_iff hx (hK y hy)]
    rintro rfl
    exact hmem hy

theorem rows_text (sound : frame.Sound) (hJ : ∀ j ∈ J, IsImportLine j) (hK : ∀ y ∈ K, IsWord y) :
    (frame.text J K).rows = frame.above K ++ J.map terminate ++ (frame.below K).rows := by
  rw [text_eq_withImports]
  exact rows_withImports (sound.terminated_above hK) hJ

/-- An identifier that is not in the list is not found. -/
theorem not_hits_text (sound : frame.Sound) (hJ : ∀ j ∈ J, IsImportLine j)
    (hK : ∀ y ∈ K, IsWord y) (hx : IsWord x) (lacks : frame.Lacks line x) (hmem : x ∉ K) :
    ∀ row ∈ (frame.text J K).rows, ¬ (Pattern.entry x).Hits row := by
  have in_items : ∀ row ∈ frame.itemRows K, ¬ (Pattern.entry x).Hits row := by
    intro row hrow
    obtain ⟨item, hitem, comma, rfl⟩ := mem_listing hrow
    exact sound.not_hits_item hK hx lacks hmem hitem comma
  intro row hrow
  rw [sound.rows_text hJ hK, List.mem_append, List.mem_append] at hrow
  rcases hrow with (hrow | hrow) | hrow
  · rcases mem_above hrow with hrow | hrow
    · exact not_hits_frame lacks (List.mem_append_left _ hrow)
    · exact in_items row hrow
  · obtain ⟨j, hj, rfl⟩ := List.mem_map.1 hrow
    exact not_hits_terminate hx (hJ j hj)
  · rcases sound.mem_rows_below hK hrow with hrow | hrow
    · exact not_hits_frame lacks hrow
    · exact in_items row hrow

theorem items_append (frame : Frame) (before after : List Text) : frame.items (before ++ after) =
    frame.items before ++ after.map .ofIdentifier := by
  simp [Frame.items]

/-- The search for an entry finds the identifiers in the list. -/
theorem split?_entry_isSome (sound : frame.Sound) (hJ : ∀ j ∈ J, IsImportLine j)
    (hK : ∀ y ∈ K, IsWord y) (hx : IsWord x) (lacks : frame.Lacks line x) :
    ((Pattern.entry x).split? (frame.text J K)).isSome ↔ x ∈ K := by
  by_cases hmem : x ∈ K
  · obtain ⟨before, after, rfl, hbefore⟩ := List.eq_append_cons_of_mem hmem
    have hlead : ∀ y ∈ before, IsWord y := fun y hy => hK y (by simp [hy])
    have regroup : frame.text J (before ++ x :: after) =
        (frame.front J ++ (frame.items before).map (·.row true)).flatten ++
          ((Item.ofIdentifier x).row (frame.trailing || !after.isEmpty) ++
            ((listing frame.trailing (after.map .ofIdentifier)).flatten ++ frame.tail J)) := by
      rw [Frame.text, Frame.itemRows, items_append, List.map_cons, flatten_around, List.isEmpty_map]
    have terminated := terminated_commas (sound.terminated_front hJ) (sound.tidy_items hlead)
    have miss : ∀ row ∈ frame.front J ++ (frame.items before).map (·.row true),
        ¬ (Pattern.entry (entry x).identifier).Hits row :=
      not_hits_commas (not_hits_front hJ hx lacks) fun item hitem =>
        sound.not_hits_item hlead hx lacks hbefore hitem true
    obtain ⟨below, found, -⟩ := split?_entry (oneLine_entry hx) terminated miss
      ((tidy_ofIdentifier hx).terminated_row (frame.trailing || !after.isEmpty))
      (hits_ofIdentifier x _)
      ((listing frame.trailing (after.map .ofIdentifier)).flatten ++ frame.tail J)
    rw [regroup, found]
    exact iff_of_true rfl hmem
  · have nowhere := (oneLine_entry hx).split?_eq_none (sound.not_hits_text hJ hK hx lacks hmem)
    simp [nowhere, hmem]

/-- The item of an identifier in the list is taken out. -/
theorem removeExport_text (sound : frame.Sound) (hJ : ∀ j ∈ J, IsImportLine j)
    (hK : ∀ y ∈ K, IsWord y) (hx : IsWord x) (lacks : frame.Lacks line x) :
    removeExport (frame.text J K) (entry x) =
      .ok (if x ∈ K then some (frame.text J (K.erase x)) else none) := by
  by_cases hmem : x ∈ K
  · obtain ⟨before, after, rfl, hbefore⟩ := List.eq_append_cons_of_mem hmem
    have hlead : ∀ y ∈ before, IsWord y := fun y hy => hK y (by simp [hy])
    have hstay : ∀ y ∈ before ++ after, IsWord y := by
      intro y hy
      rcases List.mem_append.1 hy with hy | hy <;> exact hK y (by simp [hy])
    have tidy := sound.tidy_items hstay
    have styled := sound.styled_items J (before ++ after)
    have located := sound.locate?_text hJ hK
    rw [items_append] at tidy styled
    rw [Frame.text, Frame.itemRows, items_append, List.map_cons] at located
    rw [if_pos hmem, erase_append_cons hbefore, Frame.text, Frame.text, Frame.itemRows,
      Frame.itemRows, items_append, items_append, List.map_cons]
    refine removeExport_listing hx (sound.terminated_front hJ) (not_hits_front hJ hx lacks)
      (fun item hitem => ?_) tidy rfl styled ?_
    · exact sound.not_hits_item hlead hx lacks hbefore hitem true
    · simpa [Nat.add_assoc, entry] using located
  · rw [if_neg hmem]
    exact removeExport_eq_none hx (sound.not_hits_text hJ hK hx lacks hmem)

theorem insertExport_text (sound : frame.Sound) (hJ : ∀ j ∈ J, IsImportLine j)
    (hK : ∀ y ∈ K, IsWord y) :
    insertExport (frame.text J K) (entry x) = .ok (frame.text J (K ++ [x])) := by
  have tidy := sound.tidy_items hK
  have styled := sound.styled_items J K
  have located := sound.locate?_text hJ hK
  rw [Frame.text, Frame.text, Frame.itemRows, Frame.itemRows, items_append]
  exact insertExport_listing (sound.terminated_front hJ) tidy rfl styled located

/-- A patch appends what is absent. -/
theorem apply_text (sound : frame.Sound) (hJ : ∀ j ∈ J, IsImportLine j) (hK : ∀ y ∈ K, IsWord y)
    (hline : IsImportLine line) (hx : IsWord x) (lacks : frame.Lacks line x)
    (others : ∀ other ∈ J, line <:+: other → line = other) :
    (IndexPatch.mk line (some (entry x))).apply (frame.text J K) =
      .ok (frame.text (appendNew J line) (appendNew K x)) := by
  have has : hasLine (frame.text J K) line ↔ line ∈ J := by
    rw [text_eq_withImports]
    exact hasLine_withImports (sound.terminated_above hK) hJ hline
      (sound.foreign hK hline lacks others)
  have imported : (if hasLine (frame.text J K) line then frame.text J K
      else insertImport (frame.text J K) line) = frame.text (appendNew J line) K := by
    by_cases hmem : line ∈ J
    · rw [if_pos (has.2 hmem), appendNew_of_mem hmem]
    · rw [if_neg (mt has.1 hmem), appendNew_of_notMem hmem, text_eq_withImports, text_eq_withImports]
      exact insertImport_withImports (sound.importPlace hK) hJ
  have all_imports := forall_mem_appendNew hJ hline
  have listed := sound.split?_entry_isSome all_imports hK hx lacks
  simp only [IndexPatch.apply, imported, entry_identifier]
  by_cases hmem : x ∈ K
  · rw [if_pos (listed.2 hmem), appendNew_of_mem hmem]
  · rw [if_neg (mt listed.1 hmem), sound.insertExport_text all_imports hK, appendNew_of_notMem hmem]

/-- The line feeds of a text tell how long its two lists are. -/
theorem count_text (sound : frame.Sound) (hJ : ∀ j ∈ J, IsImportLine j) (hK : ∀ y ∈ K, IsWord y) :
    (frame.text J K).count '\n' = J.length + K.length + (frame.first.length +
      frame.second.length + frame.last.toList.length + frame.rest.count '\n') := by
  have upper := count_flatten (sound.terminated_front hJ)
  have listed := count_flatten (sound.terminated_itemRows hK)
  have block := count_flatten (terminated_withImports (fun _ h => absurd h List.not_mem_nil) hJ)
  have lower := count_flatten fun row hrow => sound.terminated row (List.mem_append_right _ hrow)
  rw [List.nil_append] at block
  cases h : frame.upper <;> simp only [Frame.text, Frame.tail, Frame.front, Frame.itemRows,
    Frame.items, h, if_true, if_false, Bool.false_eq_true, List.flatten_append, List.count_append,
    length_listing, List.length_append, List.length_map] at upper listed block lower ⊢
  · omega
  · omega

/-- A patch changes the text exactly if one of the lists changes. -/
theorem text_appendNew_eq_iff (sound : frame.Sound) (hJ : ∀ j ∈ J, IsImportLine j)
    (hK : ∀ y ∈ K, IsWord y) (hline : IsImportLine line) (hx : IsWord x) :
    frame.text (appendNew J line) (appendNew K x) = frame.text J K ↔ line ∈ J ∧ x ∈ K := by
  constructor
  · intro same
    have counts :=
      sound.count_text (forall_mem_appendNew hJ hline) (forall_mem_appendNew hK hx)
    rw [same, sound.count_text hJ hK] at counts
    by_cases hmem : line ∈ J
    · by_cases hlist : x ∈ K
      · exact ⟨hmem, hlist⟩
      · rw [appendNew_of_mem hmem, appendNew_of_notMem hlist, List.length_append] at counts
        simp at counts
    · have longer : K.length ≤ (appendNew K x).length := by
        rw [appendNew]
        split <;> simp
      rw [appendNew_of_notMem hmem, List.length_append, List.length_singleton] at counts
      omega
  · rintro ⟨hmem, hlist⟩
    rw [appendNew_of_mem hmem, appendNew_of_mem hlist]

/-- A reversal erases what is present. -/
theorem revert?_text (sound : frame.Sound) (hJ : ∀ j ∈ J, IsImportLine j)
    (hK : ∀ y ∈ K, IsWord y) (hline : IsImportLine line) (hx : IsWord x)
    (lacks : frame.Lacks line x) (others : ∀ other ∈ J, line <:+: other → line = other) :
    (IndexPatch.mk line (some (entry x))).revert? (frame.text J K) =
      .ok (if line ∈ J ∨ x ∈ K then some (frame.text (J.erase line) (K.erase x)) else none) := by
  have removed : removeLine? (frame.text J K) (.literal line) =
      if line ∈ J then some (frame.text (J.erase line) K) else none := by
    rw [text_eq_withImports, text_eq_withImports]
    exact removeLine?_withImports (sound.terminated_above hK) hJ hline
      (sound.foreign hK hline lacks others)
  have shorter : (if line ∈ J then some (frame.text (J.erase line) K) else none).getD
      (frame.text J K) = frame.text (J.erase line) K := by
    by_cases hmem : line ∈ J
    · simp [hmem]
    · simp [hmem, List.erase_of_not_mem hmem]
  have fewer_imports : ∀ j ∈ J.erase line, IsImportLine j :=
    fun j hj => hJ j (List.mem_of_mem_erase hj)
  simp only [IndexPatch.revert?, removed, shorter, sound.removeExport_text fewer_imports hK hx lacks,
    bind, Except.bind, pure, Except.pure]
  by_cases hlist : x ∈ K
  · simp [hlist]
  · by_cases hmem : line ∈ J
    · simp [hlist, hmem, List.erase_of_not_mem hlist]
    · simp [hlist, hmem]

end Frame.Sound

end ComponentForge.Index
