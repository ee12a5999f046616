import ComponentForge.Index.Zone
import ComponentForge.Proofs.Text.Rows

/-!
# Zones under insertion

Rows without braces that are put between the rows of a text move the export zone and do not change
what it is: a line of the zone moves down by the number of new rows if it stood below them. A text
without braces and line feeds that is put into a line below the marker moves nothing.
-/

namespace ComponentForge

/-- A text without braces. -/
def Braceless (text : Text) : Prop :=
  '{' ∉ text ∧ '}' ∉ text

theorem Braceless.append {a b : Text} (ha : Braceless a) (hb : Braceless b) :
    Braceless (a ++ b) := by
  simp_all [Braceless]

theorem braceless_flatten {rows : List Text} (h : ∀ row ∈ rows, Braceless row) :
    Braceless rows.flatten := by
  constructor
  · intro hmem
    obtain ⟨row, hrow, hc⟩ := List.mem_flatten.1 hmem
    exact (h row hrow).1 hc
  · intro hmem
    obtain ⟨row, hrow, hc⟩ := List.mem_flatten.1 hmem
    exact (h row hrow).2 hc

/-- The depth after a text in which no brace of depth zero closes. -/
def depthAfter (depth : Nat) : Text → Nat
  | [] => depth
  | c :: rest =>
    if c = '{' then depthAfter (depth + 1) rest
    else if c = '}' then depthAfter (depth - 1) rest
    else depthAfter depth rest

theorem insideBraces?_open (depth : Nat) (rest : Text) :
    insideBraces? depth ('{' :: rest) = (insideBraces? (depth + 1) rest).map ('{' :: ·) := by
  simp [insideBraces?]

theorem insideBraces?_close (depth : Nat) (rest : Text) :
    insideBraces? (depth + 1) ('}' :: rest) = (insideBraces? depth rest).map ('}' :: ·) := by
  simp [insideBraces?]

theorem insideBraces?_end (rest : Text) : insideBraces? 0 ('}' :: rest) = some [] := by
  simp [insideBraces?]

theorem insideBraces?_other {c : Char} (ho : c ≠ '{') (hc : c ≠ '}') (depth : Nat) (rest : Text) :
    insideBraces? depth (c :: rest) = (insideBraces? depth rest).map (c :: ·) := by
  simp [insideBraces?, ho, hc]

theorem insideBraces?_append (depth : Nat) (a b : Text) :
    insideBraces? depth (a ++ b) =
      (insideBraces? depth a).or ((insideBraces? (depthAfter depth a) b).map (a ++ ·)) := by
  fun_induction insideBraces? depth a with
  | case1 => simp [depthAfter]
  | case2 depth rest ih =>
    rw [List.cons_append, insideBraces?_open, ih]
    cases insideBraces? (depth + 1) rest <;> simp [depthAfter, Function.comp_def]
  | case3 rest => simp [insideBraces?_end]
  | case4 rest depth _ ih =>
    rw [List.cons_append, insideBraces?_close, ih]
    cases insideBraces? depth rest <;> simp [depthAfter, Function.comp_def]
  | case5 depth c rest ho hc ih =>
    rw [List.cons_append, insideBraces?_other ho hc, ih]
    cases insideBraces? depth rest <;> simp [depthAfter, ho, hc, Function.comp_def]

theorem insideBraces?_braceless {a : Text} (h : Braceless a) (depth : Nat) (b : Text) :
    insideBraces? depth (a ++ b) = (insideBraces? depth b).map (a ++ ·) := by
  obtain ⟨hopen, hclose⟩ := h
  induction a with
  | nil => simp
  | cons c a ih =>
    obtain ⟨ho, hopen⟩ := List.ne_and_not_mem_of_not_mem_cons hopen
    obtain ⟨hc, hclose⟩ := List.ne_and_not_mem_of_not_mem_cons hclose
    simp [insideBraces?_other ho.symm hc.symm, ih hopen hclose, Function.comp_def]

/-- The text inside is followed by the closing brace. -/
theorem append_of_insideBraces? {depth : Nat} {text inside : Text}
    (h : insideBraces? depth text = some inside) : ∃ rest, text = inside ++ '}' :: rest := by
  fun_induction insideBraces? depth text generalizing inside with
  | case1 => cases h
  | case3 rest =>
    -- the brace that closes at depth zero
    obtain rfl : [] = inside := Option.some.inj h
    exact ⟨rest, rfl⟩
  | case2 _ _ ih | case4 _ _ _ ih | case5 _ _ _ _ _ ih =>
    obtain ⟨inner, hinner, rfl⟩ := Option.map_eq_some_iff.1 h
    obtain ⟨rest, rfl⟩ := ih hinner
    exact ⟨rest, rfl⟩

namespace ExportZone

/-- The zone that opens with a match of the marker: its lines count the line feeds before the
marker and inside the braces. -/
def ofMatch? (opening : Text) (found : Text × Text) : Option ExportZone :=
  (insideBraces? 0 (found.2.drop (opening.length + 1))).bind fun inside =>
    if 0 < inside.count '\n' then
      some ⟨found.1.count '\n' + 1, found.1.count '\n' + inside.count '\n' + 1⟩
    else none

theorem locate?_eq {opening more : Text} (hbrace : '{' ∉ opening) (hline : '\n' ∉ opening)
    (text : Text) : locate? text (opening ++ '{' :: more) =
      (text.splitBefore? (opening ++ '{' :: more)).bind (ofMatch? opening) := by
  have hopening := Text.splitBefore?_char hbrace more
  simp only [locate?, hopening, Option.bind_eq_bind, Option.bind_some]
  cases text.splitBefore? (opening ++ '{' :: more) with
  | none => rfl
  | some found =>
    obtain ⟨before, rest⟩ := found
    simp only [Option.bind_some, ofMatch?]
    cases insideBraces? 0 (rest.drop (opening.length + 1)) with
    | none => rfl
    | some inside =>
      have none_opening : opening.count '\n' = 0 := List.count_eq_zero_of_not_mem hline
      have braced : List.count '\n' ('{' :: inside) = List.count '\n' inside := by simp
      simp only [Option.bind_some, Position.after_line, List.count_append, none_opening, braced,
        Nat.add_zero]
      by_cases h : 0 < inside.count '\n'
      · rw [if_pos h, if_pos (by omega)]
      · rw [if_neg h, if_neg (by omega)]

theorem drop_marker (opening more text : Text) :
    (opening ++ '{' :: more ++ text).drop (opening.length + 1) = more ++ text := by
  simp [List.drop_append]

/-- The zone after `count` rows were put below the first `place` rows of the text. -/
def insertRows (zone : ExportZone) (place count : Nat) : ExportZone where
  beginLine := if place < zone.beginLine then zone.beginLine + count else zone.beginLine
  endLine := if place < zone.endLine then zone.endLine + count else zone.endLine

/-- What follows a marker in terminated rows ends with a line feed. -/
theorem after_marker_of_rows {marker before after : Text} (hne : marker ≠ [])
    (hmarker : '\n' ∉ marker) {above : List Text}
    (terminated : ∀ row ∈ above, Text.Terminated row)
    (h : above.flatten = before ++ (marker ++ after)) : after.getLast? = some '\n' := by
  have habove : above ≠ [] := by
    rintro rfl
    simp [hne] at h
  have last := Text.getLast?_flatten terminated habove
  rw [h] at last
  by_cases hafter : after = []
  · subst hafter
    have hlast : '\n' ∈ marker := by
      apply List.mem_of_getLast?
      simpa [List.getLast?_append, hne] using last
    exact absurd hlast hmarker
  · simpa [List.getLast?_append, hafter] using last

theorem count_pos_of_getLast? {text : Text} (h : text.getLast? = some '\n') :
    0 < text.count '\n' :=
  List.count_pos_iff.2 (List.mem_of_getLast? h)

/-- A brace in a text with a line feed at its end has a line feed below it. -/
theorem count_below_pos {text inside below : Text} (last : text.getLast? = some '\n')
    (h : text = inside ++ '}' :: below) : 0 < below.count '\n' := by
  apply count_pos_of_getLast?
  rw [h] at last
  cases below with
  | nil => simp at last
  | cons c below => simpa [List.getLast?_append] using last

section Insert

variable {opening more : Text} {above rows : List Text}
  (habove : ∀ row ∈ above, Text.Terminated row) (hrows : ∀ row ∈ rows, Text.Terminated row)

include habove hrows

/-- Rows that are put above the marker move the whole zone. -/
theorem ofMatch?_insert_above (before after : Text) :
    ofMatch? opening (above.flatten ++ (rows.flatten ++ before), after) =
      (ofMatch? opening (above.flatten ++ before, after)).map
        (insertRows · above.length rows.length) := by
  have count_above := Text.count_flatten habove
  have count_rows := Text.count_flatten hrows
  simp only [ofMatch?]
  cases insideBraces? 0 (after.drop (opening.length + 1)) with
  | none => rfl
  | some inside =>
    simp only [Option.bind_some, List.count_append, count_above, count_rows]
    split
    · simp only [Option.map_some, insertRows]
      rw [if_pos (by omega), if_pos (by omega)]
      congr 2 <;> omega
    · rfl

/-- Rows that are put below the marker leave the zone where it is or grow it. -/
theorem ofMatch?_insert_below (hmarker : '\n' ∉ opening ++ '{' :: more)
    (braceless : ∀ row ∈ rows, Braceless row) {before tail : Text}
    (whole : above.flatten = before ++ (opening ++ '{' :: more ++ tail)) (rest : Text) :
    ofMatch? opening (before, opening ++ '{' :: more ++ (tail ++ (rows.flatten ++ rest))) =
      (ofMatch? opening (before, opening ++ '{' :: more ++ (tail ++ rest))).map
        (insertRows · above.length rows.length) := by
  have count_opening : opening.count '\n' = 0 :=
    List.count_eq_zero_of_not_mem fun h => hmarker (List.mem_append_left _ h)
  have count_more : more.count '\n' = 0 :=
    List.count_eq_zero_of_not_mem fun h => hmarker (by simp [h])
  have count_rows := Text.count_flatten hrows
  have tail_last := after_marker_of_rows (by simp) hmarker habove whole
  have tail_pos := count_pos_of_getLast? tail_last
  have count_whole : above.length = before.count '\n' + tail.count '\n' := by
    rw [← Text.count_flatten habove, whole]
    simp [count_opening, count_more]
  simp only [ofMatch?, drop_marker]
  rw [← List.append_assoc more tail, ← List.append_assoc more tail,
    insideBraces?_append 0 (more ++ tail) (rows.flatten ++ rest),
    insideBraces?_append 0 (more ++ tail) rest,
    insideBraces?_braceless (braceless_flatten braceless)]
  cases hinside : insideBraces? 0 (more ++ tail) with
  | some inside =>
    -- the zone closes above the new rows and stays where it is
    obtain ⟨below, hbelow⟩ := append_of_insideBraces? hinside
    have below_pos := count_below_pos (by rw [List.getLast?_append, tail_last]; rfl) hbelow
    have count_below := congrArg (List.count '\n') hbelow
    simp only [List.count_append, count_more] at count_below
    have count_cons : List.count '\n' ('}' :: below) = below.count '\n' := by simp
    simp only [Option.some_or, Option.bind_some]
    split
    · simp only [Option.map_some, insertRows]
      rw [if_neg (by omega), if_neg (by omega)]
    · rfl
  | none =>
    -- the new rows stand inside the zone
    cases insideBraces? (depthAfter 0 (more ++ tail)) rest with
    | none => rfl
    | some inside =>
      simp only [Option.none_or, Option.map_some, Option.bind_some, List.count_append, count_rows,
        count_more]
      rw [if_pos (by omega), if_pos (by omega)]
      simp only [Option.map_some, insertRows]
      rw [if_neg (by omega), if_pos (by omega)]
      congr 2
      omega

theorem locate?_insert (hbrace : '{' ∉ opening) (hmarker : '\n' ∉ opening ++ '{' :: more)
    (braceless : ∀ row ∈ rows, Braceless row) (rest : Text) :
    locate? (above.flatten ++ (rows.flatten ++ rest)) (opening ++ '{' :: more) =
      (locate? (above.flatten ++ rest) (opening ++ '{' :: more)).map
        (insertRows · above.length rows.length) := by
  have hopening : '\n' ∉ opening := fun h => hmarker (List.mem_append_left _ h)
  have hne : opening ++ '{' :: more ≠ [] := by simp
  have not_in_rows : Text.splitBefore? rows.flatten (opening ++ '{' :: more) = none := by
    rw [Text.splitBefore?_eq_none_iff]
    intro h
    exact (braceless_flatten braceless).1 (h.subset (by simp))
  rw [locate?_eq hbrace hopening, locate?_eq hbrace hopening,
    Text.splitBefore?_rows_append hne hmarker habove,
    Text.splitBefore?_rows_append hne hmarker habove,
    Text.splitBefore?_rows_append hne hmarker hrows, not_in_rows]
  cases hsplit : Text.splitBefore? above.flatten (opening ++ '{' :: more) with
  | none =>
    cases rest.splitBefore? (opening ++ '{' :: more) with
    | none => rfl
    | some found => exact ofMatch?_insert_above habove hrows found.1 found.2
  | some found =>
    obtain ⟨before, after⟩ := found
    obtain ⟨tail, rfl⟩ := Text.prefix_of_splitBefore? hsplit
    have whole := (Text.append_of_splitBefore? hsplit).symm
    simp only [Option.map_some, Option.some_or, Option.bind_some, List.append_assoc _ tail]
    exact ofMatch?_insert_below habove hrows hmarker braceless whole rest

end Insert

/-- The lines of a zone are lines of the text, that of the marker above that of the closing brace. -/
theorem lines_of_locate? {text marker : Text} {zone : ExportZone}
    (h : locate? text marker = some zone) :
    0 < zone.beginLine ∧ zone.beginLine < zone.endLine ∧ zone.endLine ≤ text.rows.length := by
  obtain ⟨⟨opening, rest⟩, hopening, marked⟩ := Option.bind_eq_some_iff.1 h
  obtain ⟨more, rfl⟩ := Text.prefix_of_splitBefore? hopening
  obtain rfl := Text.append_of_splitBefore? hopening
  obtain ⟨⟨before, rest⟩, hsplit, closed⟩ := Option.bind_eq_some_iff.1 marked
  obtain ⟨tail, rfl⟩ := Text.prefix_of_splitBefore? hsplit
  obtain ⟨inside, hinside, hzone⟩ := Option.bind_eq_some_iff.1 closed
  obtain ⟨lower, hzone⟩ := Option.ite_none_right_eq_some.1 hzone
  obtain rfl := Option.some.inj hzone
  obtain ⟨below, hbelow⟩ := append_of_insideBraces? hinside
  rw [List.singleton_append, drop_marker] at hbelow
  have whole : text = (before ++ opening ++ '{' :: inside) ++ '}' :: below := by
    rw [← Text.append_of_splitBefore? hsplit]
    simp [hbelow]
  have bound := Text.count_lt_length_rows (before ++ opening ++ '{' :: inside) '}' below
  rw [← whole] at bound
  simp only [Position.after_line] at lower ⊢
  omega

/-- A zone that begins within rows has its marker in them. -/
theorem marker_of_beginLine_le {opening more : Text} (hbrace : '{' ∉ opening)
    (hmarker : '\n' ∉ opening ++ '{' :: more) {above : List Text}
    (habove : ∀ row ∈ above, Text.Terminated row) {rest : Text} {zone : ExportZone}
    (h : locate? (above.flatten ++ rest) (opening ++ '{' :: more) = some zone)
    (hbegin : zone.beginLine ≤ above.length) :
    ∃ found, Text.splitBefore? above.flatten (opening ++ '{' :: more) = some found := by
  have hopening : '\n' ∉ opening := fun h => hmarker (List.mem_append_left _ h)
  rw [← Option.ne_none_iff_exists']
  intro none_above
  rw [locate?_eq hbrace hopening, Text.splitBefore?_rows_append (by simp) hmarker habove,
    none_above] at h
  obtain ⟨⟨before, after⟩, hsplit, hfound⟩ := Option.bind_eq_some_iff.1 h
  obtain ⟨inside, hinside, hzone⟩ := Option.bind_eq_some_iff.1 hfound
  simp only [Option.map_none, Option.none_or, Option.map_eq_some_iff, Prod.exists, Prod.mk.injEq]
    at hsplit
  obtain ⟨b, a, -, rfl, -⟩ := hsplit
  split at hzone
  · obtain rfl := Option.some.inj hzone
    simp only [List.count_append, Text.count_flatten habove] at hbegin
    omega
  · simp at hzone

/-- Text that is put into a line below the marker moves nothing. -/
theorem locate?_insert_inline {opening more : Text} (hbrace : '{' ∉ opening)
    (hmarker : '\n' ∉ opening ++ '{' :: more) {above : List Text}
    (habove : ∀ row ∈ above, Text.Terminated row)
    {found : Text × Text}
    (marked : Text.splitBefore? above.flatten (opening ++ '{' :: more) = some found)
    {inserted : Text} (braceless : Braceless inserted) (hline : '\n' ∉ inserted)
    (lead rest : Text) :
    locate? (above.flatten ++ (lead ++ (inserted ++ rest))) (opening ++ '{' :: more) =
      locate? (above.flatten ++ (lead ++ rest)) (opening ++ '{' :: more) := by
  have hopening : '\n' ∉ opening := fun h => hmarker (List.mem_append_left _ h)
  rw [locate?_eq hbrace hopening, locate?_eq hbrace hopening,
    Text.splitBefore?_rows_append (by simp) hmarker habove,
    Text.splitBefore?_rows_append (by simp) hmarker habove, marked]
  obtain ⟨before, after⟩ := found
  obtain ⟨tail, rfl⟩ := Text.prefix_of_splitBefore? marked
  simp only [Option.map_some, Option.some_or, Option.bind_some, ofMatch?,
    List.append_assoc _ tail, drop_marker]
  have regroup : ∀ text, more ++ (tail ++ (lead ++ text)) = more ++ tail ++ lead ++ text := by simp
  rw [regroup, regroup,
    insideBraces?_append 0 (more ++ tail ++ lead) (inserted ++ rest),
    insideBraces?_append 0 (more ++ tail ++ lead) rest, insideBraces?_braceless braceless]
  cases insideBraces? 0 (more ++ tail ++ lead) with
  | some inside => rfl
  | none =>
    cases insideBraces? (depthAfter 0 (more ++ tail ++ lead)) rest with
    | none => rfl
    | some inside => simp [List.count_eq_zero_of_not_mem hline, hline]

/-- A marker of a zone has its first brace somewhere. -/
theorem exists_opening {content marker : Text} {zone : ExportZone}
    (h : locate? content marker = some zone) :
    ∃ opening more, marker = opening ++ '{' :: more ∧ '{' ∉ opening := by
  cases found : marker.splitBefore? ['{'] with
  | none => simp [locate?, found] at h
  | some parts =>
    obtain ⟨opening, rest⟩ := parts
    obtain ⟨more, rfl⟩ := Text.prefix_of_splitBefore? found
    refine ⟨opening, more, (Text.append_of_splitBefore? found).symm, fun inside => ?_⟩
    obtain ⟨before, after, rfl, hbefore⟩ := List.eq_append_cons_of_mem inside
    have whole := Text.append_of_splitBefore? found
    have first := Text.splitBefore?_char hbefore (after ++ ('{' :: more))
    have regroup : before ++ '{' :: (after ++ '{' :: more) = marker := by simpa using whole
    rw [regroup, found] at first
    simpa using congrArg List.length (Prod.mk.inj (Option.some.inj first)).1

section Inline

variable {marker lead piece rest : Text} {above : List Text} {zone : ExportZone}
  (single : '\n' ∉ marker) (terminated : ∀ r ∈ above, Text.Terminated r)
  (braceless : Braceless piece) (oneLine : '\n' ∉ piece) (begins : zone.beginLine ≤ above.length)

include single terminated braceless oneLine begins

/-- A piece of a row inside goes, and the zone stays where it is. -/
theorem locate?_withoutInline
    (located : locate? (above.flatten ++ (lead ++ (piece ++ rest))) marker = some zone) :
    locate? (above.flatten ++ (lead ++ rest)) marker = some zone := by
  obtain ⟨opening, more, rfl, hbrace⟩ := exists_opening located
  obtain ⟨found, marked⟩ := marker_of_beginLine_le hbrace single terminated located begins
  rw [← locate?_insert_inline hbrace single terminated marked braceless oneLine, located]

/-- A piece is put into a row inside, and the zone stays where it is. -/
theorem locate?_withInline (located : locate? (above.flatten ++ (lead ++ rest)) marker = some zone) :
    locate? (above.flatten ++ (lead ++ (piece ++ rest))) marker = some zone := by
  obtain ⟨opening, more, rfl, hbrace⟩ := exists_opening located
  obtain ⟨found, marked⟩ := marker_of_beginLine_le hbrace single terminated located begins
  rw [locate?_insert_inline hbrace single terminated marked braceless oneLine, located]

end Inline

theorem insideBraces?_of_braceless {text : Text} (h : Braceless text) (depth : Nat) :
    insideBraces? depth text = none := by
  have whole := insideBraces?_braceless h depth []
  rw [List.append_nil] at whole
  rw [whole]
  rfl

/-- Lines without braces at the end of a text do not change its zone. -/
theorem locate?_append_line {opening more : Text} (hbrace : '{' ∉ opening)
    (hmarker : '\n' ∉ opening ++ '{' :: more) {below : Text} (braceless : Braceless below)
    (text : Text) : locate? (text ++ '\n' :: below) (opening ++ '{' :: more) =
      locate? text (opening ++ '{' :: more) := by
  have hopening : '\n' ∉ opening := fun h => hmarker (List.mem_append_left _ h)
  have not_below : below.splitBefore? (opening ++ '{' :: more) = none := by
    rw [Text.splitBefore?_eq_none_iff]
    intro h
    exact braceless.1 (h.subset (by simp))
  have tail : Braceless ('\n' :: below) := by
    simpa [Braceless] using braceless
  rw [locate?_eq hbrace hopening, locate?_eq hbrace hopening,
    Text.splitBefore?_append_cons (by simp) hmarker, not_below]
  cases marked : text.splitBefore? (opening ++ '{' :: more) with
  | none => rfl
  | some found =>
    obtain ⟨before, after⟩ := found
    obtain ⟨inside, rfl⟩ := Text.prefix_of_splitBefore? marked
    simp only [Option.map_some, Option.some_or, Option.bind_some, ofMatch?, List.append_assoc _ inside,
      drop_marker]
    rw [← List.append_assoc more, insideBraces?_append 0 (more ++ inside),
      insideBraces?_of_braceless tail]
    simp

end ExportZone

end ComponentForge
