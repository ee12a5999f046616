import ComponentForge.Proofs.Yaml.Outline
import ComponentForge.Yaml.Decode

/-!
# The document of an outline

The tokens of an outline are read as a mapping of its keys. There are no anchors, so every node is
the one that it refers to.
-/

namespace ComponentForge.Yaml

/-! ## Nodes -/

def Datum.node (datum : Datum) : Node :=
  .scalar none datum.style datum.text

def recordNode (record : Record) : Node :=
  .mapping (record.map fun (name, datum) => (.scalar none .plain name, datum.node))

def Field.node : Field → Node
  | .datum d => d.node
  | .records rs => .sequence (rs.map recordNode)

def outlineNode (outline : Outline) : Node :=
  .mapping (outline.map fun (name, field) => (.scalar none .plain name, field.node))

namespace Reader

variable {r : Reading} {fuel : Nat} {block indentless : Bool} {style : Style} {text : Text}
  {token : Token} {tokens rest : List Token}

theorem run_peek (r : Reading) : peek.run r = some (r.tokens.head?, r) :=
  rfl

theorem run_skip (r : Reading) : skip.run r = some ((), { r with tokens := r.tokens.drop 1 }) :=
  rfl

theorem node_scalar (pos : 0 < fuel) :
    (node fuel block indentless).run { r with tokens := .scalar style text :: rest } =
      some (.scalar none style text, { r with tokens := rest }) := by
  obtain ⟨fuel, rfl⟩ : ∃ less, fuel = less + 1 := ⟨fuel - 1, by omega⟩
  rw [node]
  rfl

theorem nodeUnless_of_not_mem (h : token ∉ tokens) :
    (nodeUnless tokens (fuel + 1) block indentless).run { r with tokens := token :: rest } =
      (node fuel block indentless).run { r with tokens := token :: rest } := by
  rw [nodeUnless]
  simp [nextIs, peek, h]

/-- A scalar stands where a node may be left out. -/
theorem nodeUnless_scalar (enough : 2 ≤ fuel) (h : .scalar style text ∉ tokens) :
    (nodeUnless tokens fuel block indentless).run { r with tokens := .scalar style text :: rest } =
      some (.scalar none style text, { r with tokens := rest }) := by
  obtain ⟨fuel, rfl⟩ : ∃ less, fuel = less + 1 := ⟨fuel - 1, by omega⟩
  rw [nodeUnless_of_not_mem h, node_scalar (by omega)]

theorem valueUnless_value :
    (valueUnless tokens (fuel + 1) block).run { r with tokens := .value :: rest } =
      (nodeUnless tokens fuel block block).run { r with tokens := rest } := by
  rw [valueUnless]
  rfl

theorem blockMapping_end (pos : 0 < fuel) :
    (blockMapping fuel).run { r with tokens := .blockEnd :: rest } =
      some ([], { r with tokens := rest }) := by
  obtain ⟨fuel, rfl⟩ : ∃ less, fuel = less + 1 := ⟨fuel - 1, by omega⟩
  rw [blockMapping]
  rfl

theorem blockMapping_key {name : Text} {value : Node} {fields : List (Node × Node)}
    {more last : List Token} (pos : 0 < fuel)
    (reads : (nodeUnless [.key, .value, .blockEnd] fuel true true).run { r with tokens := rest } =
      some (value, { r with tokens := more }))
    (others : (blockMapping (fuel + 1)).run { r with tokens := more } =
      some (fields, { r with tokens := last })) :
    (blockMapping (fuel + 2)).run { r with tokens := .key :: .scalar .plain name :: .value :: rest } =
      some ((.scalar none .plain name, value) :: fields, { r with tokens := last }) := by
  have key : (nodeUnless [.key, .value, .blockEnd] (fuel + 1) true true).run
      { r with tokens := .scalar .plain name :: .value :: rest } =
        some (.scalar none .plain name, { r with tokens := .value :: rest }) :=
    nodeUnless_scalar (by omega) (by simp)
  have value : (valueUnless [.key, .value, .blockEnd] (fuel + 1) true).run
      { r with tokens := .value :: rest } = some (value, { r with tokens := more }) :=
    valueUnless_value.trans reads
  rw [blockMapping]
  simp only [StateT.run_bind, run_peek, run_skip, List.head?_cons, List.drop_one, List.tail_cons, key,
    value, others, Option.bind_eq_bind, Option.bind_some]
  rfl

/-- The fields of a record. -/
theorem blockMapping_record (record : Record)
    (enough : (fieldsTokens record).length + 3 ≤ fuel) :
    (blockMapping fuel).run { r with tokens := fieldsTokens record ++ .blockEnd :: rest } =
      some (record.map fun (name, datum) => (.scalar none .plain name, datum.node),
        { r with tokens := rest }) := by
  induction record generalizing fuel with
  | nil => exact blockMapping_end (by omega)
  | cons field record ih =>
    obtain ⟨name, datum⟩ := field
    have size : (fieldTokens name datum).length = 4 := rfl
    rw [fieldsTokens_cons, List.length_append, size] at enough
    obtain ⟨fuel, rfl⟩ : ∃ less, fuel = less + 2 := ⟨fuel - 2, by omega⟩
    exact blockMapping_key (by omega) (nodeUnless_scalar (by omega) (by simp)) (ih (by omega))

theorem node_mapping {fields : List (Node × Node)} {last : List Token}
    (reads : (blockMapping fuel).run { r with tokens := rest } =
      some (fields, { r with tokens := last })) :
    (node (fuel + 1) true false).run { r with tokens := .blockMappingStart :: rest } =
      some (.mapping fields, { r with tokens := last }) := by
  rw [node]
  simp [run_peek, run_skip, properties, fullTag, declare, complete, reads]

/-- The entries of a list that is not indented, up to a token that is no entry. -/
theorem indentlessSequence_records (records : List Record) (stops : ∀ t ∈ rest.head?, t ≠ .blockEntry)
    (enough : (records.flatMap recordTokens).length + 3 ≤ fuel) :
    (indentlessSequence fuel).run { r with tokens := records.flatMap recordTokens ++ rest } =
      some (records.map recordNode, { r with tokens := rest }) := by
  induction records generalizing fuel with
  | nil =>
    obtain ⟨fuel, rfl⟩ : ∃ less, fuel = less + 1 := ⟨fuel - 1, by simp at enough; omega⟩
    rw [indentlessSequence]
    cases rest with
    | nil => rfl
    | cons token rest =>
      have other : token ≠ .blockEntry := stops token rfl
      cases token <;> first | rfl | exact absurd rfl other
  | cons record records ih =>
    have shape : recordTokens record ++ (records.flatMap recordTokens ++ rest) =
        .blockEntry :: .blockMappingStart :: (fieldsTokens record ++
          .blockEnd :: (records.flatMap recordTokens ++ rest)) := by
      simp [recordTokens]
    have size : (recordTokens record).length = (fieldsTokens record).length + 3 := by
      simp [recordTokens]
    rw [List.flatMap_cons, List.length_append, size] at enough
    obtain ⟨fuel, rfl⟩ : ∃ less, fuel = less + 3 := ⟨fuel - 3, by omega⟩
    have item : (nodeUnless [.blockEntry, .key, .value, .blockEnd] (fuel + 2) true false).run
        { r with tokens := .blockMappingStart :: (fieldsTokens record ++
          .blockEnd :: (records.flatMap recordTokens ++ rest)) } =
          some (recordNode record, { r with tokens := records.flatMap recordTokens ++ rest }) := by
      rw [nodeUnless_of_not_mem (by simp)]
      exact node_mapping (blockMapping_record record (by omega))
    have others : (indentlessSequence (fuel + 2)).run
        { r with tokens := records.flatMap recordTokens ++ rest } =
          some (records.map recordNode, { r with tokens := rest }) := ih (by omega)
    rw [List.flatMap_cons, List.append_assoc, shape, indentlessSequence]
    simp only [StateT.run_bind, run_peek, run_skip, List.head?_cons, List.drop_one, List.tail_cons, item,
      others, Option.bind_eq_bind, Option.bind_some]
    rfl

theorem nodeUnless_records {records : List Record} (hne : records ≠ [])
    (stops : ∀ t ∈ rest.head?, t ≠ .blockEntry)
    (enough : (records.flatMap recordTokens).length + 3 ≤ fuel) :
    (nodeUnless [.key, .value, .blockEnd] (fuel + 2) true true).run
        { r with tokens := records.flatMap recordTokens ++ rest } =
      some (.sequence (records.map recordNode), { r with tokens := rest }) := by
  have reads := indentlessSequence_records (r := r) records stops enough
  obtain ⟨record, records, rfl⟩ := List.exists_cons_of_ne_nil hne
  obtain ⟨more, shape⟩ : ∃ more,
      (record :: records).flatMap recordTokens ++ rest = .blockEntry :: more := ⟨_, rfl⟩
  rw [shape] at reads ⊢
  rw [nodeUnless_of_not_mem (by simp), node]
  simp [run_peek, properties, fullTag, declare, complete, reads]

/-- The value of a key of the outermost mapping. -/
theorem nodeUnless_field (r : Reading) {name : Text} {field : Field} (proper : IsEntry (name, field))
    (stops : ∀ t ∈ rest.head?, t ≠ .blockEntry)
    (enough : (entryTokens (name, field)).length + 2 ≤ fuel) :
    ∃ more, entryTokens (name, field) = .key :: .scalar .plain name :: .value :: more ∧
      (nodeUnless [.key, .value, .blockEnd] fuel true true).run { r with tokens := more ++ rest } =
        some (field.node, { r with tokens := rest }) := by
  cases field with
  | datum d =>
    exact ⟨[.scalar d.style d.text], rfl, nodeUnless_scalar (by omega) (by simp)⟩
  | records rs =>
    refine ⟨rs.flatMap recordTokens, rfl, ?_⟩
    obtain ⟨-, hne, -⟩ := proper
    have size : (entryTokens (name, .records rs)).length = (rs.flatMap recordTokens).length + 3 := by
      simp [entryTokens]
    obtain ⟨fuel, rfl⟩ : ∃ less, fuel = less + 2 := ⟨fuel - 2, by omega⟩
    exact nodeUnless_records hne stops (by omega)

theorem head?_entryTokens (outline : Outline) (tail : List Token) :
    ∀ t ∈ (outline.flatMap entryTokens ++ .blockEnd :: tail).head?, t ≠ .blockEntry := by
  cases outline with
  | nil => simp
  | cons entry outline =>
    obtain ⟨name, d | rs⟩ := entry
    · simp [entryTokens, fieldTokens]
    · simp [entryTokens]

theorem blockMapping_outline {outline : Outline} (proper : ∀ entry ∈ outline, IsEntry entry)
    (enough : (outline.flatMap entryTokens).length + 4 ≤ fuel) :
    (blockMapping fuel).run { r with tokens := outline.flatMap entryTokens ++ .blockEnd :: rest } =
      some (outline.map fun (name, field) => (.scalar none .plain name, field.node),
        { r with tokens := rest }) := by
  induction outline generalizing fuel with
  | nil => exact blockMapping_end (by omega)
  | cons entry outline ih =>
    obtain ⟨name, field⟩ := entry
    have others := fun e he => proper e (List.mem_cons_of_mem (name, field) he)
    rw [List.flatMap_cons, List.length_append] at enough
    obtain ⟨fuel, rfl⟩ : ∃ less, fuel = less + 2 := ⟨fuel - 2, by omega⟩
    have room : (entryTokens (name, field)).length + 2 ≤ fuel := by omega
    obtain ⟨more, shape, reads⟩ := nodeUnless_field r (proper _ List.mem_cons_self)
      (head?_entryTokens outline rest) room
    rw [List.flatMap_cons, List.append_assoc, shape]
    have pos : 3 ≤ (entryTokens (name, field)).length := by simp [shape]
    exact blockMapping_key (by omega) reads (ih others (by omega))

/-- A stream of nothing but a mapping is the document of that mapping. -/
theorem document_mapping {root : Node}
    (reads : (node fuel true false).run { r with tokens := .blockMappingStart :: rest } =
      some (root, { r with tokens := [] })) :
    (document fuel).run { r with tokens := .blockMappingStart :: rest } =
      some (some root, { r with tokens := [] }) := by
  rw [document]
  simp [run_peek, isDirective, reads]

end Reader

/-- The outline is read from its tokens. -/
theorem ofTokens?_outlineTokens {outline : Outline} (proper : ∀ entry ∈ outline, IsEntry entry) :
    Document.ofTokens? (outlineTokens outline) = some ⟨outlineNode outline, [], []⟩ := by
  let r : Reading := ⟨[], Reader.standardHandles, [], []⟩
  have size : (outlineTokens outline).length = (outline.flatMap entryTokens).length + 2 := by
    simp [outlineTokens]
  obtain ⟨fuel, fuel_eq⟩ : ∃ fuel, 4 * (outlineTokens outline).length + 8 = fuel + 1 := ⟨_, rfl⟩
  have root : (Reader.document (fuel + 1)).run { r with tokens := outlineTokens outline } =
      some (some (outlineNode outline), r) :=
    Reader.document_mapping (Reader.node_mapping (Reader.blockMapping_outline proper (by omega)))
  rw [Document.ofTokens?, fuel_eq]
  simp [root, r]

/-- A printed outline is read as the document of its nodes. -/
theorem read?_print {outline : Outline} (hne : outline ≠ [])
    (proper : ∀ entry ∈ outline, IsEntry entry) : read? (print outline) = some ⟨outlineNode outline, [], []⟩ := by
  rw [read?, tokens?_print hne proper]
  exact ofTokens?_outlineTokens proper

end ComponentForge.Yaml
