import ComponentForge.Text.Basic

/-!
# Trees

A project tree maps routes to nodes. A route lists the names from the root down; the root is the
empty route and always a directory. The look-up `get?` is the view through which a tree is
described: `set` changes it at one route, `prune` clears a route and all routes below it.
-/

namespace ComponentForge

/-- What a file holds: text, or bytes that are not the UTF-8 encoding of any text. -/
inductive Content where
  | text (text : Text)
  | bytes (bytes : List UInt8)
deriving DecidableEq

namespace Content

def ofBytes (bytes : ByteArray) : Content :=
  match String.fromUTF8? bytes with
  | some s => .text s.toList
  | none => .bytes bytes.toList

end Content

inductive Node where
  | dir
  | file (content : Content)
  /-- A symbolic link, with the path that it leads to. -/
  | link (target : Text)
deriving DecidableEq

abbrev Route := List Text

structure Tree where
  entries : List (Route × Node)

namespace Tree

def empty : Tree :=
  ⟨[]⟩

def get? (t : Tree) (r : Route) : Option Node :=
  if r = [] then some .dir else t.entries.lookup r

def set (t : Tree) (r : Route) (node : Node) : Tree :=
  ⟨(r, node) :: t.entries.filter (fun e => e.1 != r)⟩

/-- Remove what stands at `r` and everything below it. -/
def prune (t : Tree) (r : Route) : Tree :=
  ⟨t.entries.filter (fun e => !r.isPrefixOf e.1)⟩

/-- Remove everything below `r`. -/
def clear (t : Tree) (r : Route) : Tree :=
  ⟨t.entries.filter (fun e => e.1 == r || !r.isPrefixOf e.1)⟩

theorem lookup_filter {p : Route → Bool} {r : Route} (entries : List (Route × Node)) :
    (entries.filter (fun e => p e.1)).lookup r = if p r then entries.lookup r else none := by
  induction entries with
  | nil => simp
  | cons e rest ih =>
    obtain ⟨s, node⟩ := e
    by_cases hs : r = s
    · subst hs
      by_cases hp : p r <;> simp [hp, ih]
    · have : (r == s) = false := by simp [hs]
      by_cases hp : p s <;> simp [hp, ih, List.lookup_cons, this]

theorem get?_set (t : Tree) {r : Route} (hr : r ≠ []) (node : Node) (s : Route) :
    (t.set r node).get? s = if s = r then some node else t.get? s := by
  by_cases hs : s = []
  · subst hs
    simp [get?, Ne.symm hr]
  · by_cases h : s = r
    · simp [get?, set, h, hr]
    · have hb : (s == r) = false := by simp [h]
      simp [get?, set, hs, h, List.lookup_cons, hb, lookup_filter (p := (· != r))]

theorem get?_prune (t : Tree) (r s : Route) (hs : s ≠ []) :
    (t.prune r).get? s = if r.isPrefixOf s then none else t.get? s := by
  simp only [get?, prune, hs, if_false, lookup_filter (p := fun s => !r.isPrefixOf s)]
  cases r.isPrefixOf s <;> simp

end Tree

end ComponentForge
