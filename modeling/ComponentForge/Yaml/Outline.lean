import ComponentForge.Text.Basic

/-!
# Outlines

The documents that are written: a mapping of keys to scalars and to lists of records, where a
record maps keys to scalars.
-/

namespace ComponentForge.Yaml

inductive Datum where
  | bool (b : Bool)
  | number (n : Nat)
  | string (text : Text)
deriving DecidableEq, Repr

/-- The fields of a record, in order. -/
abbrev Record := List (Text × Datum)

inductive Field where
  | datum (datum : Datum)
  | records (records : List Record)
deriving DecidableEq, Repr

abbrev Outline := List (Text × Field)

end ComponentForge.Yaml
