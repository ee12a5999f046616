import ComponentForge.Path

/-!
# Changes

The log of a run lists what happened to which path, in order.
-/

namespace ComponentForge

inductive Action where
  /-- A file or directory was made. -/
  | create
  /-- An index file was edited. -/
  | update
  /-- Something was there already and stays as it is. -/
  | exists
  /-- A file or directory was removed. -/
  | remove
  /-- An index file to edit was not found. -/
  | missing
deriving DecidableEq, Repr

namespace Action

def name : Action → Text
  | create => "create".toList
  | update => "update".toList
  | .exists => "exists".toList
  | remove => "remove".toList
  | missing => "missing".toList

end Action

structure Change where
  action : Action
  path : Path
deriving DecidableEq, Repr

end ComponentForge
