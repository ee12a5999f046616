import ComponentForge.Change

/-!
# Reports

The log of a run as it is printed, one line for each change.
-/

namespace ComponentForge

namespace Change

/-- One line of a report: the action, right-aligned to eight places, and the path. -/
def reportLine (change : Change) : Text :=
  let action := change.action.name
  List.replicate (8 - action.length) ' ' ++ action ++ "  ".toList ++ change.path.display ++ ['\n']

def report : List Change → Text
  | [] => "Nothing to do.\n".toList
  | log => log.flatMap reportLine

end Change

end ComponentForge
