import ComponentForge.CommandLine.Reading
import ComponentForge.Failure

/-!
# Consoles

What surrounds a run besides the tree. Whether something may be lost is asked at a console, and its
answer is nothing that the program knows. Nor are the texts its own with which the reader of the
command line explains the commands, completes them and refuses arguments.
-/

namespace ComponentForge

structure Console where
  /-- Standard input is a terminal. -/
  isTerminal : Bool
  /-- Ask for a yes or a no, with no as what is proposed. Without an answer there is a cause. -/
  confirm : (question : Text) → Except Text Bool
  /-- What explains the program, or one of its commands. -/
  help : Option CommandName → Text
  /-- The script with which a shell completes the command line. -/
  completions : Shell → Text
  refusal : Refusal → Text

/-- What goes wrong in a run. -/
inductive Complaint where
  | refused (refusal : Refusal)
  | config (failure : ConfigFailure)
  | project (failure : Failure)
  /-- A question got no answer. -/
  | unconfirmed (cause : Text)
  /-- The configuration could not be written. -/
  | unwritten (path : Path) (cause : Cause)

namespace Complaint

def message (console : Console) : Complaint → Text
  | refused refusal => console.refusal refusal
  | config failure => failure.message
  | project failure => failure.message
  | unconfirmed _ => "Failed to get confirmation".toList
  | unwritten path _ => "Failed to write ".toList ++ path.text

def advice? : Complaint → Option Text
  | config failure => failure.advice?
  | project failure => failure.advice?
  | _ => none

def cause? : Complaint → Option Text
  | unconfirmed cause => some cause
  | _ => none

end Complaint

end ComponentForge
