import ComponentForge.Yaml.Printer

/-!
# Tokens

The marks and scalars of a stream, without its white space and comments. Starts and ends of block
collections, which only indentation shows, are tokens of their own.
-/

namespace ComponentForge.Yaml

inductive Token where
  | versionDirective (major minor : Nat)
  | tagDirective (handle lead : Text)
  | documentStart
  | documentEnd
  | blockSequenceStart
  | blockMappingStart
  | blockEnd
  | flowSequenceStart
  | flowSequenceEnd
  | flowMappingStart
  | flowMappingEnd
  | blockEntry
  | flowEntry
  | key
  | value
  | alias (name : Text)
  | anchor (name : Text)
  | tag (handle rest : Text)
  | scalar (style : Style) (text : Text)
deriving DecidableEq, Repr

end ComponentForge.Yaml
