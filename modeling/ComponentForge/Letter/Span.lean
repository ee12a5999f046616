/-!
# Spans of code points

Character classes are lists of spans. A span of step two holds every second code point, as in the
alphabets that place each capital next to its small letter.
-/

namespace ComponentForge

structure Span where
  first : Nat
  last : Nat
  step : Nat

namespace Span

def has (s : Span) (n : Nat) : Bool :=
  s.first ≤ n && n ≤ s.last && (n - s.first) % s.step == 0

end Span

end ComponentForge
