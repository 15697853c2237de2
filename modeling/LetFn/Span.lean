/-! Byte ranges of a source text. -/

namespace LetFn

/-- The bytes from `start` up to but not including `stop`. Offsets do not wrap around: the texts are
shorter than 4 GiB. -/
structure Span where
  start : Nat
  stop : Nat
  deriving DecidableEq, Repr

namespace Span

/-- The empty range at `offset`. -/
def point (offset : Nat) : Span := ⟨offset, offset⟩

/-- The least range that covers both. -/
def merge (a b : Span) : Span := ⟨min a.start b.start, max a.stop b.stop⟩

def render (s : Span) : String := Nat.repr s.start ++ ".." ++ Nat.repr s.stop

theorem merge_comm (a b : Span) : a.merge b = b.merge a := by
  simp [merge, Nat.min_comm, Nat.max_comm]

end Span

end LetFn
