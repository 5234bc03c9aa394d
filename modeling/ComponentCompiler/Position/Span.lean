/-!
# Spans

A span is a half-open range of byte offsets in a component file.
-/

namespace ComponentCompiler

structure Span where
  start : Nat
  stop : Nat
  deriving DecidableEq, Repr, Inhabited

namespace Span

def emptyAt (offset : Nat) : Span := ⟨offset, offset⟩

def length (s : Span) : Nat := s.stop - s.start

def isEmpty (s : Span) : Bool := s.start = s.stop

def contains (s t : Span) : Bool := s.start ≤ t.start && t.stop ≤ s.stop

def merge (s t : Span) : Span := ⟨min s.start t.start, max s.stop t.stop⟩

def shift (s : Span) (k : Nat) : Span := ⟨s.start + k, s.stop + k⟩

def before (s t : Span) : Bool :=
  s.start < t.start || (s.start = t.start && s.stop < t.stop)

@[simp] theorem shift_merge (s t : Span) (k : Nat) :
    (s.merge t).shift k = (s.shift k).merge (t.shift k) := by
  simp [merge, shift, Nat.add_min_add_right, Nat.add_max_add_right]

end Span

end ComponentCompiler
