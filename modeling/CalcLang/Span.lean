import CalcLang.Fault

/-!
# Spans and positions

A `Span` is a half-open range of byte offsets into one text, a `Pos` is a span in one of the
files of a compilation. `Span.cover` is the smallest span around two others; `Span.ofBounds?`
and `Span.merge?` are the forms that refuse to build a span that ends before it starts.
-/

namespace CalcLang

/-- The bytes from `start` up to, and without, `stop`. -/
structure Span where
  start : Nat
  stop : Nat
  deriving DecidableEq, Repr, Inhabited

namespace Span

/-- A span that does not end before it starts. -/
def Ordered (s : Span) : Prop := s.start ≤ s.stop

/-- The span between two offsets, provided that they are in order. -/
def ofBounds? (start stop : Nat) : Except Fault Span :=
  if start ≤ stop then .ok ⟨start, stop⟩ else .error (.invertedSpan start stop)

/-- The smallest span that covers both `a` and `b`. -/
def cover (a b : Span) : Span := ⟨min a.start b.start, max a.stop b.stop⟩

/-- The span that covers both `a` and `b`, provided that its bounds are in order. -/
def merge? (a b : Span) : Except Fault Span :=
  ofBounds? (a.cover b).start (a.cover b).stop

theorem Ordered.cover {a : Span} (h : a.Ordered) (b : Span) : (a.cover b).Ordered := by
  simp only [Ordered, Span.cover] at *
  omega

theorem merge?_of_ordered {a : Span} (h : a.Ordered) (b : Span) :
    a.merge? b = .ok (a.cover b) := by
  have := h.cover b
  simp only [Ordered] at this
  simp [merge?, ofBounds?, this]

end Span

/-- The number of a source file in its compilation. -/
structure FileId where
  index : Nat
  deriving DecidableEq, Repr, Inhabited

/-- A span in a particular file. -/
structure Pos where
  file : FileId
  span : Span
  deriving DecidableEq, Repr, Inhabited

/-- The start of the first file: where a diagnostic about the whole package is put. -/
def Pos.origin : Pos := ⟨⟨0⟩, ⟨0, 0⟩⟩

end CalcLang
