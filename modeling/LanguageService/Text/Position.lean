import LanguageService.Text.Column

/-!
# Positions and ranges

An editor addresses a document by line number and UTF-16 column, both counted from zero.

* `Position`, `Range`    places and stretches of a document
* `Span`                 a stretch of one line, between two places
* `Span.range`           the range of a span on a given line
* `Range.ofLine`, `Range.ofTrimmed`   a whole line, and a line without its blank margins
-/

namespace LanguageService

structure Position where
  line : Nat
  character : Nat
deriving DecidableEq, Repr

/-- From `start` up to, and not including, `stop`. -/
structure Range where
  start : Position
  stop : Position
deriving DecidableEq, Repr

/-- document order -/
def Position.le (p q : Position) : Bool :=
  p.line < q.line || (p.line == q.line && p.character ≤ q.character)

theorem Position.le_iff {p q : Position} :
    p.le q = true ↔ p.line < q.line ∨ p.line = q.line ∧ p.character ≤ q.character := by
  rw [Position.le, Bool.or_eq_true, Bool.and_eq_true, decide_eq_true_eq, decide_eq_true_eq,
    beq_iff_eq]

/-- Two places on one line, counted in characters. -/
structure Span where
  start : Nat
  stop : Nat
deriving DecidableEq, Repr

namespace Span

/-- the characters between the two places -/
def chars (s : Span) (l : Line) : Line :=
  (l.take s.stop).drop s.start

def text (s : Span) (l : Line) : String :=
  String.ofList (s.chars l)

def range (s : Span) (n : Nat) (l : Line) : Range :=
  ⟨⟨n, column l s.start⟩, ⟨n, column l s.stop⟩⟩

end Span

namespace Range

def ofLine (n : Nat) (l : Line) : Range :=
  Span.range ⟨0, l.length⟩ n l

/-- A blank line has the empty range at its end. -/
def ofTrimmed (n : Nat) (l : Line) : Range :=
  Span.range ⟨indentWidth l, max (trimEnd l).length (indentWidth l)⟩ n l

/-- the whole of a document, from its start to the end of its last line -/
def ofLines (lines : List Line) : Range :=
  ⟨⟨0, 0⟩, ⟨lines.length - 1, (lines.getLast?.map width).getD 0⟩⟩

end Range
end LanguageService
