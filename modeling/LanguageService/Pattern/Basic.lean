import LanguageService.Text.Position

/-!
# Patterns

A pattern describes stretches of one line.  Where several readings of a line fit, the first in
order of preference is taken: an alternative prefers its left side, a repetition prefers more.

* `Pattern`          the language of patterns
* `Pattern.run`      all readings from a given place, best first
* `Pattern.literal`, `Pattern.anyOf`, `Pattern.optional`   derived patterns
* `Cursor.advance`   moving a cursor over some characters
-/

namespace LanguageService

/-- A place on a line: how many characters stand before it, the last of them, and the text after
it. -/
structure Cursor where
  pos : Nat
  before : Option Char
  rest : Line

/-- Exactly one of the neighbouring characters is a word character; the ends of the line count as
none. -/
def Cursor.isWordEdge (c : Cursor) : Bool :=
  c.before.any isWord != c.rest.head?.any isWord

/-- the cursor after `k` more characters, at the end of the line if there are fewer -/
def Cursor.advance : Nat → Cursor → Cursor
  | 0, c => c
  | _ + 1, ⟨pos, before, []⟩ => ⟨pos, before, []⟩
  | k + 1, ⟨pos, _, c :: rest⟩ => advance k ⟨pos + 1, some c, rest⟩

inductive Pattern where
  /-- the empty stretch -/
  | empty
  /-- one character of a class -/
  | one (p : Char → Bool)
  /-- any number of characters of a class -/
  | many (p : Char → Bool)
  /-- the empty stretch between a word character and something else -/
  | wordEdge
  /-- the empty stretch at the start of the line -/
  | lineStart
  /-- the empty stretch at the end of the line -/
  | lineEnd
  | seq (a b : Pattern)
  | alt (a b : Pattern)
  /-- any number of repetitions, none of them empty -/
  | star (a : Pattern)
  /-- a pattern whose stretch is remembered under a number -/
  | group (i : Nat) (a : Pattern)

/-- A reading under way: where it has come to, and the groups it has closed, last first. -/
structure Reading where
  cursor : Cursor
  groups : List (Nat × Span)

namespace Pattern

/-- The places reached by consuming characters of a class, farthest first, then `acc`. -/
def manyFrom (p : Char → Bool) (pos : Nat) (before : Option Char) (acc : List Cursor) :
    Line → List Cursor
  | [] => ⟨pos, before, []⟩ :: acc
  | c :: rest =>
    if p c then manyFrom p (pos + 1) (some c) (⟨pos, before, c :: rest⟩ :: acc) rest
    else ⟨pos, before, c :: rest⟩ :: acc

/-- At most `fuel` non-empty steps, more of them first. -/
def starFrom (step : Reading → List Reading) : Nat → Reading → List Reading
  | 0, s => [s]
  | fuel + 1, s =>
    ((step s).filter fun t => t.cursor.rest.length < s.cursor.rest.length).flatMap
      (starFrom step fuel) ++ [s]

/-- All readings of a pattern from where `s` has come to, best first. -/
def run : Pattern → Reading → List Reading
  | empty, s => [s]
  | one p, s =>
    match s.cursor.rest with
    | [] => []
    | c :: rest => if p c then [{ s with cursor := ⟨s.cursor.pos + 1, some c, rest⟩ }] else []
  | many p, s =>
    (manyFrom p s.cursor.pos s.cursor.before [] s.cursor.rest).map fun c => { s with cursor := c }
  | wordEdge, s => if s.cursor.isWordEdge then [s] else []
  | lineStart, s => if s.cursor.pos = 0 then [s] else []
  | lineEnd, s => if s.cursor.rest.isEmpty then [s] else []
  | seq a b, s => (run a s).flatMap (run b)
  | alt a b, s => run a s ++ run b s
  | star a, s => starFrom (run a) s.cursor.rest.length s
  | group i a, s =>
    (run a s).map fun t => { t with groups := (i, ⟨s.cursor.pos, t.cursor.pos⟩) :: t.groups }

/-- exactly this text -/
def literal : Line → Pattern
  | [] => empty
  | [c] => one (· == c)
  | c :: rest => seq (one (· == c)) (literal rest)

/-- one of several patterns, earlier ones preferred -/
def anyOf : List Pattern → Pattern
  | [] => one fun _ => false
  | [a] => a
  | a :: rest => alt a (anyOf rest)

/-- one pattern after the other -/
def inOrder : List Pattern → Pattern
  | [] => empty
  | [a] => a
  | a :: rest => seq a (inOrder rest)

/-- the pattern, or else the empty stretch -/
def optional (a : Pattern) : Pattern :=
  alt a empty

/-- at least one character of a class -/
def many1 (p : Char → Bool) : Pattern :=
  seq (one p) (many p)

/-- a pattern a given number of times -/
def times (n : Nat) (a : Pattern) : Pattern :=
  inOrder (List.replicate n a)

/-- how many groups a pattern numbers -/
def groupCount : Pattern → Nat
  | seq a b | alt a b => max a.groupCount b.groupCount
  | star a => a.groupCount
  | group i a => max i a.groupCount
  | _ => 0

end Pattern
end LanguageService
