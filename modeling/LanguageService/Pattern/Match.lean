import LanguageService.Pattern.Basic

/-!
# Matches of a pattern on a line

* `Match`               a stretch that a pattern fits, with the stretches of its groups
* `Pattern.first?`      the leftmost match
* `Pattern.occurs`      is there a match?
* `Pattern.all`         all matches from left to right, none overlapping another; an empty match
                        is not taken directly behind the match before it
-/

namespace LanguageService

structure Match where
  span : Span
  groups : List (Nat × Span)
deriving DecidableEq, Repr

namespace Match

def isEmpty (m : Match) : Bool :=
  m.span.start == m.span.stop

/-- the stretch that a group of the pattern fitted, if it took part in the match -/
def group? (m : Match) (i : Nat) : Option Span :=
  m.groups.lookup i

/-- the stretch of a group, the whole match for a group that took no part -/
def group (m : Match) (i : Nat) : Span :=
  (m.group? i).getD m.span

end Match

namespace Pattern

/-- the preferred match that begins at the cursor -/
def matchAt? (a : Pattern) (c : Cursor) : Option Match :=
  (a.run ⟨c, []⟩).head?.map fun t => ⟨⟨c.pos, t.cursor.pos⟩, t.groups⟩

/-- the leftmost match in `l`, before which `pos` characters stand -/
def firstFrom (a : Pattern) (pos : Nat) (before : Option Char) : Line → Option Match
  | [] => a.matchAt? ⟨pos, before, []⟩
  | c :: rest =>
    match a.matchAt? ⟨pos, before, c :: rest⟩ with
    | some m => some m
    | none => firstFrom a (pos + 1) (some c) rest

def first? (a : Pattern) (l : Line) : Option Match :=
  a.firstFrom 0 none l

def occurs (a : Pattern) (l : Line) : Bool :=
  (a.first? l).isSome

/-- The match that begins at the cursor, if it may be taken: `touching` says that a match ends
here, behind which an empty one is not taken. -/
def nextAt? (a : Pattern) (touching : Bool) (c : Cursor) : Option Match :=
  (a.matchAt? c).filter fun m => !(touching && m.isEmpty)

/-- The matches in `l`; the last match found covers the next `covered` characters. -/
def matchesFrom (a : Pattern) (pos : Nat) (before : Option Char) (covered : Nat) (touching : Bool) :
    Line → List Match
  | [] => if covered = 0 then (a.nextAt? touching ⟨pos, before, []⟩).toList else []
  | c :: rest =>
    match covered with
    | k + 1 => matchesFrom a (pos + 1) (some c) k touching rest
    | 0 =>
      match a.nextAt? touching ⟨pos, before, c :: rest⟩ with
      | none => matchesFrom a (pos + 1) (some c) 0 false rest
      | some m =>
        m :: matchesFrom a (pos + 1) (some c) (m.span.stop - m.span.start - 1) (!m.isEmpty) rest

def all (a : Pattern) (l : Line) : List Match :=
  a.matchesFrom 0 none 0 false l

end Pattern
end LanguageService
