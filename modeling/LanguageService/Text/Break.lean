import LanguageService.Text.Position

/-!
# Line breaks of stored documents

A stored document knows more line breaks than the analysis: CR LF counts as one break, and a line
feed, carriage return, vertical tab, form feed, next line, line separator or paragraph separator
ends a line as well.

* `brokenLines text`        the lines, each with its break
* `charOffset text p`       the number of characters before a position
* `flatten_brokenLines`     the lines make up the text
* `charOffset_le`           a position never leaves the text
-/

namespace LanguageService

/-- does the character end a line by itself? -/
def isBreak (c : Char) : Bool :=
  let n := c.toNat
  (10 ≤ n && n ≤ 13) || n == 0x85 || n == 0x2028 || n == 0x2029

/-- a character in front of the first line -/
def consLine (c : Char) : List Line → List Line
  | [] => [[c]]
  | l :: ls => (c :: l) :: ls

def brokenLines : Line → List Line
  | [] => [[]]
  | '\r' :: '\n' :: rest => ['\r', '\n'] :: brokenLines rest
  | c :: rest => if isBreak c then [c] :: brokenLines rest else consLine c (brokenLines rest)

/-- The place on a line at a column, at the latest before a carriage return or line feed; it lies
behind any other break if the column does. -/
def breakPlace : Line → Nat → Nat
  | [], _ => 0
  | c :: l, col =>
    if col = 0 ∨ c = '\n' ∨ c = '\r' then 0 else breakPlace l (col - units c) + 1

/-- the number of characters before line `n` of some lines and column `col` on it -/
def offsetInLines : List Line → Nat → Nat → Nat
  | [], _, _ => 0
  | l :: _, 0, col => breakPlace l col
  | l :: ls, n + 1, col => l.length + offsetInLines ls n col

/-- The number of characters before a position; a line beyond the last one means the end. -/
def charOffset (text : Line) (p : Position) : Nat :=
  offsetInLines (brokenLines text) p.line p.character

theorem flatten_consLine (c : Char) (ls : List Line) : (consLine c ls).flatten = c :: ls.flatten := by
  cases ls <;> rfl

/-- the lines make up the text -/
theorem flatten_brokenLines (text : Line) : (brokenLines text).flatten = text := by
  fun_induction brokenLines text with
  | case1 => rfl
  | case2 rest ih => rw [List.flatten_cons, ih]; rfl
  | case3 c rest _ h ih => rw [List.flatten_cons, ih]; rfl
  | case4 c rest _ h ih => rw [flatten_consLine, ih]

theorem brokenLines_ne_nil (text : Line) : brokenLines text ≠ [] := by
  fun_cases brokenLines text with
  | case1 => exact List.cons_ne_nil _ _
  | case2 rest => exact List.cons_ne_nil _ _
  | case3 c rest => exact List.cons_ne_nil _ _
  | case4 c rest =>
    unfold consLine
    split
    · exact List.cons_ne_nil _ _
    · exact List.cons_ne_nil _ _

theorem breakPlace_le (l : Line) (col : Nat) : breakPlace l col ≤ l.length := by
  induction l generalizing col with
  | nil => exact Nat.le_refl 0
  | cons c l ih =>
    unfold breakPlace
    split
    · exact Nat.zero_le _
    · exact Nat.succ_le_succ (ih _)

/-- a place on a line is never behind a line feed or carriage return of that line -/
theorem ne_of_mem_take_breakPlace {l : Line} {col : Nat} {c : Char}
    (h : c ∈ l.take (breakPlace l col)) : c ≠ '\n' ∧ c ≠ '\r' := by
  induction l generalizing col with
  | nil => exact absurd h List.not_mem_nil
  | cons d l ih =>
    unfold breakPlace at h
    split at h
    · exact absurd h List.not_mem_nil
    · next hd =>
      rw [not_or, not_or] at hd
      rcases List.mem_cons.mp h with rfl | h
      · exact hd.2
      · exact ih h

theorem offsetInLines_le (ls : List Line) (n col : Nat) :
    offsetInLines ls n col ≤ ls.flatten.length := by
  induction ls generalizing n with
  | nil => exact Nat.le_refl 0
  | cons l ls ih =>
    rw [List.flatten_cons, List.length_append]
    cases n with
    | zero => exact Nat.le_trans (breakPlace_le l col) (Nat.le_add_right _ _)
    | succ n => exact Nat.add_le_add_left (ih n) _

theorem charOffset_le (text : Line) (p : Position) : charOffset text p ≤ text.length := by
  have := offsetInLines_le (brokenLines text) p.line p.character
  rwa [flatten_brokenLines] at this

end LanguageService
