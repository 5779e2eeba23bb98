import Mathlib.Data.List.Induction
import LanguageService.Text.Position

/-!
# Cuts between characters

An offset into a line is counted in UTF-8 bytes or in UTF-16 units.  A line can only be cut between
two characters, and an offset that lies inside a character, or beyond the end of the line, is no
place to cut at.

* `cutAt? l b`              a line cut behind its first `b` bytes
* `slice? l i j`            the text between two byte offsets
* `byteRange? n l i j`      the range between two byte offsets
* `cutAt?_eq_some_iff`, `slice?_between`   the offsets of a cut are the widths of what stands before
* `charIndices l`           the characters of a line behind their byte offsets
* `runIndex? p l`           where the run of a class at the end of a line begins
* `Position.OnText`, `Range.OnText`   places and stretches of text on one line
-/

namespace LanguageService

/-! ## byte offsets -/

/-- The line in two parts, of which the first has `b` bytes; nothing if there is no such cut. -/
def cutAt? : Line → Nat → Option (Line × Line)
  | l, 0 => some ([], l)
  | [], _ + 1 => none
  | c :: l, b + 1 =>
    if b + 1 < c.utf8Size then none
    else (cutAt? l (b + 1 - c.utf8Size)).map fun parts => (c :: parts.1, parts.2)

/-- the text from one byte offset to another -/
def slice? (l : Line) (i j : Nat) : Option Line :=
  (cutAt? l j).bind fun parts => (cutAt? parts.1 i).map Prod.snd

/-- the UTF-16 column of a byte offset, if the line can be cut there -/
def utf16Column? (l : Line) (b : Nat) : Option Nat :=
  (cutAt? l b).map fun parts => width parts.1

/-- a difference of offsets, if it is not negative -/
def difference? (a b : Nat) : Option Nat :=
  if b ≤ a then some (a - b) else none

/-- the range between two byte offsets of line `n`, if the line can be cut at both -/
def byteRange? (n : Nat) (l : Line) (i j : Nat) : Option Range :=
  (utf16Column? l i).bind fun a => (utf16Column? l j).map fun b => ⟨⟨n, a⟩, ⟨n, b⟩⟩

theorem byteWidth_append (a b : Line) : byteWidth (a ++ b) = byteWidth a + byteWidth b := by
  induction a with
  | nil => rw [byteWidth, Nat.zero_add, List.nil_append]
  | cons c a ih => rw [List.cons_append, byteWidth, byteWidth, ih, Nat.add_assoc]

theorem cutAt?_append (x y : Line) : cutAt? (x ++ y) (byteWidth x) = some (x, y) := by
  induction x with
  | nil => rw [List.nil_append, byteWidth, cutAt?]
  | cons c x ih =>
    obtain ⟨b, hb⟩ : ∃ b, byteWidth (c :: x) = b + 1 :=
      Nat.exists_eq_succ_of_ne_zero (by have := c.utf8Size_pos; rw [byteWidth]; omega)
    rw [byteWidth] at hb
    rw [byteWidth, hb, List.cons_append, cutAt?, if_neg (by omega), ← hb, Nat.add_sub_cancel_left,
      ih]
    rfl

theorem eq_of_cutAt? {l x y : Line} {b : Nat} (h : cutAt? l b = some (x, y)) :
    l = x ++ y ∧ b = byteWidth x := by
  fun_induction cutAt? l b generalizing x with
  | case1 l =>
    obtain ⟨rfl, rfl⟩ := Prod.mk.inj (Option.some.inj h)
    exact ⟨rfl, rfl⟩
  | case2 b => cases h
  | case3 c l b hlt => cases h
  | case4 c l b hle ih =>
    obtain ⟨⟨x, y⟩, hcut, heq⟩ := Option.map_eq_some_iff.mp h
    obtain ⟨rfl, rfl⟩ := Prod.mk.inj heq
    obtain ⟨rfl, hb⟩ := ih hcut
    refine ⟨rfl, ?_⟩
    show b + 1 = c.utf8Size + byteWidth x
    omega

/-- a line is cut behind `b` bytes exactly into a part of `b` bytes and the rest -/
theorem cutAt?_eq_some_iff {l x y : Line} {b : Nat} :
    cutAt? l b = some (x, y) ↔ l = x ++ y ∧ b = byteWidth x := by
  constructor
  · exact eq_of_cutAt?
  · rintro ⟨rfl, rfl⟩
    exact cutAt?_append x y

theorem slice?_between (x m y : Line) :
    slice? (x ++ (m ++ y)) (byteWidth x) (byteWidth x + byteWidth m) = some m := by
  rw [slice?, ← byteWidth_append, ← List.append_assoc, cutAt?_append]
  show (cutAt? (x ++ m) (byteWidth x)).map Prod.snd = some m
  rw [cutAt?_append]
  rfl

theorem cutAt?_byteOffset (l : Line) (k : Nat) :
    cutAt? l (byteOffset l k) = some (l.take k, l.drop k) := by
  have h := cutAt?_append (l.take k) (l.drop k)
  rwa [List.take_append_drop] at h

theorem utf16Column?_byteOffset (l : Line) (k : Nat) :
    utf16Column? l (byteOffset l k) = some (column l k) := by
  rw [utf16Column?, cutAt?_byteOffset]
  rfl

theorem difference?_of_le {a b : Nat} (h : b ≤ a) : difference? a b = some (a - b) :=
  if_pos h

theorem byteRange?_byteOffset (n : Nat) (l : Line) (s : Span) :
    byteRange? n l (byteOffset l s.start) (byteOffset l s.stop) = some (s.range n l) := by
  rw [byteRange?, utf16Column?_byteOffset, utf16Column?_byteOffset]
  rfl

theorem byteOffset_append (x y : Line) : byteOffset (x ++ y) x.length = byteWidth x := by
  rw [byteOffset, List.take_left]

theorem byteOffset_between (x m y : Line) {k : Nat} (hk : k ≤ m.length) :
    byteOffset (x ++ (m ++ y)) (x.length + k) = byteWidth x + byteOffset m k := by
  rw [byteOffset, List.take_length_add_append, byteWidth_append, List.take_append_of_le_length hk,
    byteOffset]

theorem byteOffset_mono (l : Line) {j k : Nat} (h : j ≤ k) : byteOffset l j ≤ byteOffset l k := by
  have hsplit := congrArg byteWidth (List.take_append_drop j (l.take k))
  rw [byteWidth_append, List.take_take, Nat.min_eq_left h] at hsplit
  rw [byteOffset, byteOffset]
  omega

theorem byteRange?_between (n : Nat) (x m y : Line) :
    byteRange? n (x ++ (m ++ y)) (byteWidth x) (byteWidth x + byteWidth m) =
      some (Span.range ⟨x.length, x.length + m.length⟩ n (x ++ (m ++ y))) := by
  have h := byteRange?_byteOffset n (x ++ (m ++ y)) ⟨x.length, x.length + m.length⟩
  have hm : byteOffset m m.length = byteWidth m := by rw [byteOffset, List.take_length]
  rw [← h, byteOffset_append, byteOffset_between x m y (Nat.le_refl _), hm]

theorem byteWidth_eq_zero_iff {x : Line} : byteWidth x = 0 ↔ x = [] := by
  cases x with
  | nil => exact iff_of_true rfl rfl
  | cons c x =>
    have := c.utf8Size_pos
    refine iff_of_false ?_ (List.cons_ne_nil c x)
    rw [byteWidth]
    omega

/-! ## characters with their byte offsets -/

/-- the characters of a line behind their byte offsets, `b` bytes standing before the line -/
def charIndicesFrom (b : Nat) : Line → List (Nat × Char)
  | [] => []
  | c :: l => (b, c) :: charIndicesFrom (b + c.utf8Size) l

def charIndices (l : Line) : List (Nat × Char) :=
  charIndicesFrom 0 l

theorem charIndicesFrom_append (b : Nat) (x y : Line) :
    charIndicesFrom b (x ++ y) = charIndicesFrom b x ++ charIndicesFrom (b + byteWidth x) y := by
  induction x generalizing b with
  | nil => rfl
  | cons c x ih => rw [List.cons_append, charIndicesFrom, ih, charIndicesFrom, byteWidth,
      Nat.add_assoc, List.cons_append]

theorem charIndices_concat (x : Line) (c : Char) :
    charIndices (x ++ [c]) = charIndices x ++ [(byteWidth x, c)] := by
  rw [charIndices, charIndicesFrom_append, Nat.zero_add]
  rfl

theorem find?_charIndices (p : Char → Bool) (l : Line) (b : Nat) :
    (((charIndicesFrom b l).find? fun x => !p x.2).map Prod.fst).getD (b + byteWidth l) =
      b + byteWidth (l.takeWhile p) := by
  induction l generalizing b with
  | nil => rfl
  | cons c l ih =>
    rw [charIndicesFrom, List.find?_cons, List.takeWhile_cons]
    cases hc : p c with
    | false => rfl
    | true =>
      simp only [Bool.not_true, if_true]
      rw [byteWidth, byteWidth, ← Nat.add_assoc, ih, Nat.add_assoc]

/-- the characters of a class behind a place, up to the first that is not in it -/
theorem slice?_run (p : Char → Bool) (l : Line) (k : Nat) :
    slice? l (byteOffset l k) ((((charIndicesFrom (byteOffset l k) (l.drop k)).find? fun x =>
      !p x.2).map Prod.fst).getD (byteWidth l)) = some ((l.drop k).takeWhile p) := by
  have hwidth : byteWidth l = byteOffset l k + byteWidth (l.drop k) := by
    rw [byteOffset, ← byteWidth_append, List.take_append_drop]
  have hslice := slice?_between (l.take k) ((l.drop k).takeWhile p) ((l.drop k).dropWhile p)
  rw [List.takeWhile_append_dropWhile, List.take_append_drop] at hslice
  rw [hwidth, find?_charIndices]
  exact hslice

/-- the byte offset at which the run of a class at the end of a text begins, if there is one -/
def runIndex? (p : Char → Bool) (x : Line) : Option Nat :=
  ((charIndices x).reverse.takeWhile fun k => p k.2).getLast?.map Prod.fst

theorem runIndex?_concat (p : Char → Bool) (x : Line) (c : Char) :
    runIndex? p (x ++ [c]) =
      if p c then some ((runIndex? p x).getD (byteWidth x)) else none := by
  rw [runIndex?, charIndices_concat, List.reverse_append, List.reverse_singleton,
    List.singleton_append, List.takeWhile_cons]
  split
  · rw [List.getLast?_cons, Option.map_some, runIndex?]
    cases ((charIndices x).reverse.takeWhile fun k => p k.2).getLast? <;> rfl
  · rfl

theorem append_run (p : Char → Bool) (x : Line) :
    (x.reverse.dropWhile p).reverse ++ (x.reverse.takeWhile p).reverse = x := by
  rw [← List.reverse_append, List.takeWhile_append_dropWhile, List.reverse_reverse]

theorem runIndex?_getD (p : Char → Bool) (x : Line) :
    (runIndex? p x).getD (byteWidth x) = byteWidth (x.reverse.dropWhile p).reverse := by
  induction x using List.reverseRecOn with
  | nil => rfl
  | append_singleton x c ih =>
    rw [runIndex?_concat, List.reverse_append, List.reverse_singleton, List.singleton_append,
      List.dropWhile_cons]
    split
    · exact ih
    · rw [List.reverse_cons, List.reverse_reverse]
      rfl

theorem runIndex?_eq (p : Char → Bool) (x : Line) :
    runIndex? p x = if (x.reverse.takeWhile p).isEmpty then none
      else some (byteWidth (x.reverse.dropWhile p).reverse) := by
  rcases List.eq_nil_or_concat x with rfl | ⟨x, c, rfl⟩
  · rfl
  · rw [List.concat_eq_append, runIndex?_concat, runIndex?_getD, List.reverse_append,
      List.reverse_singleton, List.singleton_append, List.takeWhile_cons, List.dropWhile_cons]
    split
    · rfl
    · rfl

/-! ## UTF-16 columns -/

/-- The column lies between the two units of a character. -/
def SplitsPair (l : Line) (col : Nat) : Prop :=
  ∃ before c after, l = before ++ c :: after ∧ width before < col ∧ col < width before + units c

/-- an existing line, and a column of it that splits no character -/
def Position.OnText (lines : List Line) (p : Position) : Prop :=
  ∃ l, lines[p.line]? = some l ∧ p.character ≤ width l ∧ ¬ SplitsPair l p.character

/-- A stretch of text on one line. -/
structure Range.OnText (lines : List Line) (r : Range) : Prop where
  start : r.start.OnText lines
  stop : r.stop.OnText lines
  oneLine : r.stop.line = r.start.line
  ordered : r.start.character ≤ r.stop.character

theorem column_le_width (l : Line) (k : Nat) : column l k ≤ width l := by
  rcases Nat.le_total k l.length with h | h
  · rw [← column_length]
    exact column_mono l h
  · exact Nat.le_of_eq (by rw [column, List.take_of_length_le h])

theorem not_splitsPair_column (l : Line) (k : Nat) : ¬ SplitsPair l (column l k) := by
  rintro ⟨before, c, after, rfl, hlt, hgt⟩
  have hbefore : width before = column (before ++ c :: after) before.length := by
    rw [column, List.take_left]
  have hbehind : width before + units c = column (before ++ c :: after) (before.length + 1) := by
    rw [column, List.take_length_add_append, width_append]
    rfl
  rw [hbefore] at hlt
  rw [hbehind] at hgt
  rcases Nat.lt_or_ge before.length k with h | h
  · exact absurd (column_mono _ (Nat.succ_le_of_lt h)) (Nat.not_le_of_gt hgt)
  · exact absurd (column_mono _ h) (Nat.not_le_of_gt hlt)

theorem column_onText {lines : List Line} {n : Nat} {l : Line} (hl : lines[n]? = some l)
    (k : Nat) : (⟨n, column l k⟩ : Position).OnText lines :=
  ⟨l, hl, column_le_width l k, not_splitsPair_column l k⟩

theorem Span.range_onText {lines : List Line} {n : Nat} {l : Line} (hl : lines[n]? = some l)
    {s : Span} (h : s.start ≤ s.stop) : (s.range n l).OnText lines where
  start := column_onText hl s.start
  stop := column_onText hl s.stop
  oneLine := rfl
  ordered := column_mono l h

end LanguageService
