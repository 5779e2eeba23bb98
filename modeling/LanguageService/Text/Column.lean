import LanguageService.Text.Trim

/-!
# Places on a line

A place on a line is the number of characters before it.  Editors count UTF-16 units instead and
byte-oriented tools UTF-8 bytes; this module converts between the three.

* `column l k`        the UTF-16 column of place `k`
* `place l col`       the first place whose column is at least `col`, the end of the line if none is
* `byteOffset l k`    the bytes before place `k`
* `byteColumn`, `byteIndex`   the same conversions between byte offsets and columns
* `place_column`      a place is found again from its column
* `column_append`, `place_append_width`   the column and the place behind a part of the line
* `column_mono`, `place_mono`, `column_strictMono`   both conversions keep the order
-/

namespace LanguageService

/-- UTF-16 units of one character -/
def units (c : Char) : Nat :=
  if c.toNat < 0x10000 then 1 else 2

/-- UTF-16 units of a text -/
def width : Line → Nat
  | [] => 0
  | c :: l => units c + width l

def column (l : Line) (k : Nat) : Nat :=
  width (l.take k)

def place : Line → Nat → Nat
  | [], _ => 0
  | c :: l, col => if col = 0 then 0 else place l (col - units c) + 1

/-- UTF-8 bytes of a text -/
def byteWidth : Line → Nat
  | [] => 0
  | c :: l => c.utf8Size + byteWidth l

def byteOffset (l : Line) (k : Nat) : Nat :=
  byteWidth (l.take k)

/-- the first place with at least `b` bytes before it, the end of the line if there is none -/
def placeOfByte : Line → Nat → Nat
  | [], _ => 0
  | c :: l, b => if b = 0 then 0 else placeOfByte l (b - c.utf8Size) + 1

/-- the UTF-16 column of a byte offset, the end of the line for an offset beyond it -/
def byteColumn (l : Line) (b : Nat) : Nat :=
  column l (placeOfByte l b)

/-- the byte offset of a UTF-16 column, the end of the line for a column beyond it -/
def byteIndex (l : Line) (col : Nat) : Nat :=
  byteOffset l (place l col)

theorem units_pos (c : Char) : 0 < units c := by
  unfold units
  split <;> omega

theorem width_append (a b : Line) : width (a ++ b) = width a + width b := by
  induction a with
  | nil => simp [width]
  | cons c a ih => simp [width, ih, Nat.add_assoc]

theorem column_zero (l : Line) : column l 0 = 0 := rfl

theorem column_cons_succ (c : Char) (l : Line) (k : Nat) :
    column (c :: l) (k + 1) = units c + column l k := rfl

theorem column_length (l : Line) : column l l.length = width l := by
  rw [column, List.take_length]

theorem place_le_length (l : Line) (col : Nat) : place l col ≤ l.length := by
  induction l generalizing col with
  | nil => exact Nat.le_refl 0
  | cons c l ih =>
    unfold place
    split
    · exact Nat.zero_le _
    · exact Nat.succ_le_succ (ih _)

theorem place_column (l : Line) (k : Nat) (hk : k ≤ l.length) : place l (column l k) = k := by
  induction l generalizing k with
  | nil => exact (Nat.le_zero.mp hk).symm
  | cons c l ih =>
    cases k with
    | zero => rfl
    | succ k =>
      rw [column_cons_succ, place, if_neg (by have := units_pos c; omega),
        Nat.add_sub_cancel_left, ih k (Nat.le_of_succ_le_succ hk)]

theorem column_append (x y : Line) : column (x ++ y) x.length = width x := by
  rw [column, List.take_left]

theorem place_append_width (x y : Line) : place (x ++ y) (width x) = x.length := by
  rw [← column_append x y]
  apply place_column
  rw [List.length_append]
  exact Nat.le_add_right _ _

theorem column_mono (l : Line) {j k : Nat} (h : j ≤ k) : column l j ≤ column l k := by
  induction l generalizing j k with
  | nil => simp [column, width]
  | cons c l ih =>
    cases j with
    | zero => exact Nat.zero_le _
    | succ j =>
      cases k with
      | zero => omega
      | succ k =>
        rw [column_cons_succ, column_cons_succ]
        exact Nat.add_le_add_left (ih (Nat.le_of_succ_le_succ h)) _

theorem place_mono (l : Line) {a b : Nat} (h : a ≤ b) : place l a ≤ place l b := by
  induction l generalizing a b with
  | nil => exact Nat.le_refl 0
  | cons c l ih =>
    unfold place
    split
    · exact Nat.zero_le _
    · rw [if_neg (by omega)]
      exact Nat.succ_le_succ (ih (by omega))

theorem column_strictMono (l : Line) {j k : Nat} (hjk : j < k) (hk : k ≤ l.length) :
    column l j < column l k := by
  apply Nat.lt_of_not_le
  intro hle
  have hplace := place_mono l hle
  rw [place_column l k hk, place_column l j (by omega)] at hplace
  omega

end LanguageService
