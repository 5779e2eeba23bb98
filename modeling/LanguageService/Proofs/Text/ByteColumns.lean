import Mathlib.Data.Nat.Basic
import Mathlib.Order.Bounds.Defs
import Mathlib.Order.Monotone.Defs
import LanguageService.Proofs.Text.Cuts

/-!
# Columns of byte offsets

A column counts the UTF-16 units of what stands before it, an offset the UTF-8 bytes.  Between two
characters each is found again from the other.  A column inside a character is no place to cut at,
and goes up to the end of the character; a column beyond the end of the line goes back to it.

* `IsBoundary l b`, `IsColumn l col`   offsets and columns between characters
* `byteColumn_append`, `byteIndex_append`   both conversions behind a part of the line
* `place_le_iff`                     which places reach a column
* `isLeast_byteColumn_byteIndex`     a column goes up to the next one between characters
* `byteIndexInWords_eq`, `byteColumnInWords?_iff`   counts in 32-bit words do not overflow
* `byteColumns_spec`                 all of it together
-/

namespace LanguageService

/-- The line can be cut behind its first `b` bytes. -/
def IsBoundary (l : Line) (b : Nat) : Prop :=
  ∃ x y, l = x ++ y ∧ byteWidth x = b

/-- The line can be cut behind its first `col` units. -/
def IsColumn (l : Line) (col : Nat) : Prop :=
  ∃ x y, l = x ++ y ∧ width x = col

theorem isBoundary_byteOffset (l : Line) (k : Nat) : IsBoundary l (byteOffset l k) :=
  ⟨l.take k, l.drop k, (List.take_append_drop k l).symm, rfl⟩

theorem isColumn_column (l : Line) (k : Nat) : IsColumn l (column l k) :=
  ⟨l.take k, l.drop k, (List.take_append_drop k l).symm, rfl⟩

/-! ## the place of a byte offset -/

theorem placeOfByte_append (x y : Line) : placeOfByte (x ++ y) (byteWidth x) = x.length := by
  induction x with
  | nil => cases y <;> rfl
  | cons c x ih =>
    have := c.utf8Size_pos
    show placeOfByte (c :: (x ++ y)) (c.utf8Size + byteWidth x) = x.length + 1
    rw [placeOfByte, if_neg (by omega), Nat.add_sub_cancel_left, ih]

theorem placeOfByte_of_le {l : Line} {b : Nat} (h : byteWidth l ≤ b) :
    placeOfByte l b = l.length := by
  induction l generalizing b with
  | nil => rfl
  | cons c l ih =>
    have := c.utf8Size_pos
    replace h : c.utf8Size + byteWidth l ≤ b := h
    rw [placeOfByte, if_neg (by omega), ih (by omega), List.length_cons]

theorem placeOfByte_mono (l : Line) {a b : Nat} (h : a ≤ b) :
    placeOfByte l a ≤ placeOfByte l b := by
  induction l generalizing a b with
  | nil => exact Nat.le_refl 0
  | cons c l ih =>
    unfold placeOfByte
    split
    · exact Nat.zero_le _
    · rw [if_neg (by omega)]
      exact Nat.succ_le_succ (ih (by omega))

/-! ## there and back again -/

theorem byteColumn_append (x y : Line) : byteColumn (x ++ y) (byteWidth x) = width x := by
  rw [byteColumn, placeOfByte_append, column_append]

theorem byteIndex_append (x y : Line) : byteIndex (x ++ y) (width x) = byteWidth x := by
  rw [byteIndex, place_append_width, byteOffset_append]

theorem byteColumn_byteOffset (l : Line) (k : Nat) :
    byteColumn l (byteOffset l k) = column l k := by
  have h := byteColumn_append (l.take k) (l.drop k)
  rwa [List.take_append_drop] at h

theorem byteColumn_of_le {l : Line} {b : Nat} (h : byteWidth l ≤ b) :
    byteColumn l b = width l := by
  rw [byteColumn, placeOfByte_of_le h, column_length]

theorem byteIndex_byteColumn {l : Line} {b : Nat} (h : IsBoundary l b) :
    byteIndex l (byteColumn l b) = b := by
  obtain ⟨x, y, rfl, rfl⟩ := h
  rw [byteColumn_append, byteIndex_append]

theorem byteColumn_mono (l : Line) : Monotone (byteColumn l) :=
  fun _ _ h => column_mono l (placeOfByte_mono l h)

theorem byteIndex_mono (l : Line) : Monotone (byteIndex l) :=
  fun _ _ h => byteOffset_mono l (place_mono l h)

/-! ## rounding -/

/-- the places from that of a column on are those with at least this column -/
theorem place_le_iff {l : Line} {col : Nat} (h : col ≤ width l) (k : Nat) :
    place l col ≤ k ↔ col ≤ column l k := by
  induction l generalizing col k with
  | nil =>
    have hcol : col = 0 := Nat.le_zero.mp h
    simp [place, hcol]
  | cons c l ih =>
    replace h : col ≤ units c + width l := h
    by_cases hcol : col = 0
    · simp [place, hcol]
    · rw [place, if_neg hcol]
      cases k with
      | zero => simp [column_zero, hcol]
      | succ k =>
        have hrest : place l (col - units c) ≤ k ↔ col - units c ≤ column l k := ih (by omega) k
        rw [column_cons_succ]
        omega

/-- A column goes up to the next one between two characters. -/
theorem isLeast_byteColumn_byteIndex {l : Line} {col : Nat} (h : col ≤ width l) :
    IsLeast {k | IsColumn l k ∧ col ≤ k} (byteColumn l (byteIndex l col)) := by
  rw [byteIndex, byteColumn_byteOffset]
  refine ⟨⟨isColumn_column l _, (place_le_iff h _).mp (Nat.le_refl _)⟩, fun k hk => ?_⟩
  obtain ⟨⟨x, y, rfl, rfl⟩, hle⟩ := hk
  rw [← column_append x y] at hle ⊢
  exact column_mono _ ((place_le_iff h _).mpr hle)

theorem byteColumn_byteIndex_of_lt {l : Line} {col : Nat} (h : width l < col) :
    byteColumn l (byteIndex l col) = width l := by
  have hend : l.length ≤ place l col := by
    rw [← place_column l l.length (Nat.le_refl _), column_length]
    exact place_mono l (Nat.le_of_lt h)
  rw [byteIndex, byteColumn_byteOffset, column, List.take_of_length_le hend]

/-! ## counts in 32-bit words -/

/-- The search for a column in the rest of a line, `n` units and `b` bytes standing before it. -/
def byteIndexInWordsFrom (col n : UInt32) (b : Nat) : Line → Nat
  | [] => b
  | c :: l =>
    if col ≤ n then b
    else byteIndexInWordsFrom col (n + UInt32.ofNat (units c)) (b + c.utf8Size) l

/-- `byteIndex`, with the units counted in a 32-bit word -/
def byteIndexInWords (l : Line) (col : UInt32) : Nat :=
  byteIndexInWordsFrom col 0 0 l

/-- `byteColumn`, with the units counted in a 32-bit word; nothing if the line cannot be cut there -/
def byteColumnInWords? (l : Line) (b : Nat) : Option UInt32 :=
  (cutAt? l (min b (byteWidth l))).map fun parts => UInt32.ofNat (width parts.1)

theorem byteIndex_cons (c : Char) (l : Line) (col : Nat) :
    byteIndex (c :: l) col = if col = 0 then 0 else c.utf8Size + byteIndex l (col - units c) := by
  rw [byteIndex, place]
  split
  · rfl
  · rfl

/-- One step of the search does not overflow, as the units of the whole line fit into a word. -/
theorem toNat_add_units {n : UInt32} {c : Char} (h : n.toNat + units c < UInt32.size) :
    (n + UInt32.ofNat (units c)).toNat = n.toNat + units c := by
  have hunits : (UInt32.ofNat (units c)).toNat = units c :=
    UInt32.toNat_ofNat_of_lt' (by omega)
  rw [UInt32.toNat_add, hunits, Nat.mod_eq_of_lt h]

theorem byteIndexInWordsFrom_eq {l : Line} {n : UInt32} (h : n.toNat + width l < UInt32.size)
    (col : UInt32) (b : Nat) :
    byteIndexInWordsFrom col n b l = b + byteIndex l (col.toNat - n.toNat) := by
  induction l generalizing n b with
  | nil => rfl
  | cons c l ih =>
    replace h : n.toNat + (units c + width l) < UInt32.size := h
    have hn : (n + UInt32.ofNat (units c)).toNat = n.toNat + units c :=
      toNat_add_units (by omega)
    rw [byteIndexInWordsFrom, byteIndex_cons]
    by_cases hcol : col.toNat ≤ n.toNat
    · rw [if_pos (UInt32.le_iff_toNat_le.mpr hcol), if_pos (by omega), Nat.add_zero]
    · rw [if_neg (mt UInt32.le_iff_toNat_le.mp hcol), if_neg (by omega), ih (by omega), hn,
        Nat.sub_sub, Nat.add_assoc]

theorem byteIndexInWords_eq {l : Line} (h : width l < UInt32.size) (col : UInt32) :
    byteIndexInWords l col = byteIndex l col.toNat := by
  rw [byteIndexInWords, byteIndexInWordsFrom_eq (by simpa using h)]
  simp

theorem isBoundary_min_iff (l : Line) (b : Nat) :
    IsBoundary l (min b (byteWidth l)) ↔ IsBoundary l b ∨ byteWidth l < b := by
  rcases Nat.lt_or_ge (byteWidth l) b with h | h
  · rw [Nat.min_eq_right (Nat.le_of_lt h)]
    exact iff_of_true ⟨l, [], (List.append_nil l).symm, rfl⟩ (Or.inr h)
  · rw [Nat.min_eq_left h]
    exact (or_iff_left (Nat.not_lt.mpr h)).symm

theorem byteColumn_min (l : Line) (b : Nat) :
    byteColumn l (min b (byteWidth l)) = byteColumn l b := by
  rcases Nat.le_total (byteWidth l) b with h | h
  · rw [Nat.min_eq_right h, byteColumn_of_le h, byteColumn_of_le (Nat.le_refl _)]
  · rw [Nat.min_eq_left h]

/-- The count of a column fits into a word, and it is made exactly between characters and beyond
the end. -/
theorem byteColumnInWords?_iff {l : Line} (h : width l < UInt32.size) (b col : Nat) :
    (byteColumnInWords? l b).map UInt32.toNat = some col ↔
      (IsBoundary l b ∨ byteWidth l < b) ∧ byteColumn l b = col := by
  have hcount : ∀ x y, l = x ++ y → (UInt32.ofNat (width x)).toNat = width x := by
    intro x y hl
    rw [hl, width_append] at h
    exact UInt32.toNat_ofNat_of_lt' (by omega)
  rw [← isBoundary_min_iff, ← byteColumn_min, byteColumnInWords?, Option.map_map]
  generalize min b (byteWidth l) = b
  refine ⟨fun hcol => ?_, fun hcol => ?_⟩
  · obtain ⟨⟨x, y⟩, hcut, rfl⟩ := Option.map_eq_some_iff.mp hcol
    obtain ⟨hl, rfl⟩ := cutAt?_eq_some_iff.mp hcut
    show IsBoundary l (byteWidth x) ∧ byteColumn l (byteWidth x) = (UInt32.ofNat (width x)).toNat
    rw [hcount x y hl]
    exact ⟨⟨x, y, hl, rfl⟩, by rw [hl, byteColumn_append]⟩
  · obtain ⟨⟨x, y, hl, rfl⟩, rfl⟩ := hcol
    rw [cutAt?_eq_some_iff.mpr ⟨hl, rfl⟩]
    show some (UInt32.ofNat (width x)).toNat = some (byteColumn l (byteWidth x))
    rw [hcount x y hl, hl, byteColumn_append]

/-! ## both conversions -/

/-- **Columns and byte offsets.**  The column of an offset between characters is the number of units
before it, and the offset is found again from it.  The offset of a column always lies between
characters: its own column is the least one between characters that is not below the first, or the
end of the line if the first lies beyond.  Both conversions keep the order.  They are the same with
units counted in 32-bit words, where a column is counted exactly for the offsets between characters
and beyond the end. -/
theorem byteColumns_spec (l : Line) (hl : width l < UInt32.size) :
    (∀ x y, l = x ++ y → byteColumn l (byteWidth x) = width x) ∧
    (∀ b, IsBoundary l b → byteIndex l (byteColumn l b) = b) ∧
    (∀ col, IsBoundary l (byteIndex l col)) ∧
    (∀ col ≤ width l, IsLeast {k | IsColumn l k ∧ col ≤ k} (byteColumn l (byteIndex l col))) ∧
    (∀ col, width l < col → byteColumn l (byteIndex l col) = width l) ∧
    Monotone (byteColumn l) ∧ Monotone (byteIndex l) ∧
    (∀ col : UInt32, byteIndexInWords l col = byteIndex l col.toNat) ∧
    ∀ b col, (byteColumnInWords? l b).map UInt32.toNat = some col ↔
      (IsBoundary l b ∨ byteWidth l < b) ∧ byteColumn l b = col := by
  refine ⟨fun x y h => ?_, fun b => byteIndex_byteColumn, fun col => ?_,
    fun col => isLeast_byteColumn_byteIndex, fun col => byteColumn_byteIndex_of_lt,
    byteColumn_mono l, byteIndex_mono l, byteIndexInWords_eq hl, byteColumnInWords?_iff hl⟩
  · rw [h, byteColumn_append]
  · exact isBoundary_byteOffset l _

/-- characters of one, two and four bytes -/
def quotedClef : Line := "é = \"𝄞\"".toList

/-- Column 6 lies inside the clef and goes up to the end of it, which is byte 10. -/
theorem byteColumns_quotedClef :
    width quotedClef < UInt32.size ∧ IsBoundary quotedClef 10 ∧ byteColumn quotedClef 10 = 7 ∧
      byteIndex quotedClef 7 = 10 ∧ byteIndex quotedClef 6 = 10 ∧
      IsLeast {k | IsColumn quotedClef k ∧ 6 ≤ k} 7 ∧ byteIndexInWords quotedClef 6 = 10 := by
  have hwidth : width quotedClef < UInt32.size := by decide
  obtain ⟨-, hback, hcut, hleast, -, -, -, hwords, -⟩ := byteColumns_spec quotedClef hwidth
  have hcolumn : byteColumn quotedClef 10 = 7 := by decide
  have hindex : byteIndex quotedClef 6 = 10 := by decide
  have hbound : IsBoundary quotedClef 10 := hindex ▸ hcut 6
  have hround := hleast 6 (by decide)
  rw [hindex, hcolumn] at hround
  refine ⟨hwidth, hbound, hcolumn, ?_, hindex, hround, ?_⟩
  · exact hcolumn ▸ hback 10 hbound
  · exact (hwords 6).trans hindex

end LanguageService
