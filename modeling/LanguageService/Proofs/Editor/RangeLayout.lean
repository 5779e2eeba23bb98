import LanguageService.Proofs.Editor.Relayout
import LanguageService.Proofs.Text.LineEdits

/-!
# Layout of ranges

The lines that a range touches are laid out as in the whole document.  The depth before them is read
off trimmed lines, so that it does not matter which of the lines above are laid out already; ranges
that cover a document lay it out in any order.

* `layoutLines m n lines`     the lines from `m` to `n` laid out, the others as they are
* `layout_layoutLines`        the document laid out stays the same
* `Range.Touches`             the lines that a range touches
* `formatRange text r`        a text after the edits that lay out a range
* `splitLines_formatRange`    one range
* `getElem?_formatRanges`     several ranges, one after the other
* `formatRange_spec`          what becomes of each line, and of the document
-/

namespace LanguageService

/-! ## some lines of a list -/

section
variable {α : Type} {a a' b m c c' : List α} {k : Nat}

theorem eq_around_range {i j : Nat} (h : i ≤ j) (l : List α) :
    l = l.take i ++ ((l.take j).drop i ++ l.drop j) := by
  have htake : (l.take j).take i = l.take i := by rw [List.take_take, Nat.min_eq_left h]
  rw [← List.append_assoc, ← htake, List.take_append_drop, List.take_append_drop]

theorem getElem?_append_inside (ha : a'.length = a.length) (hlo : a.length ≤ k)
    (hhi : k < a.length + m.length) : (a ++ (m ++ c))[k]? = (a' ++ (m ++ c'))[k]? := by
  have hm : k - a.length < m.length := by omega
  rw [List.getElem?_append_right hlo, List.getElem?_append_right (Nat.le_trans (Nat.le_of_eq ha) hlo), ha,
    List.getElem?_append_left hm, List.getElem?_append_left hm]

theorem getElem?_append_outside (hm : m.length = b.length)
    (hk : ¬(a.length ≤ k ∧ k < a.length + m.length)) :
    (a ++ (m ++ c))[k]? = (a ++ (b ++ c))[k]? := by
  rcases Nat.lt_or_ge k a.length with hlt | hle
  · rw [List.getElem?_append_left hlt, List.getElem?_append_left hlt]
  · rw [List.getElem?_append_right hle, List.getElem?_append_right hle,
      List.getElem?_append_right (by omega), List.getElem?_append_right (by omega), hm]

end

/-! ## layout of some lines -/

theorem layout_append (d : Nat) (a b : List Line) :
    layout d (a ++ b) = layout d a ++ layout (layoutDepth d a) b := by
  induction a generalizing d with
  | nil => rfl
  | cons l a ih => rw [List.cons_append, layout, layout, layoutDepth, ih, List.cons_append]

/-- The lines from `m` to `n` laid out as in the whole document, the others as they are. -/
def layoutLines (m n : Nat) (lines : List Line) : List Line :=
  lines.take m ++ (layout (layoutDepth 0 (lines.take m)) ((lines.take (n + 1)).drop m) ++
    lines.drop (n + 1))

theorem getElem?_layoutLines {lines : List Line} {m n : Nat} (hmn : m ≤ n) (hn : n < lines.length)
    (k : Nat) : (layoutLines m n lines)[k]? =
      if m ≤ k ∧ k ≤ n then (layout 0 lines)[k]? else lines[k]? := by
  have hsplit := eq_around_range (Nat.le_succ_of_le hmn) lines
  have habove : (lines.take m).length = m := List.length_take_of_le (by omega)
  have hlen (d : Nat) : (layout d ((lines.take (n + 1)).drop m)).length = n + 1 - m := by
    rw [length_layout, List.length_drop, List.length_take_of_le (by omega)]
  have hlaid : layout 0 lines = layout 0 (lines.take m) ++
      (layout (layoutDepth 0 (lines.take m)) ((lines.take (n + 1)).drop m) ++
        layout (layoutDepth (layoutDepth 0 (lines.take m)) ((lines.take (n + 1)).drop m))
          (lines.drop (n + 1))) := by
    rw [← layout_append, ← layout_append, ← hsplit]
  unfold layoutLines
  split
  · next hk =>
    rw [hlaid]
    refine getElem?_append_inside (length_layout 0 _) (by omega) ?_
    rw [habove, hlen]
    omega
  · next hk =>
    refine (getElem?_append_outside (length_layout _ _) ?_).trans (by rw [← hsplit])
    rw [habove, hlen]
    omega

theorem layoutLines_trim_eq {m n : Nat} (hmn : m ≤ n) (lines : List Line) :
    List.Forall₂ (fun l l' => trim l' = trim l) lines (layoutLines m n lines) := by
  have hsame : ∀ ls : List Line, List.Forall₂ (fun l l' => trim l' = trim l) ls ls :=
    fun ls => List.forall₂_same.mpr fun _ _ => rfl
  have hmiddle := layout_trim_eq (layoutDepth 0 (lines.take m)) ((lines.take (n + 1)).drop m)
  have happend : List.Forall₂ (fun l l' => trim l' = trim l)
      (lines.take m ++ ((lines.take (n + 1)).drop m ++ lines.drop (n + 1))) (layoutLines m n lines) :=
    List.rel_append (hsame (lines.take m))
      (List.rel_append hmiddle (hsame (lines.drop (n + 1))))
  rwa [← eq_around_range (Nat.le_succ_of_le hmn) lines] at happend

theorem layout_layoutLines {m n : Nat} (hmn : m ≤ n) (lines : List Line) :
    layout 0 (layoutLines m n lines) = layout 0 lines :=
  layout_of_trim_eq (layoutLines_trim_eq hmn lines) 0

/-! ## the edits of a range -/

theorem formatLinesEdits_eq_nil_iff {a : Analysis} {m n : Nat} (hmn : m ≤ n) :
    formatLinesEdits a m n = [] ↔ layoutLines m n a.lines = a.lines := by
  have hsplit := eq_around_range (Nat.le_succ_of_le hmn) a.lines
  have hsame : layoutLines m n a.lines = a.lines ↔
      layout (layoutDepth 0 (a.lines.take m)) ((a.lines.take (n + 1)).drop m) =
        (a.lines.take (n + 1)).drop m := by
    constructor
    · intro h
      exact List.append_cancel_right (List.append_cancel_left (h.trans hsplit))
    · intro h
      rw [layoutLines, h, ← hsplit]
  rw [hsame, formatLinesEdits]
  split
  · next h => exact iff_of_true rfl h
  · next h => exact iff_of_false (List.cons_ne_nil _ _) h

theorem splitLines_formatLinesEdits {text : Line} {m n : Nat} (hmn : m ≤ n)
    (hn : n < (splitLines text).length) :
    splitLines (applyEdits text (formatLinesEdits (Analysis.of text) m n)) =
      layoutLines m n (splitLines text) := by
  by_cases hnil : formatLinesEdits (Analysis.of text) m n = []
  · rw [hnil]
    exact ((formatLinesEdits_eq_nil_iff hmn).mp hnil).symm
  · have hplain : ∀ l ∈ ((splitLines text).take (n + 1)).drop m, '\n' ∉ l := fun l hl =>
      splitLines_no_feed text l (List.mem_of_mem_take (List.mem_of_mem_drop hl))
    have hne : layout (layoutDepth 0 ((splitLines text).take m))
        (((splitLines text).take (n + 1)).drop m) ≠ [] := by
      rw [ne_eq, ← List.length_eq_zero_iff, length_layout, List.length_drop,
        List.length_take_of_le (by omega)]
      omega
    have hl := List.getElem?_eq_getElem hn
    have hedit := splitLines_replaceLines hmn hl (LineEnding.of text) hne (layout_plain hplain _)
    rw [formatLinesEdits] at hnil ⊢
    rw [if_neg fun h => hnil (if_pos h)]
    show splitLines (applyEdit text ⟨⟨⟨m, 0⟩, ⟨n, ((splitLines text)[n]?.map width).getD 0⟩⟩, _⟩) = _
    rw [hl]
    exact hedit

/-! ## ranges -/

/-- The first line that a range touches in a document of `n` lines; a range beyond the end touches
the last line. -/
def Range.firstLine (r : Range) (n : Nat) : Nat :=
  min r.start.line (n - 1)

/-- The last line that it touches; a range that ends before it starts touches one line. -/
def Range.lastLine (r : Range) (n : Nat) : Nat :=
  max (r.firstLine n) (min r.stop.line (n - 1))

def Range.Touches (r : Range) (n k : Nat) : Prop :=
  r.firstLine n ≤ k ∧ k ≤ r.lastLine n

instance (r : Range) (n k : Nat) : Decidable (r.Touches n k) :=
  inferInstanceAs (Decidable (_ ∧ _))

theorem Range.firstLine_le_lastLine (r : Range) (n : Nat) : r.firstLine n ≤ r.lastLine n :=
  Nat.le_max_left _ _

theorem Range.lastLine_lt (r : Range) {n : Nat} (h : 0 < n) : r.lastLine n < n := by
  unfold lastLine firstLine
  omega

/-- A text after the edits that lay out a range of it, made where its lines put their positions. -/
def formatRange (text : Line) (r : Range) : Line :=
  applyEdits text (formatRangeEdits (Analysis.of text) r)

section
variable (text : Line) (r : Range)

theorem lastLine_lt_length : r.lastLine (splitLines text).length < (splitLines text).length :=
  r.lastLine_lt (List.length_pos_iff.mpr (splitLines_ne_nil text))

theorem splitLines_formatRange : splitLines (formatRange text r) =
    layoutLines (r.firstLine (splitLines text).length) (r.lastLine (splitLines text).length)
      (splitLines text) :=
  splitLines_formatLinesEdits (r.firstLine_le_lastLine _) (lastLine_lt_length text r)

theorem getElem?_formatRange (k : Nat) : (splitLines (formatRange text r))[k]? =
    if r.Touches (splitLines text).length k then (splitLines (formatText text))[k]?
      else (splitLines text)[k]? := by
  rw [splitLines_formatRange, getElem?_layoutLines (r.firstLine_le_lastLine _)
    (lastLine_lt_length text r), splitLines_formatText]
  rfl

theorem length_formatRange :
    (splitLines (formatRange text r)).length = (splitLines text).length := by
  rw [splitLines_formatRange]
  exact (layoutLines_trim_eq (r.firstLine_le_lastLine _) (splitLines text)).length_eq.symm

theorem splitLines_formatText_formatRange :
    splitLines (formatText (formatRange text r)) = splitLines (formatText text) := by
  rw [splitLines_formatText, splitLines_formatText, splitLines_formatRange,
    layout_layoutLines (r.firstLine_le_lastLine _)]

theorem formatRangeEdits_eq_nil_iff : formatRangeEdits (Analysis.of text) r = [] ↔
    ∀ k, r.Touches (splitLines text).length k →
      (splitLines text)[k]? = (splitLines (formatText text))[k]? := by
  have hnil : formatRangeEdits (Analysis.of text) r = [] ↔
      splitLines (formatRange text r) = splitLines text := by
    rw [splitLines_formatRange]
    exact formatLinesEdits_eq_nil_iff (r.firstLine_le_lastLine _)
  rw [hnil, List.ext_getElem?_iff]
  refine forall_congr' fun k => ?_
  rw [getElem?_formatRange]
  split
  · next h => exact ⟨fun heq _ => heq.symm, fun heq => (heq h).symm⟩
  · next h => exact iff_of_true rfl fun h' => absurd h' h

theorem length_formatRangeEdits_le : (formatRangeEdits (Analysis.of text) r).length ≤ 1 := by
  unfold formatRangeEdits formatLinesEdits
  simp only
  split
  · exact Nat.zero_le 1
  · exact Nat.le_refl 1

end

/-- Ranges laid out one after the other, each in the document that the ones before it leave. -/
theorem getElem?_formatRanges (ranges : List Range) (text : Line) (k : Nat) :
    (splitLines (ranges.foldl formatRange text))[k]? =
      if ∃ r ∈ ranges, r.Touches (splitLines text).length k then (splitLines (formatText text))[k]?
        else (splitLines text)[k]? := by
  induction ranges generalizing text with
  | nil => exact (if_neg (by rintro ⟨r, hr, -⟩; exact absurd hr List.not_mem_nil)).symm
  | cons r ranges ih =>
    rw [List.foldl_cons, ih, length_formatRange, splitLines_formatText_formatRange,
      getElem?_formatRange]
    by_cases hlater : ∃ r ∈ ranges, r.Touches (splitLines text).length k
    · obtain ⟨q, hq, htouch⟩ := hlater
      rw [if_pos ⟨q, hq, htouch⟩, if_pos ⟨q, List.mem_cons_of_mem _ hq, htouch⟩]
    · rw [if_neg hlater]
      by_cases hhere : r.Touches (splitLines text).length k
      · rw [if_pos hhere, if_pos ⟨r, List.mem_cons_self, hhere⟩]
      · rw [if_neg hhere, if_neg]
        rintro ⟨q, hq, htouch⟩
        rcases List.mem_cons.mp hq with rfl | hq
        · exact hhere htouch
        · exact hlater ⟨q, hq, htouch⟩

/-- **Layout of ranges.**  The edits that lay out a range make of the lines that it touches those of
the document laid out, and leave the others; there is one edit at most, and none exactly if the
lines are so already.  Ranges laid out one after the other that touch every line lay out the
document. -/
theorem formatRange_spec (text : Line) :
    (∀ r k, (splitLines (formatRange text r))[k]? =
      if r.Touches (splitLines text).length k then (splitLines (formatText text))[k]?
        else (splitLines text)[k]?) ∧
    (∀ r, (formatRangeEdits (Analysis.of text) r).length ≤ 1 ∧
      (formatRangeEdits (Analysis.of text) r = [] ↔
        ∀ k, r.Touches (splitLines text).length k →
          (splitLines text)[k]? = (splitLines (formatText text))[k]?)) ∧
    ∀ ranges : List Range,
      (∀ k < (splitLines text).length, ∃ r ∈ ranges, r.Touches (splitLines text).length k) →
        splitLines (ranges.foldl formatRange text) = splitLines (formatText text) := by
  refine ⟨getElem?_formatRange text, fun r => ⟨length_formatRangeEdits_le text r,
    formatRangeEdits_eq_nil_iff text r⟩, fun ranges hcover => ?_⟩
  refine List.ext_getElem? fun k => ?_
  rw [getElem?_formatRanges]
  split
  · rfl
  · next hno =>
    -- such a line stands behind the document
    have hk : (splitLines text).length ≤ k := by
      by_contra hlt
      exact hno (hcover k (Nat.lt_of_not_le hlt))
    rw [List.getElem?_eq_none hk, splitLines_formatText, List.getElem?_eq_none]
    rw [length_layout]
    exact hk

/-- a block whose lines end in two ways -/
def raggedText : Line := "f \x7b\r\na\n  \x7d".toList

/-- Its last line first, by a range beyond the end that ends before it starts, and then the others. -/
theorem formatRange_raggedText :
    splitLines ([⟨⟨9, 0⟩, ⟨1, 7⟩⟩, ⟨⟨0, 3⟩, ⟨1, 0⟩⟩].foldl formatRange raggedText) =
      ["f \x7b".toList, "    a".toList, "\x7d".toList] := by
  have hlaid : splitLines (formatText raggedText) =
      ["f \x7b".toList, "    a".toList, "\x7d".toList] := by decide
  rw [← hlaid]
  exact (formatRange_spec raggedText).2.2 _ (by decide)

end LanguageService
