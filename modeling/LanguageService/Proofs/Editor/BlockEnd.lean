import LanguageService.Proofs.Editor.Folding
import LanguageService.Source.Block

/-!
# Where blocks end, and folds

The end of a block is found by counting depth from its first line on, whatever stands above; folds
are found by a scan of the whole document.  The depth is zero again exactly at the brace that
matches the first one of the block, so that both find the same line.

* `balanced_iff_depthAfter`    balanced texts lead from depth one to depth one
* `exists_of_depthAfter`       the depth comes back to zero behind a balanced text only
* `closingLine_eq`, `closingLine_of_open`   the line on which it does, and the last line
* `firstBrace?`                the first brace that opens on a line
* `blockEnd_of_matched`, `blockEnd_of_unmatched`   its block ends with its match, or stays open
* `blockEnd_spec`              all of it together
-/

namespace LanguageService

/-! ## depth -/

theorem depthAfter_open (d : Nat) (t : Line) : depthAfter d ('{' :: t) = depthAfter (d + 1) t := rfl

theorem depthAfter_other {c : Char} (ho : c ≠ '{') (hc : c ≠ '}') (d : Nat) (t : Line) :
    depthAfter d (c :: t) = depthAfter d t := by
  rw [depthAfter.eq_def]
  exact (if_neg ho).trans (if_neg hc)

theorem depthAfter_append (d : Nat) (a b : Line) :
    depthAfter d (a ++ b) = (depthAfter d a).bind fun e => depthAfter e b := by
  induction a generalizing d with
  | nil => rfl
  | cons c a ih =>
    by_cases ho : c = '{'
    · subst ho
      exact ih (d + 1)
    · by_cases hc : c = '}'
      · subst hc
        match d with
        | 0 => exact ih 0
        | 1 => rfl
        | d + 2 => exact ih (d + 1)
      · rw [List.cons_append, depthAfter_other ho hc, depthAfter_other ho hc, ih]

/-- up to the first brace that opens, braces that close do not count -/
theorem depthAfter_of_not_mem {t : Line} (h : '{' ∉ t) : depthAfter 0 t = some 0 := by
  induction t with
  | nil => rfl
  | cons c t ih =>
    have ih := ih (List.not_mem_of_not_mem_cons h)
    by_cases hc : c = '}'
    · subst hc
      exact ih
    · rw [depthAfter_other (Ne.symm (List.ne_of_not_mem_cons h)) hc, ih]

theorem Balanced.depthAfter_eq {t : Line} (h : Balanced t) (d : Nat) :
    depthAfter (d + 1) t = some (d + 1) := by
  induction h generalizing d with
  | nil => rfl
  | other ho hc _ ih => rw [depthAfter_other ho hc, ih]
  | block _ _ iha ihb =>
    rw [depthAfter_open, depthAfter_append, iha]
    exact ihb d

/-- The depth counts the open braces down to the one at which the count began; this one stays open
as long as the depth is not zero. -/
theorem openBraces_of_depthAfter {t : Line} (inner : List Nat) {e : Nat}
    (h : depthAfter (inner.length + 1) t = some e) (pos i : Nat) (outer : List Nat) :
    ∃ inner', openBraces pos (inner ++ i :: outer) t = inner' ++ i :: outer ∧
      inner'.length + 1 = e := by
  induction t generalizing inner pos with
  | nil => exact ⟨inner, rfl, Option.some.inj h⟩
  | cons c t ih =>
    by_cases ho : c = '{'
    · subst ho
      exact ih (pos :: inner) h (pos + 1)
    · by_cases hc : c = '}'
      · subst hc
        cases inner with
        | nil => cases h
        | cons k inner => exact ih inner h (pos + 1)
      · rw [depthAfter_other ho hc] at h
        rw [openBraces_other ho hc]
        exact ih inner h (pos + 1)

theorem balanced_iff_depthAfter {t : Line} : Balanced t ↔ depthAfter 1 t = some 1 := by
  constructor
  · exact fun h => h.depthAfter_eq 0
  · intro h
    obtain ⟨inner, hopen, hlen⟩ := openBraces_of_depthAfter [] h 1 0 []
    obtain rfl := List.eq_nil_of_length_eq_zero (Nat.succ.inj hlen)
    exact balanced_of_openBraces (u := []) hopen

theorem exists_of_depthAfter {t : Line} {d : Nat} (h : depthAfter (d + 1) t = none) :
    ∃ v w, t = v ++ '}' :: w ∧ depthAfter (d + 1) v = some 1 := by
  induction t generalizing d with
  | nil => cases h
  | cons c t ih =>
    by_cases ho : c = '{'
    · subst ho
      obtain ⟨v, w, rfl, hv⟩ := ih (d := d + 1) h
      exact ⟨'{' :: v, w, rfl, hv⟩
    · by_cases hc : c = '}'
      · subst hc
        cases d with
        | zero => exact ⟨[], t, rfl, rfl⟩
        | succ d =>
          obtain ⟨v, w, rfl, hv⟩ := ih (d := d) h
          exact ⟨'}' :: v, w, rfl, hv⟩
      · rw [depthAfter_other ho hc] at h
        obtain ⟨v, w, rfl, hv⟩ := ih h
        exact ⟨c :: v, w, rfl, by rw [depthAfter_other ho hc, hv]⟩

/-! ## the line on which the depth is zero again -/

theorem closingLine_eq {ls : List Line} {x w : Line} {d : Nat} (h : ls.flatten = x ++ '}' :: w)
    (hx : depthAfter d x = some 1) (n : Nat) : closingLine d n ls = n + lineOfChar ls x.length := by
  induction ls generalizing d n x with
  | nil => exact absurd (congrArg List.length h) (by simp)
  | cons l ls ih =>
    rw [List.flatten_cons] at h
    have hl : l <+: x ++ '}' :: w := h ▸ List.prefix_append l ls.flatten
    rw [closingLine]
    rcases Nat.lt_or_ge x.length l.length with hlt | hle
    · -- the brace stands on this line
      have hclose : x ++ ['}'] <+: x ++ '}' :: w :=
        ⟨w, by rw [List.append_assoc, List.singleton_append]⟩
      obtain ⟨z, rfl⟩ := List.prefix_of_prefix_length_le hclose hl
        (by rw [List.length_append]; exact hlt)
      have hnone : depthAfter d (x ++ ['}'] ++ z) = none := by
        rw [depthAfter_append, depthAfter_append, hx]
        rfl
      rw [hnone, lineOfChar_of_lt hlt]
      rfl
    · obtain ⟨z, rfl⟩ := List.prefix_of_prefix_length_le hl (List.prefix_append x _) hle
      rw [List.append_assoc] at h
      rw [depthAfter_append] at hx
      obtain ⟨e, he, hze⟩ := Option.bind_eq_some_iff.mp hx
      have hbelow := ih (List.append_cancel_left h) hze (n + 1)
      rw [he, List.length_append, lineOfChar_length_add]
      simp only
      omega

theorem closingLine_of_open {l : Line} {ls : List Line} {d e : Nat}
    (h : depthAfter d (l :: ls).flatten = some e) (n : Nat) :
    closingLine d n (l :: ls) = n + ls.length := by
  induction ls generalizing l d n with
  | nil =>
    rw [List.flatten_cons, List.flatten_nil, List.append_nil] at h
    rw [closingLine, h]
    rfl
  | cons k ls ih =>
    rw [List.flatten_cons, depthAfter_append] at h
    obtain ⟨f, hf, hrest⟩ := Option.bind_eq_some_iff.mp h
    have hbelow := ih hrest (n + 1)
    rw [closingLine, hf, List.length_cons]
    simp only
    omega

/-! ## blocks -/

/-- The place of the first brace that opens on line `s`, among the characters of all lines. -/
def firstBrace? (lines : List Line) (s : Nat) : Option Nat :=
  lines[s]?.bind fun l =>
    if '{' ∈ l then some ((lines.take s).flatten.length + l.idxOf '{') else none

theorem blockEnd_of_firstBrace?_eq_none {lines : List Line} {s : Nat}
    (h : firstBrace? lines s = none) : blockEnd lines s = s := by
  unfold blockEnd
  cases hs : lines.drop s with
  | nil => rfl
  | cons l ls =>
    have hl : lines[s]? = some l := by
      rw [← List.head?_drop, hs, List.head?_cons]
    rw [firstBrace?, hl, Option.bind_some] at h
    have hno : '{' ∉ l := by
      intro hmem
      rw [if_pos hmem] at h
      cases h
    simp only
    rw [depthAfter_of_not_mem hno]
    rfl

/-- A document around the first brace that opens on a line. -/
structure OpensOn (lines above : List Line) (a b : Line) (below : List Line) : Prop where
  lines_eq : lines = above ++ (a ++ '{' :: b) :: below
  first : '{' ∉ a

theorem exists_opensOn {lines : List Line} {s i : Nat} (h : firstBrace? lines s = some i) :
    ∃ above a b below, OpensOn lines above a b below ∧ above.length = s ∧
      i = (above.flatten ++ a).length := by
  obtain ⟨l, hl, hplace⟩ := Option.bind_eq_some_iff.mp h
  split at hplace
  · next hmem =>
    obtain ⟨a, b, rfl, ha⟩ := List.eq_append_cons_of_mem hmem
    obtain ⟨hlt, hget⟩ := List.getElem?_eq_some_iff.mp hl
    refine ⟨lines.take s, a, b, lines.drop (s + 1), ⟨?_, ha⟩, List.length_take_of_le (Nat.le_of_lt hlt), ?_⟩
    · rw [← hget, List.getElem_cons_drop, List.take_append_drop]
    · rw [← Option.some.inj hplace, List.length_append, List.idxOf_append_of_notMem ha,
        List.idxOf_cons_self, Nat.add_zero]
  · cases hplace

section
variable {lines above below : List Line} {a b : Line} (h : OpensOn lines above a b below)
include h

theorem OpensOn.blockEnd_eq :
    blockEnd lines above.length = closingLine 0 above.length ((a ++ '{' :: b) :: below) := by
  have hdepth : depthAfter 0 (a ++ '{' :: b) = depthAfter 1 b := by
    rw [depthAfter_append, depthAfter_of_not_mem h.first]
    rfl
  rw [h.lines_eq, blockEnd, List.drop_left, closingLine]
  simp only [hdepth]
  cases hb : depthAfter 1 b with
  | none => rfl
  | some e =>
    -- the brace is still open behind its line
    obtain ⟨inner, -, rfl⟩ := openBraces_of_depthAfter [] hb 0 0 []
    rfl

theorem OpensOn.flatten_eq :
    lines.flatten = (above.flatten ++ a) ++ '{' :: (b ++ below.flatten) := by
  rw [h.lines_eq, List.flatten_append, List.flatten_cons]
  simp only [List.append_assoc, List.cons_append]

/-- The block ends on the line of the brace that matches. -/
theorem OpensOn.blockEnd_of_matched {j : Nat}
    (hm : Matched lines.flatten (above.flatten ++ a).length j) :
    blockEnd lines above.length = lineOfChar lines j := by
  obtain ⟨u, v, w, heq, hu, rfl, hv⟩ := matched_iff.mp hm
  rw [h.flatten_eq] at heq
  obtain ⟨rfl, htail⟩ := List.append_inj heq hu.symm
  have hrest : b ++ below.flatten = v ++ '}' :: w := List.tail_eq_of_cons_eq htail
  have hblock : ((a ++ '{' :: b) :: below).flatten = (a ++ '{' :: v) ++ '}' :: w := by
    rw [List.flatten_cons, List.append_assoc, List.cons_append, hrest]
    simp
  have hdepth : depthAfter 0 (a ++ '{' :: v) = some 1 := by
    rw [depthAfter_append, depthAfter_of_not_mem h.first]
    exact hv.depthAfter_eq 0
  have hplace : (above.flatten ++ a).length + 1 + v.length =
      above.flatten.length + (a ++ '{' :: v).length := by
    simp only [List.length_append, List.length_cons]
    omega
  rw [h.blockEnd_eq, closingLine_eq hblock hdepth, hplace, h.lines_eq, lineOfChar_append]

/-- The block ends with the document if no brace matches. -/
theorem OpensOn.blockEnd_of_unmatched
    (hno : ∀ j, ¬ Matched lines.flatten (above.flatten ++ a).length j) :
    blockEnd lines above.length = lines.length - 1 := by
  have hdepth : depthAfter 0 ((a ++ '{' :: b) :: below).flatten =
      depthAfter 1 (b ++ below.flatten) := by
    rw [List.flatten_cons, List.append_assoc, depthAfter_append, depthAfter_of_not_mem h.first]
    rfl
  have hlen : lines.length - 1 = above.length + below.length := by
    rw [h.lines_eq, List.length_append, List.length_cons]
    omega
  cases hrest : depthAfter 1 (b ++ below.flatten) with
  | none =>
    obtain ⟨v, w, heq, hv⟩ := exists_of_depthAfter (d := 0) hrest
    refine absurd (matched_iff.mpr ⟨above.flatten ++ a, v, w, ?_, rfl, rfl,
      balanced_iff_depthAfter.mpr hv⟩) (hno _)
    rw [h.flatten_eq, heq]
  | some e =>
    rw [hrest] at hdepth
    rw [h.blockEnd_eq, closingLine_of_open hdepth, hlen]

theorem OpensOn.line_eq : lineOfChar lines (above.flatten ++ a).length = above.length := by
  have hlt : a.length < (a ++ '{' :: b).length := by
    rw [List.length_append, List.length_cons]
    omega
  rw [h.lines_eq, List.length_append, lineOfChar_append, lineOfChar_of_lt hlt, Nat.add_zero]

end

/-- **Ends of blocks.**  If a brace opens on a line, then the block of the line ends where the first
of these has its partner among the braces of the whole document, and the block is a fold if that is
on a line below; without a partner it ends with the document.  If no brace opens on a line, then the
block is the line itself.  A block ends no earlier than its first line and no later than the last
line. -/
theorem blockEnd_spec (lines : List Line) (s : Nat) :
    (∀ i, firstBrace? lines s = some i →
      (∀ j, Matched lines.flatten i j → blockEnd lines s = lineOfChar lines j ∧
        (s < lineOfChar lines j → ⟨s, lineOfChar lines j, .region⟩ ∈ folds lines)) ∧
      ((∀ j, ¬ Matched lines.flatten i j) → blockEnd lines s = lines.length - 1)) ∧
    (firstBrace? lines s = none → blockEnd lines s = s) ∧
    s ≤ blockEnd lines s ∧ blockEnd lines s ≤ max s (lines.length - 1) := by
  refine ⟨fun i hi => ?_, blockEnd_of_firstBrace?_eq_none, blockEnd_bounds lines s⟩
  obtain ⟨above, a, b, below, h, rfl, rfl⟩ := exists_opensOn hi
  refine ⟨fun j hm => ⟨h.blockEnd_of_matched hm, fun hlt => ?_⟩, h.blockEnd_of_unmatched⟩
  exact mem_regions_iff.mpr ⟨_, j, hm, h.line_eq.symm, rfl, hlt⟩

/-- a block below a brace without a partner, and with another block inside -/
def nestedBlock : List Line :=
  ["\x7d".toList, "a \x7b \x7b".toList, "\x7d b".toList, "c \x7d".toList]

/-- The block of its second line ends on the last one, and folds. -/
theorem blockEnd_nestedBlock :
    Matched nestedBlock.flatten 3 11 ∧ blockEnd nestedBlock 1 = 3 ∧
      ⟨1, 3, .region⟩ ∈ folds nestedBlock := by
  have hm : Matched nestedBlock.flatten 3 11 :=
    matched_iff.mpr ⟨"\x7da ".toList, " \x7b\x7d bc ".toList, [], by decide, by decide, by decide,
      balanced_iff_depthAfter.mpr (by decide)⟩
  have hline : lineOfChar nestedBlock 11 = 3 := by decide
  obtain ⟨hend, hfold⟩ := ((blockEnd_spec nestedBlock 1).1 3 (by decide)).1 11 hm
  rw [hline] at hend hfold
  exact ⟨hm, hend, hfold (by decide)⟩

end LanguageService
