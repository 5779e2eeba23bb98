import LanguageService.Proofs.Editor.Folding

/-!
# Block comments of a document

A line opens a comment if no comment reaches it from above and its text begins one that it does not
end.  So where a comment opens depends on where those above it end, line by line; the search for
code lines keeps of all this only whether a comment is open.

* `ClosedOn lines i j`          line `j` is the first below line `i` that ends a comment
* `CommentCovers lines i k`     a comment from line `i` on covers line `k`
* `OpensAt lines i`             a comment opens on line `i`
* `commentBehind_take_iff`      the search knows whether one is open
* `mem_comments_of_opensAt`     the fold of a comment goes to the line that closes it
* `codeLines_outside_comments`  the code lines are the other lines, without the blank ones
-/

namespace LanguageService

/-! ## where comments open and end -/

/-- The text of the line begins a comment that it does not end. -/
def BeginsComment (l : Line) : Prop :=
  opensBlock <+: trim l ∧ occursIn closesBlock (trim l) = false

/-- No line between the two ends a comment. -/
def NoneCloses (lines : List Line) (i n : Nat) : Prop :=
  ∀ k, i < k → k < n → ∀ l, lines[k]? = some l → occursIn closesBlock l = false

/-- Line `j` is the first below line `i` that ends a comment. -/
structure ClosedOn (lines : List Line) (i j : Nat) : Prop where
  below : i < j
  closes : ∃ l, lines[j]? = some l ∧ occursIn closesBlock l = true
  first : NoneCloses lines i j

/-- A comment from line `i` on covers the lines down to that on which it is closed, or down to the
last line. -/
structure CommentCovers (lines : List Line) (i k : Nat) : Prop where
  start_le : i ≤ k
  lt_length : k < lines.length
  le_stop : ∀ j, ClosedOn lines i j → k ≤ j

/-- Line `i` begins a comment, and no comment that opens above covers it. -/
def OpensAt (lines : List Line) (i : Nat) : Prop :=
  (∃ l, lines[i]? = some l ∧ BeginsComment l) ∧
    ∀ h, h < i → OpensAt lines h → ¬ CommentCovers lines h i
termination_by i

/-- A comment is still open when line `n` begins. -/
def OpenBefore (lines : List Line) (n : Nat) : Prop :=
  ∃ i, i < n ∧ OpensAt lines i ∧ NoneCloses lines i n

section
variable {lines : List Line} {i n : Nat} {l : Line}

theorem noneCloses_succ_iff (hl : lines[n]? = some l) (hi : i < n) :
    NoneCloses lines i (n + 1) ↔ NoneCloses lines i n ∧ occursIn closesBlock l = false := by
  refine ⟨fun h => ⟨fun k hik hkn => h k hik (by omega), h n hi (by omega) l hl⟩, fun h => ?_⟩
  intro k hik hkn m hm
  by_cases hk : k = n
  · rw [hk, hl] at hm
    rw [← Option.some.inj hm]
    exact h.2
  · exact h.1 k hik (by omega) m hm

theorem exists_closedOn (h : ¬ NoneCloses lines i n) : ∃ j, j < n ∧ ClosedOn lines i j := by
  induction n with
  | zero => exact absurd (fun k _ hk => absurd hk (Nat.not_lt_zero k)) h
  | succ n ih =>
    by_cases hn : NoneCloses lines i n
    · -- then it is line `n` that ends a comment
      simp only [NoneCloses, not_forall, Bool.not_eq_false] at h
      obtain ⟨k, hik, hkn, m, hm, hcloses⟩ := h
      have hk : ¬ k < n := by
        intro hlt
        rw [hn k hik hlt m hm] at hcloses
        exact Bool.false_ne_true hcloses
      obtain rfl : k = n := by omega
      exact ⟨k, hkn, hik, ⟨m, hm, hcloses⟩, hn⟩
    · obtain ⟨j, hj, hclosed⟩ := ih hn
      exact ⟨j, by omega, hclosed⟩

/-- a comment covers a line below if none of the lines between closes it -/
theorem commentCovers_iff (hi : i < n) (hn : n < lines.length) :
    CommentCovers lines i n ↔ NoneCloses lines i n := by
  refine ⟨fun h => ?_, fun h => ⟨Nat.le_of_lt hi, hn, fun j hj => ?_⟩⟩
  · by_contra hcloses
    obtain ⟨j, hj, hclosed⟩ := exists_closedOn hcloses
    exact absurd (h.le_stop j hclosed) (Nat.not_le_of_gt hj)
  · by_contra hlt
    obtain ⟨m, hm, hcloses⟩ := hj.closes
    rw [h j hj.below (by omega) m hm] at hcloses
    exact Bool.false_ne_true hcloses

/-- a comment opens where one begins and none is open -/
theorem opensAt_iff (hl : lines[n]? = some l) :
    OpensAt lines n ↔ BeginsComment l ∧ ¬ OpenBefore lines n := by
  obtain ⟨hn, -⟩ := List.getElem?_eq_some_iff.mp hl
  rw [OpensAt]
  refine ⟨fun h => ⟨?_, fun hopen => ?_⟩, fun h => ⟨⟨l, hl, h.1⟩, fun i hi hopens hcovers => ?_⟩⟩
  · obtain ⟨m, hm, hbegins⟩ := h.1
    rw [hl] at hm
    rwa [Option.some.inj hm]
  · obtain ⟨i, hi, hopens, hnone⟩ := hopen
    exact h.2 i hi hopens ((commentCovers_iff hi hn).mpr hnone)
  · exact h.2 ⟨i, hi, hopens, (commentCovers_iff hi hn).mp hcovers⟩

/-- One line: a comment that is open stays open up to the line that ends it, and otherwise the line
may open one. -/
theorem openBefore_succ_iff (hl : lines[n]? = some l) :
    OpenBefore lines (n + 1) ↔ OpenBefore lines n ∧ occursIn closesBlock l = false ∨
      ¬ OpenBefore lines n ∧ BeginsComment l := by
  refine ⟨fun h => ?_, fun h => ?_⟩
  · obtain ⟨i, hi, hopens, hnone⟩ := h
    by_cases hin : i = n
    · subst hin
      exact Or.inr ((opensAt_iff hl).mp hopens).symm
    · have hlt : i < n := by omega
      obtain ⟨hnone, hl⟩ := (noneCloses_succ_iff hl hlt).mp hnone
      exact Or.inl ⟨⟨i, hlt, hopens, hnone⟩, hl⟩
  · rcases h with h | h
    · obtain ⟨⟨i, hi, hopens, hnone⟩, hcloses⟩ := h
      exact ⟨i, by omega, hopens, (noneCloses_succ_iff hl hi).mpr ⟨hnone, hcloses⟩⟩
    · exact ⟨n, Nat.lt_succ_self n, (opensAt_iff hl).mpr h.symm, fun k _ _ => by omega⟩

end

/-! ## the search -/

theorem role_eq (l : Line) : LineRole.of l =
    if isBlankLine l = true ∨ lineComment <+: trim l then .skipped
    else if opensBlock <+: trim l then
      if occursIn closesBlock (trim l) = true then .skipped else .opensComment
    else .code := by
  simp only [LineRole.of, Bool.or_eq_true, List.isEmpty_iff, trim_eq_nil_iff,
    List.isPrefixOf_iff_prefix]

theorem role_eq_code_iff (l : Line) : LineRole.of l = .code ↔
    isBlankLine l = false ∧ ¬ lineComment <+: trim l ∧ ¬ opensBlock <+: trim l := by
  rw [role_eq, ← Bool.not_eq_true, ← and_assoc, ← not_or]
  split
  · simp [*]
  · split
    · split <;> simp [*]
    · simp [*]

theorem not_skipped_of_opensBlock {l : Line} (h : opensBlock <+: trim l) :
    ¬ (isBlankLine l = true ∨ lineComment <+: trim l) := by
  rw [← trim_eq_nil_iff]
  obtain ⟨r, hr⟩ := h
  rw [← hr]
  simp [opensBlock, lineComment]

theorem role_eq_opensComment_iff (l : Line) : LineRole.of l = .opensComment ↔ BeginsComment l := by
  rw [role_eq, BeginsComment]
  by_cases h : opensBlock <+: trim l
  · rw [if_neg (not_skipped_of_opensBlock h), if_pos h]
    simp [h]
  · rw [if_neg h]
    split <;> simp [h]

/-- the search for code lines knows whether a comment is open -/
theorem commentBehind_take_iff {lines : List Line} {n : Nat} (hn : n ≤ lines.length) :
    commentBehind false (numberLines (lines.take n)) = true ↔ OpenBefore lines n := by
  induction n with
  | zero =>
    refine iff_of_false Bool.false_ne_true fun h => ?_
    obtain ⟨i, hi, -⟩ := h
    exact Nat.not_lt_zero i hi
  | succ n ih =>
    have hl : lines[n]? = some lines[n] := List.getElem?_eq_getElem hn
    have hlast : numberLines (lines.take (n + 1)) =
        numberLines (lines.take n) ++ [⟨n, lines[n]⟩] := by
      rw [List.take_succ_eq_append_getElem hn, numberLines, numberFrom_append, List.length_take,
        Nat.min_eq_left (Nat.le_of_lt hn), Nat.zero_add]
      rfl
    rw [hlast, commentBehind_append, openBefore_succ_iff hl, ← ih (Nat.le_of_lt hn)]
    cases commentBehind false (numberLines (lines.take n)) with
    | true =>
      show (!occursIn closesBlock (trim lines[n])) = true ↔ _
      simp [occursIn_trim trimmed_closesBlock (by decide)]
    | false =>
      show (LineRole.of lines[n] == .opensComment) = true ↔ _
      simp [role_eq_opensComment_iff]

theorem mem_codeLines_around_iff (above below : List Line) (l : Line) :
    ⟨above.length, l⟩ ∈ codeLines (above ++ l :: below) ↔
      commentBehind false (numberLines above) = false ∧ LineRole.of l = .code := by
  refine ⟨role_of_mem_codeLines, fun h => ?_⟩
  rw [codeLines_around, h.1, (commentBehind_code h.2 above.length).2]
  exact List.mem_append_right _ List.mem_cons_self

theorem mem_codeLines_iff_role {lines : List Line} {k : NumberedLine} :
    k ∈ codeLines lines ↔ lines[k.number]? = some k.text ∧ ¬ OpenBefore lines k.number ∧
      LineRole.of k.text = .code := by
  by_cases hk : lines[k.number]? = some k.text
  · obtain ⟨hn, htext⟩ := List.getElem?_eq_some_iff.mp hk
    have hsplit : lines = lines.take k.number ++ k.text :: lines.drop (k.number + 1) := by
      rw [← htext, ← List.drop_eq_getElem_cons hn, List.take_append_drop]
    have hlen : (lines.take k.number).length = k.number := by
      rw [List.length_take, Nat.min_eq_left (Nat.le_of_lt hn)]
    have haround := mem_codeLines_around_iff (lines.take k.number) (lines.drop (k.number + 1)) k.text
    rw [← hsplit, hlen] at haround
    rw [haround, ← commentBehind_take_iff (Nat.le_of_lt hn), Bool.not_eq_true]
    exact (and_iff_right hk).symm
  · exact iff_of_false (fun h => hk (text_of_mem_codeLines h)) fun h => hk h.1

/-! ## code lines and folds -/

/-- For a line that begins no comment, no comment covers it exactly if none is open. -/
theorem not_covered_iff {lines : List Line} {n : Nat} {l : Line} (hl : lines[n]? = some l)
    (hbegins : ¬ opensBlock <+: trim l) :
    (∀ i, OpensAt lines i → ¬ CommentCovers lines i n) ↔ ¬ OpenBefore lines n := by
  obtain ⟨hn, -⟩ := List.getElem?_eq_some_iff.mp hl
  refine ⟨fun h hopen => ?_, fun h i hopens hcovers => ?_⟩
  · obtain ⟨i, hi, hopens, hnone⟩ := hopen
    exact h i hopens ((commentCovers_iff hi hn).mpr hnone)
  · rcases Nat.lt_or_eq_of_le hcovers.start_le with hi | rfl
    · exact h ⟨i, hi, hopens, (commentCovers_iff hi hn).mp hcovers⟩
    · exact hbegins ((opensAt_iff hl).mp hopens).1.1

theorem mem_comments_of_opensAt {lines : List Line} {i : Nat} (h : OpensAt lines i) (j : Nat) :
    ⟨i, j, .comment⟩ ∈ folds lines ↔ ClosedOn lines i j := by
  obtain ⟨l, hl, hopens, hcloses⟩ : ∃ l, lines[i]? = some l ∧ BeginsComment l := by
    rw [OpensAt] at h
    exact h.1
  rw [mem_comments_iff]
  refine ⟨fun hspan => ⟨hspan.below, hspan.closes, fun k hik => hspan.first k (Nat.le_of_lt hik)⟩,
    fun hclosed => ⟨hclosed.below, ⟨l, hl, ?_⟩, hclosed.closes, fun k hik hkj m hm => ?_⟩⟩
  · rw [← occursIn_trim trimmed_opensBlock (by decide), occursIn_iff]
    obtain ⟨r, hr⟩ := hopens
    exact ⟨[], r, hr.symm⟩
  · rcases Nat.lt_or_eq_of_le hik with hik | rfl
    · exact hclosed.first k hik hkj m hm
    · rw [hl] at hm
      rw [← Option.some.inj hm, ← occursIn_trim trimmed_closesBlock (by decide), hcloses]

/-- **Block comments.**  The code lines are, in the order of the document and with their own text,
the lines that no comment covers, that are not blank and that begin with neither kind of comment.
The folds of comments that begin where a comment opens end where this comment is closed. -/
theorem codeLines_outside_comments (lines : List Line) :
    (∀ k, k ∈ codeLines lines ↔ lines[k.number]? = some k.text ∧
      (∀ i, OpensAt lines i → ¬ CommentCovers lines i k.number) ∧ isBlankLine k.text = false ∧
      ¬ lineComment <+: trim k.text ∧ ¬ opensBlock <+: trim k.text) ∧
    (codeLines lines).Pairwise (fun k k' => k.number < k'.number) ∧
    ∀ i, OpensAt lines i → ∀ j, ⟨i, j, .comment⟩ ∈ folds lines ↔ ClosedOn lines i j := by
  refine ⟨fun k => ?_, codeLines_pairwise lines, fun i => mem_comments_of_opensAt⟩
  rw [mem_codeLines_iff_role, role_eq_code_iff]
  refine and_congr_right fun hk => and_congr_left fun hrole => ?_
  exact (not_covered_iff hk hrole.2.2).symm

/-- two lines that look like the start of a comment, around one that is -/
def layeredLines : List Line :=
  ["// /* a".toList, " /* b".toList, "/* c".toList, "d */ e".toList, "let f = 1".toList]

/-- The comment opens on line 1 only, and leaves the last line out. -/
theorem comments_layeredLines :
    OpensAt layeredLines 1 ∧ ¬ OpensAt layeredLines 2 ∧ ClosedOn layeredLines 1 3 ∧
      ∀ i, OpensAt layeredLines i → ¬ CommentCovers layeredLines i 4 := by
  have hopens : OpensAt layeredLines 1 := by
    rw [opensAt_iff rfl, ← commentBehind_take_iff (by decide)]
    exact ⟨⟨by decide, by decide⟩, by decide⟩
  have hinside : ¬ OpensAt layeredLines 2 := by
    rw [opensAt_iff rfl, ← commentBehind_take_iff (by decide)]
    exact fun h => h.2 (by decide)
  obtain ⟨hcode, -, hfolds⟩ := codeLines_outside_comments layeredLines
  have hfold : ⟨1, 3, .comment⟩ ∈ folds layeredLines := by decide
  have hlast : ⟨4, "let f = 1".toList⟩ ∈ codeLines layeredLines := by decide
  exact ⟨hopens, hinside, (hfolds 1 hopens 3).mp hfold, ((hcode _).mp hlast).2.1⟩

end LanguageService
