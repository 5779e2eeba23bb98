import LanguageService.Proofs.Editor.BlankLine
import LanguageService.Proofs.Text.Braces

/-!
# Folds and matching braces

A fold of braces is a pair of lines with braces that match in the whole document, and a fold of a
comment goes from a line that opens one to the first line that closes one.

* `lineOfChar`                the line of a character of a document
* `regionOf`, `regions_folds` the folds of braces are those of the matches, as these close
* `not_crossing_regions`      no two of them cross
* `CommentSpan`, `mem_comments_iff`   the folds of comments
* `folds_spec`                all of it together
-/

namespace LanguageService

/-! ## the lines of characters -/

/-- The number of the line of a character, which is given by its place among the characters of all
lines. -/
def lineOfChar : List Line → Nat → Nat
  | [], _ => 0
  | l :: ls, k => if k < l.length then 0 else lineOfChar ls (k - l.length) + 1

theorem lineOfChar_of_lt {l : Line} {k : Nat} (h : k < l.length) (ls : List Line) :
    lineOfChar (l :: ls) k = 0 :=
  if_pos h

theorem lineOfChar_length_add (l : Line) (ls : List Line) (k : Nat) :
    lineOfChar (l :: ls) (l.length + k) = lineOfChar ls k + 1 := by
  rw [lineOfChar, if_neg (by omega), Nat.add_sub_cancel_left]

theorem lineOfChar_append (above below : List Line) (k : Nat) :
    lineOfChar (above ++ below) (above.flatten.length + k) = above.length + lineOfChar below k := by
  induction above with
  | nil =>
    rw [List.flatten_nil, List.length_nil, Nat.zero_add, List.length_nil, Nat.zero_add]
    rfl
  | cons l above ih =>
    rw [List.flatten_cons, List.length_append, Nat.add_assoc, List.cons_append,
      lineOfChar_length_add, ih, List.length_cons]
    omega

theorem lineOfChar_mono (lines : List Line) {j k : Nat} (h : j ≤ k) :
    lineOfChar lines j ≤ lineOfChar lines k := by
  induction lines generalizing j k with
  | nil => exact Nat.le_refl _
  | cons l ls ih =>
    by_cases hj : j < l.length
    · rw [lineOfChar_of_lt hj]
      exact Nat.zero_le _
    · rw [lineOfChar, lineOfChar, if_neg hj, if_neg (by omega)]
      exact Nat.succ_le_succ (ih (by omega))

/-! ## folds of braces -/

/-- the fold of two braces that match, if they stand on different lines -/
def regionOf (line : Nat → Nat) (p : Nat × Nat) : Option Fold :=
  if line p.1 < line p.2 then some ⟨line p.1, line p.2, .region⟩ else none

/-- One line: the matches that close on it, and the braces that are open behind it. -/
theorem braceFolds_eq {line : Nat → Nat} {n pos : Nat} {l : Line}
    (h : ∀ k < l.length, line (pos + k) = n) (opened : List Nat) :
    braceFolds n (opened.map line) l = ((matchedPlaces pos opened l).filterMap (regionOf line),
      (openBraces pos opened l).map line) := by
  induction l generalizing pos opened with
  | nil => rfl
  | cons c l ih =>
    have hpos : line pos = n := h 0 (Nat.succ_pos _)
    have hnext : ∀ k < l.length, line (pos + 1 + k) = n := by
      intro k hk
      rw [Nat.add_assoc, Nat.add_comm 1]
      exact h (k + 1) (Nat.succ_lt_succ hk)
    by_cases ho : c = '{'
    · subst ho
      have hopen := ih hnext (pos :: opened)
      rw [List.map_cons, hpos] at hopen
      exact hopen
    · by_cases hc : c = '}'
      · subst hc
        cases opened with
        | nil => exact ih hnext []
        | cons i outer =>
          have houter := ih hnext outer
          have hplaces : matchedPlaces pos (i :: outer) ('}' :: l) =
              (i, pos) :: matchedPlaces (pos + 1) outer l := rfl
          rw [List.map_cons, braceFolds_close_cons, houter, hplaces, openBraces_close,
            List.tail_cons]
          by_cases hlt : line i < n
          · have hregion : regionOf line (i, pos) = some ⟨line i, n, .region⟩ := by
              rw [regionOf, hpos, if_pos hlt]
            rw [if_pos hlt, List.filterMap_cons_some hregion]
          · have hregion : regionOf line (i, pos) = none := by rw [regionOf, hpos, if_neg hlt]
            rw [if_neg hlt, List.filterMap_cons_none hregion]
      · have hplaces : matchedPlaces pos opened (c :: l) = matchedPlaces (pos + 1) opened l := by
          rw [matchedPlaces, if_neg ho, if_neg hc]
        rw [braceFolds_other ho hc, openBraces_other ho hc, hplaces]
        exact ih hnext opened

/-- the folds of one kind, in their order -/
def foldsOfKind (kind : FoldKind) (fs : List Fold) : List Fold :=
  fs.filter fun f => f.kind = kind

theorem mem_foldsOfKind_iff {kind : FoldKind} {fs : List Fold} {f : Fold} :
    f ∈ foldsOfKind kind fs ↔ f ∈ fs ∧ f.kind = kind := by
  rw [foldsOfKind, List.mem_filter, decide_eq_true_eq]

theorem foldsOfKind_append (kind : FoldKind) (fs gs : List Fold) :
    foldsOfKind kind (fs ++ gs) = foldsOfKind kind fs ++ foldsOfKind kind gs :=
  List.filter_append _ _

theorem kind_of_regionOf {line : Nat → Nat} {p : Nat × Nat} {f : Fold}
    (h : regionOf line p = some f) : f.kind = .region := by
  unfold regionOf at h
  split at h
  · rw [← Option.some.inj h]
  · cases h

theorem kind_of_mem_braceFolds {n : Nat} {l : Line} {opened : List Nat} {f : Fold}
    (hf : f ∈ (braceFolds n opened l).1) : f.kind = .region := by
  induction l generalizing opened with
  | nil => exact absurd hf List.not_mem_nil
  | cons c l ih =>
    by_cases ho : c = '{'
    · subst ho
      exact ih hf
    · by_cases hc : c = '}'
      · subst hc
        cases opened with
        | nil => exact ih hf
        | cons i outer =>
          rw [braceFolds_close_cons] at hf
          split at hf
          · rcases List.mem_cons.mp hf with rfl | hf
            · rfl
            · exact ih hf
          · exact ih hf
      · rw [braceFolds_other ho hc] at hf
        exact ih hf

theorem kind_of_commentFold? {n : Nat} {ls : List Line} {f : Fold}
    (h : commentFold? n ls = some f) : f.kind = .comment := by
  cases ls with
  | nil => cases h
  | cons l ls =>
    rw [commentFold?_cons] at h
    split at h
    · obtain ⟨i, -, hi⟩ := Option.bind_eq_some_iff.mp h
      split at hi
      · cases hi
      · rw [← Option.some.inj hi]
    · cases h

/-- One line: of the folds that it closes, and of the fold of the comment that it opens, the first
are folds of braces. -/
theorem foldsOfKind_region_step {line : Nat → Nat} {n pos : Nat} {l : Line}
    (h : ∀ k < l.length, line (pos + k) = n) (opened : List Nat) (ls : List Line) :
    foldsOfKind .region ((braceFolds n (opened.map line) l).1 ++ (commentFold? n ls).toList) =
      (matchedPlaces pos opened l).filterMap (regionOf line) := by
  have hregions : foldsOfKind .region ((matchedPlaces pos opened l).filterMap (regionOf line)) =
      (matchedPlaces pos opened l).filterMap (regionOf line) := by
    refine List.filter_eq_self.mpr fun f hf => ?_
    obtain ⟨p, -, hp⟩ := List.mem_filterMap.mp hf
    exact decide_eq_true (kind_of_regionOf hp)
  have hcomment : foldsOfKind .region (commentFold? n ls).toList = [] := by
    refine List.filter_eq_nil_iff.mpr fun f hf => ?_
    rw [kind_of_commentFold? (Option.mem_toList.mp hf)]
    decide
  rw [braceFolds_eq h, foldsOfKind_append, hregions, hcomment, List.append_nil]

theorem foldsOfKind_region_foldsFrom {line : Nat → Nat} {n pos : Nat} {ls : List Line}
    (h : ∀ k < ls.flatten.length, line (pos + k) = n + lineOfChar ls k) (opened : List Nat) :
    foldsOfKind .region (foldsFrom n (opened.map line) ls) =
      (matchedPlaces pos opened ls.flatten).filterMap (regionOf line) := by
  induction ls generalizing n pos opened with
  | nil => rfl
  | cons l ls ih =>
    rw [List.flatten_cons] at h
    have hhere : ∀ k < l.length, line (pos + k) = n := by
      intro k hk
      rw [h k (by rw [List.length_append]; omega), lineOfChar_of_lt hk, Nat.add_zero]
    have hbelow : ∀ k < ls.flatten.length, line (pos + l.length + k) = n + 1 + lineOfChar ls k := by
      intro k hk
      rw [Nat.add_assoc, h (l.length + k) (by rw [List.length_append]; omega),
        lineOfChar_length_add]
      omega
    have hopened : (braceFolds n (opened.map line) l).2 = (openBraces pos opened l).map line := by
      rw [braceFolds_eq hhere]
    rw [foldsFrom, foldsOfKind_append, foldsOfKind_region_step hhere, hopened, ih hbelow,
      List.flatten_cons, matchedPlaces_append, List.filterMap_append]

/-- The folds of braces are those of the matches of the document, in the order in which these
close. -/
theorem regions_folds (lines : List Line) : foldsOfKind .region (folds lines) =
    (matchedPlaces 0 [] lines.flatten).filterMap (regionOf (lineOfChar lines)) := by
  have hline : ∀ k < lines.flatten.length, lineOfChar lines (0 + k) = 0 + lineOfChar lines k := by
    intro k _
    rw [Nat.zero_add, Nat.zero_add]
  exact foldsOfKind_region_foldsFrom hline []

theorem mem_regions_iff {lines : List Line} {s e : Nat} : ⟨s, e, .region⟩ ∈ folds lines ↔
    ∃ i j, Matched lines.flatten i j ∧ s = lineOfChar lines i ∧ e = lineOfChar lines j ∧ s < e := by
  have hkind : ⟨s, e, .region⟩ ∈ folds lines ↔
      ⟨s, e, .region⟩ ∈ foldsOfKind .region (folds lines) := by
    rw [mem_foldsOfKind_iff]
    exact (and_iff_left rfl).symm
  rw [hkind, regions_folds, List.mem_filterMap]
  constructor
  · rintro ⟨⟨i, j⟩, hp, hregion⟩
    unfold regionOf at hregion
    split at hregion
    · next hlt =>
      obtain ⟨rfl, rfl, -⟩ := Fold.mk.inj (Option.some.inj hregion)
      exact ⟨i, j, mem_matchedPlaces_iff_matched.mp hp, rfl, rfl, hlt⟩
    · cases hregion
  · rintro ⟨i, j, hm, rfl, rfl, hlt⟩
    exact ⟨(i, j), mem_matchedPlaces_iff_matched.mpr hm, if_pos hlt⟩

theorem not_crossing_regions {lines : List Line} {s e s' e' : Nat}
    (h : ⟨s, e, .region⟩ ∈ folds lines) (h' : ⟨s', e', .region⟩ ∈ folds lines) :
    ¬(s < s' ∧ s' < e ∧ e < e') := by
  obtain ⟨i, j, hm, rfl, rfl, -⟩ := mem_regions_iff.mp h
  obtain ⟨k, l, hm', rfl, rfl, -⟩ := mem_regions_iff.mp h'
  -- characters on different lines stand in the order of the lines
  have horder : ∀ {a b : Nat}, lineOfChar lines a < lineOfChar lines b → a < b := by
    intro a b hlt
    by_contra hle
    exact absurd (lineOfChar_mono lines (Nat.le_of_not_lt hle)) (Nat.not_le_of_gt hlt)
  rintro ⟨hss, hse, hee⟩
  exact not_crossing hm hm' ⟨horder hss, horder hse, horder hee⟩

/-! ## folds of comments -/

/-- A comment opens on line `i`, and line `j`, which stands below it, is the first from there on that
closes one. -/
structure CommentSpan (lines : List Line) (i j : Nat) : Prop where
  below : i < j
  opens : ∃ l, lines[i]? = some l ∧ occursIn opensBlock l = true
  closes : ∃ l, lines[j]? = some l ∧ occursIn closesBlock l = true
  first : ∀ k, i ≤ k → k < j → ∀ l, lines[k]? = some l → occursIn closesBlock l = false

theorem commentFold?_eq_some_iff {n : Nat} {l : Line} {ls : List Line} {f : Fold} :
    commentFold? n (l :: ls) = some f ↔
      ∃ j, f = ⟨n, n + j, .comment⟩ ∧ CommentSpan (l :: ls) 0 j := by
  rw [commentFold?_cons]
  constructor
  · intro h
    split at h
    · next hopens =>
      obtain ⟨j, hj, hfold⟩ := Option.bind_eq_some_iff.mp h
      obtain ⟨hlt, hcloses, hfirst⟩ := List.findIdx?_eq_some_iff_getElem.mp hj
      split at hfold
      · cases hfold
      · next hne =>
        refine ⟨j, (Option.some.inj hfold).symm, Nat.pos_of_ne_zero hne, ⟨l, rfl, hopens⟩,
          ⟨_, List.getElem?_eq_getElem hlt, hcloses⟩, fun k _ hk m hm => ?_⟩
        obtain ⟨-, rfl⟩ := List.getElem?_eq_some_iff.mp hm
        exact Bool.eq_false_iff.mpr (hfirst k hk)
    · cases h
  · rintro ⟨j, rfl, hspan⟩
    obtain ⟨m, hm, hopens⟩ := hspan.opens
    obtain rfl := Option.some.inj hm
    obtain ⟨m, hm, hcloses⟩ := hspan.closes
    obtain ⟨hlt, rfl⟩ := List.getElem?_eq_some_iff.mp hm
    have hj : (l :: ls).findIdx? (occursIn closesBlock) = some j := by
      refine List.findIdx?_eq_some_iff_getElem.mpr ⟨hlt, hcloses, fun k hk => ?_⟩
      have := hspan.first k (Nat.zero_le k) hk _ (List.getElem?_eq_getElem (by omega))
      rw [this]
      decide
    rw [if_pos hopens, hj]
    exact if_neg (Nat.pos_iff_ne_zero.mp hspan.below)

theorem commentSpan_succ_iff {l : Line} {ls : List Line} {i j : Nat} :
    CommentSpan (l :: ls) (i + 1) (j + 1) ↔ CommentSpan ls i j := by
  constructor
  · rintro ⟨hbelow, hopens, hcloses, hfirst⟩
    refine ⟨Nat.lt_of_succ_lt_succ hbelow, hopens, hcloses, fun k hik hkj => ?_⟩
    exact hfirst (k + 1) (Nat.succ_le_succ hik) (Nat.succ_lt_succ hkj)
  · rintro ⟨hbelow, hopens, hcloses, hfirst⟩
    refine ⟨Nat.succ_lt_succ hbelow, hopens, hcloses, fun k hik hkj => ?_⟩
    obtain ⟨k, rfl⟩ := Nat.exists_eq_succ_of_ne_zero (Nat.ne_of_gt (Nat.lt_of_lt_of_le i.succ_pos hik))
    exact hfirst k (Nat.le_of_succ_le_succ hik) (Nat.lt_of_succ_lt_succ hkj)

/-- One line: the comment that it opens, and the comments below. -/
theorem foldsOfKind_comment_step (n : Nat) (opened : List Nat) (l : Line) (ls : List Line) :
    foldsOfKind .comment (foldsFrom n opened (l :: ls)) = (commentFold? n (l :: ls)).toList ++
      foldsOfKind .comment (foldsFrom (n + 1) (braceFolds n opened l).2 ls) := by
  have hbraces : foldsOfKind .comment (braceFolds n opened l).1 = [] := by
    refine List.filter_eq_nil_iff.mpr fun f hf => ?_
    rw [kind_of_mem_braceFolds hf]
    decide
  have hcomment : foldsOfKind .comment (commentFold? n (l :: ls)).toList =
      (commentFold? n (l :: ls)).toList := by
    refine List.filter_eq_self.mpr fun f hf => ?_
    exact decide_eq_true (kind_of_commentFold? (Option.mem_toList.mp hf))
  rw [foldsFrom, foldsOfKind_append, foldsOfKind_append, hbraces, hcomment, List.nil_append]

theorem mem_foldsOfKind_comment_iff {n : Nat} {opened : List Nat} {ls : List Line} {f : Fold} :
    f ∈ foldsOfKind .comment (foldsFrom n opened ls) ↔
      ∃ i j, f = ⟨n + i, n + j, .comment⟩ ∧ CommentSpan ls i j := by
  induction ls generalizing n opened with
  | nil =>
    refine iff_of_false List.not_mem_nil ?_
    rintro ⟨i, j, -, hspan⟩
    obtain ⟨l, hl, -⟩ := hspan.opens
    cases hl
  | cons l ls ih =>
    rw [foldsOfKind_comment_step, List.mem_append, Option.mem_toList, commentFold?_eq_some_iff, ih]
    constructor
    · rintro (⟨j, rfl, hspan⟩ | ⟨i, j, rfl, hspan⟩)
      · exact ⟨0, j, rfl, hspan⟩
      · refine ⟨i + 1, j + 1, ?_, commentSpan_succ_iff.mpr hspan⟩
        rw [Nat.add_assoc, Nat.add_comm 1, Nat.add_assoc n 1 j, Nat.add_comm 1 j]
    · rintro ⟨i, j, rfl, hspan⟩
      cases i with
      | zero => exact Or.inl ⟨j, rfl, hspan⟩
      | succ i =>
        obtain ⟨j, rfl⟩ := Nat.exists_eq_succ_of_ne_zero (Nat.ne_of_gt (Nat.zero_lt_of_lt hspan.below))
        refine Or.inr ⟨i, j, ?_, commentSpan_succ_iff.mp hspan⟩
        rw [Nat.add_assoc n 1 i, Nat.add_comm 1 i, Nat.add_assoc n 1 j, Nat.add_comm 1 j]

theorem comments_pairwise (n : Nat) (opened : List Nat) (ls : List Line) :
    (foldsOfKind .comment (foldsFrom n opened ls)).Pairwise fun f g => f.start < g.start := by
  induction ls generalizing n opened with
  | nil => exact List.Pairwise.nil
  | cons l ls ih =>
    rw [foldsOfKind_comment_step, List.pairwise_append]
    refine ⟨?_, ih _ _, fun f hf g hg => ?_⟩
    · cases commentFold? n (l :: ls) with
      | none => exact List.Pairwise.nil
      | some f => exact List.pairwise_singleton _ _
    · obtain ⟨j, rfl, -⟩ := commentFold?_eq_some_iff.mp (Option.mem_toList.mp hf)
      obtain ⟨i, j, rfl, -⟩ := mem_foldsOfKind_comment_iff.mp hg
      show n < n + 1 + i
      omega

theorem mem_comments_iff {lines : List Line} {i j : Nat} :
    ⟨i, j, .comment⟩ ∈ folds lines ↔ CommentSpan lines i j := by
  have hkind : ⟨i, j, .comment⟩ ∈ folds lines ↔
      ⟨i, j, .comment⟩ ∈ foldsOfKind .comment (folds lines) := by
    rw [mem_foldsOfKind_iff]
    exact (and_iff_left rfl).symm
  rw [hkind, folds, mem_foldsOfKind_comment_iff]
  constructor
  · rintro ⟨i', j', heq, hspan⟩
    obtain ⟨rfl, rfl, -⟩ := Fold.mk.inj heq
    rwa [Nat.zero_add, Nat.zero_add]
  · intro hspan
    exact ⟨i, j, by rw [Nat.zero_add, Nat.zero_add], hspan⟩

/-! ## all folds -/

/-- **Folds.**  The folds of braces are those of the braces of the document that match and stand on
different lines, in the order in which they close; no two of them cross.  The folds of comments are
those from a line that opens one to the first line from there on that closes one, if this stands
below, in the order of their first lines. -/
theorem folds_spec (lines : List Line) :
    (∃ pairs : List (Nat × Nat), pairs.Pairwise (fun p q => p.2 < q.2) ∧
      (∀ i j, (i, j) ∈ pairs ↔ Matched lines.flatten i j) ∧
      foldsOfKind .region (folds lines) = pairs.filterMap (regionOf (lineOfChar lines))) ∧
    (¬∃ s e s' e', ⟨s, e, .region⟩ ∈ folds lines ∧ ⟨s', e', .region⟩ ∈ folds lines ∧
      s < s' ∧ s' < e ∧ e < e') ∧
    (∀ i j, ⟨i, j, .comment⟩ ∈ folds lines ↔ CommentSpan lines i j) ∧
    (foldsOfKind .comment (folds lines)).Pairwise fun f g => f.start < g.start :=
  ⟨⟨matchedPlaces 0 [] lines.flatten, matchedPlaces_pairwise _ _ _,
      fun _ _ => mem_matchedPlaces_iff_matched, regions_folds lines⟩,
    fun ⟨_, _, _, _, hf, hf', h⟩ => not_crossing_regions hf hf' h,
    fun _ _ => mem_comments_iff, comments_pairwise _ _ _⟩

end LanguageService
