import LanguageService.Proofs.Source.CursorWord

/-!
# The word that touches the cursor

The cursor stands between two characters of its line.  The word under it is the maximal run of name
characters that ends, begins or goes on there, and every place of this run leads to it again.

* `CursorBetween l col y z`   the cursor at a column cuts the line into these two parts
* `cursorBetween_place`, `CursorBetween.unique`   the cut is that at the place of the column
* `Touches l k s`             a maximal run of name characters that touches place `k`
* `wordSpan_of_touches`, `touches_wordSpan`   the scan in both directions finds this run
* `wordAt_spec`               when there is a word, which it is, and where it is found again
-/

namespace LanguageService

/-! ## the cursor -/

/-- The cursor at a column cuts the line in two: in front of it stands the shortest part that
reaches the column, or the whole line if no part does. -/
structure CursorBetween (l : Line) (col : Nat) (y z : Line) : Prop where
  line : l = y ++ z
  shortest : ∀ x c v, y = x ++ c :: v → width x < col
  reaches : z ≠ [] → col ≤ width y

theorem CursorBetween.length_le {l y z y' z' : Line} {col : Nat} (h : CursorBetween l col y z)
    (h' : CursorBetween l col y' z') : y'.length ≤ y.length := by
  apply Nat.le_of_not_lt
  intro hlt
  -- then the first part is one that does not reach the column yet
  have hpre : y <+: y' :=
    List.prefix_of_prefix_length_le ⟨z, h.line.symm⟩ ⟨z', h'.line.symm⟩ (Nat.le_of_lt hlt)
  obtain ⟨v, rfl⟩ := hpre
  cases v with
  | nil => simp at hlt
  | cons c v =>
    have hline : y ++ z = y ++ (c :: v ++ z') := by
      rw [← h.line, h'.line, List.append_assoc]
    have hz : z = c :: v ++ z' := List.append_cancel_left hline
    have hreach : col ≤ width y := h.reaches (by rw [hz]; exact List.cons_ne_nil _ _)
    have hshort := h'.shortest y c v rfl
    omega

theorem CursorBetween.unique {l y z y' z' : Line} {col : Nat} (h : CursorBetween l col y z)
    (h' : CursorBetween l col y' z') : y = y' ∧ z = z' :=
  List.append_inj (h.line.symm.trans h'.line) (Nat.le_antisymm (h'.length_le h) (h.length_le h'))

theorem cursorBetween_place (l : Line) (col : Nat) :
    CursorBetween l col (l.take (place l col)) (l.drop (place l col)) := by
  induction l generalizing col with
  | nil =>
    refine ⟨rfl, fun x c v h => ?_, fun h => absurd rfl h⟩
    simp at h
  | cons d l ih =>
    by_cases hcol : col = 0
    · rw [place, if_pos hcol, hcol]
      refine ⟨rfl, fun x c v h => ?_, fun _ => Nat.zero_le _⟩
      simp at h
    · rw [place, if_neg hcol, List.take_succ_cons, List.drop_succ_cons]
      have hrest := ih (col - units d)
      refine ⟨by rw [List.cons_append, ← hrest.line], fun x c v h => ?_, fun h => ?_⟩
      · cases x with
        | nil =>
          show 0 < col
          omega
        | cons e x =>
          obtain ⟨rfl, htail⟩ := List.cons.inj h
          have := hrest.shortest x c v htail
          show units d + width x < col
          omega
      · have := hrest.reaches h
        show col ≤ units d + width _
        omega

theorem CursorBetween.length_eq {l y z : Line} {col : Nat} (h : CursorBetween l col y z) :
    y.length = place l col := by
  rw [(h.unique (cursorBetween_place l col)).1, List.length_take]
  exact Nat.min_eq_left (place_le_length l col)

/-! ## the run that touches a place -/

/-- A maximal run of name characters that ends, begins or goes on at place `k`. -/
structure Touches (l : Line) (k : Nat) (s : Span) : Prop where
  run : IsRun isNameChar l s
  start_le : s.start ≤ k
  le_stop : k ≤ s.stop

theorem IsRun.start_lt_stop {p : Char → Bool} {l : Line} {s : Span} (h : IsRun p l s) :
    s.start < s.stop := by
  obtain ⟨before, w, after, -, -, hne, -, -, rfl⟩ := h
  have := List.length_pos_iff.mpr hne
  show before.length < before.length + w.length
  omega

theorem IsRun.stop_le {p : Char → Bool} {l : Line} {s : Span} (h : IsRun p l s) :
    s.stop ≤ l.length := by
  obtain ⟨before, w, after, rfl, -, -, -, -, rfl⟩ := h
  simp only [List.length_append]
  omega

theorem wordSpan_of_touches {l : Line} {k : Nat} {s : Span} (h : Touches l k s) :
    wordSpan l k = s := by
  obtain ⟨⟨before, w, after, rfl, hbefore, -, hw, hafter, rfl⟩, hle, hge⟩ := h
  simp only at hle hge
  obtain ⟨u, v, rfl, rfl⟩ : ∃ u v, w = u ++ v ∧ k = (before ++ u).length := by
    refine ⟨w.take (k - before.length), w.drop (k - before.length),
      (List.take_append_drop _ _).symm, ?_⟩
    rw [List.length_append, List.length_take]
    omega
  have hleft : (before ++ u).reverse.takeWhile isNameChar = u.reverse := by
    rw [List.reverse_append]
    apply takeWhile_append_of_run
    · exact fun c hc => hw c (List.mem_append_left _ (List.mem_reverse.mp hc))
    · rwa [List.head?_reverse]
  have hright : (v ++ after).takeWhile isNameChar = v :=
    takeWhile_append_of_run (fun c hc => hw c (List.mem_append_right _ hc)) hafter
  have hcut : before ++ (u ++ v ++ after) = (before ++ u) ++ (v ++ after) := by
    simp only [List.append_assoc]
  rw [hcut, wordSpan_append, hleft, hright, List.length_reverse]
  simp only [List.length_append]
  congr 1 <;> omega

/-- what the scan finds, if it finds anything, is the run that touches the place -/
theorem touches_wordSpan {l : Line} {k : Nat} (hk : k ≤ l.length)
    (hne : (wordSpan l k).start ≠ (wordSpan l k).stop) : Touches l k (wordSpan l k) := by
  obtain ⟨y, z, rfl, rfl⟩ : ∃ y z, l = y ++ z ∧ k = y.length :=
    ⟨l.take k, l.drop k, (List.take_append_drop k l).symm,
      by rw [List.length_take, Nat.min_eq_left hk]⟩
  have hsplit := append_run isNameChar y
  have hlen := congrArg List.length hsplit
  rw [List.length_append, List.length_reverse, List.length_reverse] at hlen
  rw [wordSpan_append] at hne ⊢
  refine ⟨⟨(y.reverse.dropWhile isNameChar).reverse,
    (y.reverse.takeWhile isNameChar).reverse ++ z.takeWhile isNameChar, z.dropWhile isNameChar,
    ?_, ?_, ?_, ?_, head?_dropWhile_any isNameChar z, ?_⟩, Nat.sub_le _ _, Nat.le_add_right _ _⟩
  · rw [List.append_assoc, List.takeWhile_append_dropWhile, ← List.append_assoc, hsplit]
  · rw [List.getLast?_reverse]
    exact head?_dropWhile_any isNameChar y.reverse
  · intro hempty
    obtain ⟨hleft, hright⟩ := List.append_eq_nil_iff.mp hempty
    rw [List.reverse_eq_nil_iff.mp hleft, hright] at hne
    exact hne rfl
  · intro c hc
    rcases List.mem_append.mp hc with hc | hc
    · exact List.all_eq_true.mp List.all_takeWhile c (List.mem_reverse.mp hc)
    · exact List.all_eq_true.mp List.all_takeWhile c hc
  · rw [List.length_append, List.length_reverse, List.length_reverse]
    congr 1 <;> omega

theorem wordSpan_empty_iff {y z : Line} :
    (wordSpan (y ++ z) y.length).start = (wordSpan (y ++ z) y.length).stop ↔
      y.getLast?.any isNameChar = false ∧ z.head?.any isNameChar = false := by
  have hnone : ∀ x : Line, (x.takeWhile isNameChar).length = 0 ↔
      x.head?.any isNameChar = false := by
    intro x
    cases x with
    | nil => exact iff_of_true rfl rfl
    | cons c x =>
      rw [List.takeWhile_cons]
      cases h : isNameChar c <;> simp [h]
  have hle : (y.reverse.takeWhile isNameChar).length ≤ y.reverse.length :=
    (List.takeWhile_sublist _).length_le
  rw [List.length_reverse] at hle
  rw [← List.head?_reverse, ← hnone, ← hnone, wordSpan_append]
  show y.length - _ = y.length + _ ↔ _
  omega

/-! ## the word under the cursor -/

section
variable {lines : List Line} {p : Position} {l : Line} {s : Span}

theorem wordAt_of_touches (hl : lines[p.line]? = some l) (h : Touches l (place l p.character) s) :
    wordAt lines p = some ⟨s.text l, s.range p.line l⟩ := by
  have hne := Nat.ne_of_lt h.run.start_lt_stop
  rw [wordAt, hl]
  simp only [wordSpan_of_touches h]
  rw [if_neg hne]

/-- the word is found from every column of its range, both ends included -/
theorem wordAt_of_run (hl : lines[p.line]? = some l) (h : IsRun isNameChar l s)
    (hle : column l s.start ≤ p.character) (hge : p.character ≤ column l s.stop) :
    wordAt lines p = some ⟨s.text l, s.range p.line l⟩ := by
  have hstop := h.stop_le
  have hlow := place_mono l hle
  have hhigh := place_mono l hge
  rw [place_column l _ (Nat.le_trans (Nat.le_of_lt h.start_lt_stop) hstop)] at hlow
  rw [place_column l _ hstop] at hhigh
  exact wordAt_of_touches hl ⟨h, hlow, hhigh⟩

theorem wordAt_eq_none_iff : wordAt lines p = none ↔ lines[p.line]? = none ∨
    ∃ l y z, lines[p.line]? = some l ∧ CursorBetween l p.character y z ∧
      y.getLast?.any isNameChar = false ∧ z.head?.any isNameChar = false := by
  rw [wordAt]
  cases hl : lines[p.line]? with
  | none => exact iff_of_true rfl (Or.inl rfl)
  | some l =>
    have hcut := cursorBetween_place l p.character
    have hempty := wordSpan_empty_iff (y := l.take (place l p.character))
      (z := l.drop (place l p.character))
    rw [← hcut.line, hcut.length_eq] at hempty
    simp only [Option.some.injEq, reduceCtorEq, false_or, ite_eq_left_iff, imp_false, not_not]
    rw [hempty]
    constructor
    · intro h
      exact ⟨l, _, _, rfl, hcut, h⟩
    · intro h
      obtain ⟨l', y, z, rfl, hcut', hsides⟩ := h
      obtain ⟨rfl, rfl⟩ := hcut'.unique hcut
      exact hsides

theorem wordAt_eq_some_iff {w : WordSite} : wordAt lines p = some w ↔
    ∃ l y z s, lines[p.line]? = some l ∧ CursorBetween l p.character y z ∧
      Touches l y.length s ∧ w = ⟨s.text l, s.range p.line l⟩ := by
  constructor
  · intro h
    rw [wordAt] at h
    cases hl : lines[p.line]? with
    | none =>
      rw [hl] at h
      cases h
    | some l =>
      rw [hl] at h
      simp only at h
      have hcut := cursorBetween_place l p.character
      split at h
      · cases h
      · next hne =>
        refine ⟨l, _, _, _, rfl, hcut, ?_, (Option.some.inj h).symm⟩
        rw [hcut.length_eq]
        exact touches_wordSpan (place_le_length l p.character) hne
  · intro h
    obtain ⟨l, y, z, s, hl, hcut, htouches, rfl⟩ := h
    rw [hcut.length_eq] at htouches
    exact wordAt_of_touches hl htouches

end

/-- **The word under the cursor.**  There is none if the line does not exist or no name character
stands on either side of the cursor.  Otherwise it is the maximal run of name characters that
touches the cursor, with its range, and it is found again from every position in its range. -/
theorem wordAt_spec (lines : List Line) (p : Position) :
    (wordAt lines p = none ↔ lines[p.line]? = none ∨
      ∃ l y z, lines[p.line]? = some l ∧ CursorBetween l p.character y z ∧
        y.getLast?.any isNameChar = false ∧ z.head?.any isNameChar = false) ∧
    (∀ w, wordAt lines p = some w ↔
      ∃ l y z s, lines[p.line]? = some l ∧ CursorBetween l p.character y z ∧
        Touches l y.length s ∧ w = ⟨s.text l, s.range p.line l⟩) ∧
    ∀ w, wordAt lines p = some w → ∀ q, w.range.start.le q = true → q.le w.range.stop = true →
      wordAt lines q = some w := by
  refine ⟨wordAt_eq_none_iff, fun w => wordAt_eq_some_iff, fun w hw q hle hge => ?_⟩
  obtain ⟨l, y, z, s, hl, -, htouches, rfl⟩ := wordAt_eq_some_iff.mp hw
  have hlow : p.line < q.line ∨ p.line = q.line ∧ column l s.start ≤ q.character :=
    Position.le_iff.mp hle
  have hhigh : q.line < p.line ∨ q.line = p.line ∧ q.character ≤ column l s.stop :=
    Position.le_iff.mp hge
  have hline : q.line = p.line := by omega
  rw [← hline] at hl ⊢
  exact wordAt_of_run hl htouches.run (by omega) (by omega)

/-- a word behind a letter of two units, where the cursor stands inside the letter -/
def clefLines : List Line := ["𝄞ab c".toList]

/-- The cursor inside the pair counts as standing behind it, where the word begins; from the end
of the word the same word is found. -/
theorem wordAt_clefLines :
    let w : WordSite := ⟨"ab", ⟨⟨0, 2⟩, ⟨0, 4⟩⟩⟩
    wordAt clefLines ⟨0, 1⟩ = some w ∧ w.range.start.le ⟨0, 4⟩ = true ∧
      Position.le ⟨0, 4⟩ w.range.stop = true ∧ wordAt clefLines ⟨0, 4⟩ = some w := by
  intro w
  have hword : wordAt clefLines ⟨0, 1⟩ = some w := by decide +kernel
  have hle : w.range.start.le ⟨0, 4⟩ = true := by decide
  have hge : Position.le ⟨0, 4⟩ w.range.stop = true := by decide
  exact ⟨hword, hle, hge, (wordAt_spec clefLines ⟨0, 1⟩).2.2 w hword _ hle hge⟩

end LanguageService
