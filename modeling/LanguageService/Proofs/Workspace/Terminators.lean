import LanguageService.Proofs.Workspace.Formatting

/-!
# Terminators of a text

The analysis of a document holds its lines without their terminators, and one terminator with which
lines are written back.  So a document can be laid out, with no edit left, while its text is not the
text that is written for it: terminators of two kinds become one kind, and a carriage return at the
very end is dropped.

* `allBreaks e text`        every terminator of the text is the given one
* `joinLines_splitLines_iff`  exactly then the text is written back as it was
* `breaksAlike text`        the same for the terminator that is written for the text
* `formatText_eq_iff`       the texts that laying out leaves alone
-/

namespace LanguageService

/-- Every line feed ends a line with the given terminator, and the text does not end with a carriage
return. -/
def allBreaks (e : LineEnding) : Line → Bool
  | [] => true
  | '\r' :: '\n' :: rest => e == .crlf && allBreaks e rest
  | '\n' :: rest => e == .lf && allBreaks e rest
  | c :: rest => (c != '\r' || !rest.isEmpty) && allBreaks e rest

/-- every line of the text ends with the terminator that is written for it -/
def breaksAlike (text : Line) : Bool :=
  allBreaks (LineEnding.of text) text

/-! ## the first line -/

/-- the first piece of a text is empty only before a line feed or at the end -/
theorem ne_nil_of_splitAtFeeds {c : Char} {rest : Line} (hc : c ≠ '\n') {l : Line} {ls : List Line}
    (h : splitAtFeeds (c :: rest) = l :: ls) : l ≠ [] := by
  obtain ⟨k, ks, hk⟩ := List.exists_cons_of_ne_nil (splitAtFeeds_ne_nil rest)
  rw [splitAtFeeds_cons hc rest hk] at h
  obtain ⟨rfl, -⟩ := List.cons.inj h
  exact List.cons_ne_nil _ _

theorem splitLines_cons {c : Char} {rest : Line} (hn : c ≠ '\n')
    (hr : c = '\r' → ∃ d r, rest = d :: r ∧ d ≠ '\n') :
    ∃ l ls, splitLines rest = l :: ls ∧ splitLines (c :: rest) = (c :: l) :: ls := by
  obtain ⟨l, ls, hl⟩ := List.exists_cons_of_ne_nil (splitAtFeeds_ne_nil rest)
  refine ⟨dropReturn l, ls.map dropReturn, by rw [splitLines, hl, List.map_cons], ?_⟩
  rw [splitLines, splitAtFeeds_cons hn rest hl, List.map_cons]
  congr 1
  by_cases h : c = '\r'
  · obtain ⟨d, r, rfl, hd⟩ := hr h
    exact dropReturn_cons_of_ne_nil c (ne_nil_of_splitAtFeeds hd hl)
  · exact dropReturn_cons h l

theorem joinLines_cons (e : LineEnding) (c : Char) (l : Line) (ls : List Line) :
    joinLines e ((c :: l) :: ls) = c :: joinLines e (l :: ls) := by
  cases ls with
  | nil => rw [joinLines_singleton, joinLines_singleton]
  | cons k ls => rw [joinLines_cons_cons, joinLines_cons_cons, List.cons_append]

theorem joinLines_nil_cons (e : LineEnding) {ls : List Line} (h : ls ≠ []) :
    joinLines e ([] :: ls) = e.chars ++ joinLines e ls := by
  obtain ⟨k, ls, rfl⟩ := List.exists_cons_of_ne_nil h
  rw [joinLines_cons_cons, List.nil_append]

/-! ## lines written back -/

/-- the lines of a text give the text back exactly if all its terminators are the given one -/
theorem joinLines_splitLines_iff (e : LineEnding) (text : Line) :
    joinLines e (splitLines text) = text ↔ allBreaks e text = true := by
  fun_induction allBreaks e text with
  | case1 => exact iff_of_true rfl rfl
  | case2 rest ih =>
    rw [splitLines_returnFeed, joinLines_nil_cons e (splitLines_ne_nil rest)]
    cases e with
    | lf =>
      exact iff_of_false (fun h => absurd (List.cons.inj h).1 (by decide))
        Bool.false_ne_true
    | crlf =>
      show '\r' :: '\n' :: joinLines .crlf (splitLines rest) = _ ↔ _
      rw [List.cons.injEq, List.cons.injEq, ih]
      simp
  | case3 rest ih =>
    rw [splitLines_feed, joinLines_nil_cons e (splitLines_ne_nil rest)]
    cases e with
    | lf =>
      show '\n' :: joinLines .lf (splitLines rest) = _ ↔ _
      rw [List.cons.injEq, ih]
      simp
    | crlf =>
      exact iff_of_false (fun h => absurd (List.cons.inj h).1 (by decide))
        Bool.false_ne_true
  | case4 c rest hcr hn ih =>
    by_cases hend : c = '\r' ∧ rest = []
    · obtain ⟨rfl, rfl⟩ := hend
      exact iff_of_false (fun h => nomatch h) Bool.false_ne_true
    · have hr : c = '\r' → ∃ d r, rest = d :: r ∧ d ≠ '\n' := by
        intro h
        obtain ⟨d, r, rfl⟩ := List.exists_cons_of_ne_nil fun h' => hend ⟨h, h'⟩
        refine ⟨d, r, rfl, ?_⟩
        rintro rfl
        exact hcr r h rfl
      obtain ⟨l, ls, hl, hcons⟩ := splitLines_cons hn hr
      have hkeep : (c != '\r' || !rest.isEmpty) = true := by
        rw [Bool.or_eq_true, bne_iff_ne, Bool.not_eq_true', List.isEmpty_eq_false_iff, ← not_and_or]
        exact hend
      rw [hcons, joinLines_cons, ← hl, List.cons.injEq, ih, hkeep, Bool.true_and]
      exact and_iff_right rfl

/-! ## laying out a text -/

theorem formatEdits_of (text : Line) : formatEdits (Analysis.of text) =
    if layout 0 (splitLines text) = splitLines text then []
    else [⟨Range.ofLines (splitLines text), formatText text⟩] := rfl

/-- **The texts that are laid out.**  There is no edit exactly if laying out keeps the lines of the
text; else there is one, for the whole document, and its text is the text laid out.  Laying out keeps
the text itself exactly if there is no edit and all terminators are alike. -/
theorem formatText_eq_iff (text : Line) :
    (formatEdits (Analysis.of text) = [] ↔ splitLines (formatText text) = splitLines text) ∧
    (formatText text = text ↔
      formatEdits (Analysis.of text) = [] ∧ breaksAlike text = true) ∧
    (formatEdits (Analysis.of text) = [] ∨
      formatEdits (Analysis.of text) =
        [⟨Range.ofLines (splitLines text), formatText text⟩]) := by
  have hnone : formatEdits (Analysis.of text) = [] ↔
      layout 0 (splitLines text) = splitLines text := formatEdits_eq_nil_iff _
  refine ⟨?_, ?_, ?_⟩
  · rw [hnone, splitLines_formatText]
  · rw [hnone, breaksAlike, ← joinLines_splitLines_iff]
    constructor
    · intro h
      have hlaid : layout 0 (splitLines text) = splitLines text := by
        rw [← splitLines_formatText, h]
      refine ⟨hlaid, ?_⟩
      rw [formatText, hlaid] at h
      exact h
    · intro h
      rw [formatText, h.1, h.2]
  · rw [formatEdits_of]
    split
    · exact Or.inl rfl
    · exact Or.inr rfl

/-- three lines, the first of which ends with LF and the second with CR LF -/
def mixedText : Line := ['a', '\n', 'b', '\r', '\n', 'c']

/-- the same lines, both with CR LF -/
def evenText : Line := ['a', '\r', '\n', 'b', '\r', '\n', 'c']

/-- There is nothing to edit in either text, as they have one analysis, but laying out makes the
second one of the first. -/
theorem formatText_mixedText :
    formatEdits (Analysis.of mixedText) = [] ∧ formatText mixedText ≠ mixedText ∧
      formatText mixedText = evenText ∧ formatText evenText = evenText ∧
      Analysis.of mixedText = Analysis.of evenText := by
  decide +kernel

end LanguageService
