import LanguageService.Editor.Layout
import LanguageService.Editor.Folding
import LanguageService.Proofs.Source.Reindent
import LanguageService.Proofs.Text.Lines

/-!
# Layout keeps the analysis

* `splitLines_formatText`    the lines of a text laid out are the lines laid out
* `layout_trim_eq`           layout changes margins only
* `folds_of_trim_eq`         folds do not depend on margins
* `formatText_keeps_analysis`   what the analysis of a text laid out has to do with that of the text
-/

namespace LanguageService

/-! ## the lines of a text laid out -/

theorem mem_of_mem_dropReturn {q : Line} {c : Char} (h : c ∈ dropReturn q) : c ∈ q := by
  unfold dropReturn at h
  split at h
  · exact (List.dropLast_sublist q).subset h
  · exact h

theorem splitLines_no_feed (text : Line) : ∀ l ∈ splitLines text, '\n' ∉ l := by
  intro l hl hmem
  obtain ⟨q, hq, rfl⟩ := List.mem_map.mp hl
  exact splitAtFeeds_no_feed text q hq (mem_of_mem_dropReturn hmem)

theorem mem_of_mem_trim {l : Line} {c : Char} (h : c ∈ trim l) : c ∈ l := by
  obtain ⟨e, -, heq⟩ := exists_margins l
  rw [heq]
  exact List.mem_append_right _ (List.mem_append_left _ h)

theorem allBlank_replicate (n : Nat) : AllBlank (List.replicate n ' ') := by
  intro c hc
  rw [List.eq_of_mem_replicate hc]
  decide

theorem trim_indented {t : Line} (ht : Trimmed t) (d : Nat) : trim (indented d t) = t := by
  unfold indented
  split
  · next hempty => rw [List.isEmpty_iff.mp hempty]; rfl
  · have := trim_margins (allBlank_replicate (lineDepth d t * indentWidthOfLevel)) ht
      (h := []) fun c hc => absurd hc List.not_mem_nil
    rwa [List.append_nil] at this

theorem indented_plain {t : Line} (ht : Trimmed t) (hfeed : '\n' ∉ t) (d : Nat) :
    '\n' ∉ indented d t ∧ (indented d t).getLast? ≠ some '\r' := by
  unfold indented
  split
  · exact ⟨List.not_mem_nil, by decide⟩
  · next hne =>
    refine ⟨?_, fun hlast => ?_⟩
    · rw [List.mem_append]
      rintro (h | h)
      · exact absurd (List.eq_of_mem_replicate h) (by decide)
      · exact hfeed h
    · obtain ⟨x, c, rfl⟩ := (List.eq_nil_or_concat t).resolve_left fun h => hne (by rw [h]; rfl)
      have hc := ht.last
      rw [List.concat_eq_append, List.getLast?_concat] at hc
      rw [List.concat_eq_append, ← List.append_assoc, List.getLast?_concat] at hlast
      rw [Option.some.inj hlast] at hc
      exact absurd hc (by decide)

/-- layout changes margins only -/
theorem layout_trim_eq (d : Nat) (lines : List Line) :
    List.Forall₂ (fun l l' => trim l' = trim l) lines (layout d lines) := by
  induction lines generalizing d with
  | nil => exact .nil
  | cons l lines ih => exact .cons (trim_indented (trimmed_trim l) d) (ih _)

theorem layout_plain {lines : List Line} (h : ∀ l ∈ lines, '\n' ∉ l) (d : Nat) :
    ∀ l ∈ layout d lines, '\n' ∉ l ∧ l.getLast? ≠ some '\r' := by
  induction lines generalizing d with
  | nil => exact fun l hl => absurd hl List.not_mem_nil
  | cons k lines ih =>
    intro l hl
    rcases List.mem_cons.mp hl with rfl | hl
    · exact indented_plain (trimmed_trim k) (fun hmem => h k List.mem_cons_self
        (mem_of_mem_trim hmem)) d
    · exact ih (fun k hk => h k (List.mem_cons_of_mem _ hk)) _ l hl

/-- the lines of a text laid out are its lines laid out -/
theorem splitLines_formatText (text : Line) :
    splitLines (formatText text) = layout 0 (splitLines text) := by
  refine splitLines_joinLines _ ?_ (layout_plain (splitLines_no_feed text) 0)
  rw [ne_eq, ← List.length_eq_zero_iff, length_layout, List.length_eq_zero_iff]
  exact splitLines_ne_nil text

/-! ## folds -/

def isBrace (c : Char) : Bool :=
  c == '{' || c == '}'

theorem braceFolds_open (n : Nat) (opened : List Nat) (l : Line) :
    braceFolds n opened ('{' :: l) = braceFolds n (n :: opened) l := rfl

theorem braceFolds_close_nil (n : Nat) (l : Line) :
    braceFolds n [] ('}' :: l) = braceFolds n [] l := rfl

theorem braceFolds_close_cons (n s : Nat) (outer : List Nat) (l : Line) :
    braceFolds n (s :: outer) ('}' :: l) =
      if s < n then (⟨s, n, .region⟩ :: (braceFolds n outer l).1, (braceFolds n outer l).2)
      else braceFolds n outer l := rfl

theorem braceFolds_other {c : Char} (ho : c ≠ '{') (hc : c ≠ '}') (n : Nat) (opened : List Nat)
    (l : Line) : braceFolds n opened (c :: l) = braceFolds n opened l := by
  rw [braceFolds.eq_def]
  exact (if_neg ho).trans (if_neg hc)

/-- only the braces of a line open and close folds -/
theorem braceFolds_filter (n : Nat) (l : Line) (opened : List Nat) :
    braceFolds n opened (l.filter isBrace) = braceFolds n opened l := by
  induction l generalizing opened with
  | nil => rfl
  | cons c l ih =>
    by_cases ho : c = '{'
    · subst ho
      rw [List.filter_cons_of_pos (by decide), braceFolds_open, braceFolds_open, ih]
    · by_cases hc : c = '}'
      · subst hc
        rw [List.filter_cons_of_pos (by decide)]
        cases opened with
        | nil => rw [braceFolds_close_nil, braceFolds_close_nil, ih]
        | cons s outer => rw [braceFolds_close_cons, braceFolds_close_cons, ih]
      · have hbrace : ¬ isBrace c = true := by simp [isBrace, ho, hc]
        rw [List.filter_cons_of_neg hbrace, braceFolds_other ho hc, ih]

theorem filter_isBrace_of_blank {g : Line} (hg : AllBlank g) : g.filter isBrace = [] := by
  refine List.filter_eq_nil_iff.mpr fun c hc hbrace => ?_
  have hblank := hg c hc
  rw [isBrace, Bool.or_eq_true, beq_iff_eq, beq_iff_eq] at hbrace
  rcases hbrace with rfl | rfl
  · exact absurd hblank (by decide)
  · exact absurd hblank (by decide)

theorem braceFolds_trim (n : Nat) (opened : List Nat) (l : Line) :
    braceFolds n opened (trim l) = braceFolds n opened l := by
  obtain ⟨h, hh, heq⟩ := exists_margins l
  rw [← braceFolds_filter n l, ← braceFolds_filter n (trim l)]
  congr 1
  have hfilter := congrArg (List.filter isBrace) heq
  rw [List.filter_append, List.filter_append, filter_isBrace_of_blank (allBlank_takeWhile l),
    filter_isBrace_of_blank hh, List.nil_append, List.append_nil] at hfilter
  exact hfilter.symm

/-- what has no margins itself stands on the trimmed text if it stands on the line -/
theorem occursIn_trim {needle : Line} (hneedle : Trimmed needle) (hne : needle ≠ []) (l : Line) :
    occursIn needle (trim l) = occursIn needle l := by
  obtain ⟨h, hh, heq⟩ := exists_margins l
  rw [Bool.eq_iff_iff, occursIn_iff, occursIn_iff]
  constructor
  · rintro ⟨before, after, ht⟩
    refine ⟨l.takeWhile isBlank ++ before, after ++ h, ?_⟩
    rw [ht] at heq
    simpa only [List.append_assoc] using heq
  · rintro ⟨before, after, hl⟩
    have hinner : l.takeWhile isBlank ++ (trim l ++ h) = before ++ (needle ++ after) := by
      rw [← heq, ← List.append_assoc]
      exact hl
    obtain ⟨p, r, -, -, ht⟩ := inner_of_trimmed (allBlank_takeWhile l) hh hneedle hne hinner
    exact ⟨p, r, by rw [ht, List.append_assoc]⟩

theorem trimmed_opensBlock : Trimmed opensBlock := ⟨by decide, by decide⟩

theorem trimmed_closesBlock : Trimmed closesBlock := ⟨by decide, by decide⟩

theorem occursIn_of_trim_eq {needle l l' : Line} (hneedle : Trimmed needle) (hne : needle ≠ [])
    (h : trim l' = trim l) : occursIn needle l' = occursIn needle l := by
  rw [← occursIn_trim hneedle hne, h, occursIn_trim hneedle hne]

theorem commentFold?_of_trim_eq {ls ls' : List Line}
    (h : List.Forall₂ (fun l l' => trim l' = trim l) ls ls') (n : Nat) :
    commentFold? n ls' = commentFold? n ls := by
  have hfind : ls'.findIdx? (occursIn closesBlock) = ls.findIdx? (occursIn closesBlock) := by
    clear n
    induction h with
    | nil => rfl
    | cons hl _ ih =>
      rw [List.findIdx?_cons, List.findIdx?_cons, ih,
        occursIn_of_trim_eq trimmed_closesBlock (by decide) hl]
  cases h with
  | nil => rfl
  | cons hl _ =>
    rw [commentFold?, commentFold?, hfind, occursIn_of_trim_eq trimmed_opensBlock (by decide) hl]

theorem folds_of_trim_eq {ls ls' : List Line}
    (h : List.Forall₂ (fun l l' => trim l' = trim l) ls ls') : folds ls' = folds ls := by
  have hfrom : ∀ n opened, foldsFrom n opened ls' = foldsFrom n opened ls := by
    induction h with
    | nil => exact fun _ _ => rfl
    | @cons l l' ls ls' hl hls ih =>
      intro n opened
      have hbrace : braceFolds n opened l' = braceFolds n opened l := by
        rw [← braceFolds_trim, hl, braceFolds_trim]
      rw [foldsFrom, foldsFrom, hbrace, ih, commentFold?_of_trim_eq (.cons hl hls)]
  exact hfrom 0 []

/-! ## the analysis -/

theorem renames_id : Renames id :=
  ⟨Function.injective_id, fun _ => rfl, fun _ _ => rfl⟩

theorem codeLines_of_trim_eq {ls ls' : List Line}
    (h : List.Forall₂ (fun l l' => trim l' = trim l) ls ls') :
    List.Forall₂ (NumberedMatch (LineMatch id Shifted)) (codeLines ls) (codeLines ls') := by
  have hrole : ∀ l l', trim l' = trim l → LineRole.of l' = LineRole.of l := by
    intro l l' htrim
    rw [LineRole.of, htrim]
    rfl
  have hclose : ∀ l l', trim l' = trim l →
      occursIn closesBlock (trim l') = occursIn closesBlock (trim l) := by
    intro l l' htrim
    rw [htrim]
  refine (codeLines_match hrole hclose h).imp fun k k' hk => ?_
  exact ⟨hk.1, lineMatch_of_trim_eq hk.2⟩

/-- the width of the left margin of line `n` -/
def marginAt (lines : List Line) (n : Nat) : Nat :=
  (lines[n]?.map marginWidth).getD 0

/-- The position stays on its line and moves by what is added to the left margin there. -/
def MovesWithMargin (lines lines' : List Line) (p p' : Position) : Prop :=
  p'.line = p.line ∧
    (p'.character : Int) - p.character = (marginAt lines' p.line : Int) - marginAt lines p.line

theorem movesWithMargin_of_rangeMatch {lines lines' : List Line} {r r' : Range}
    (h : RangeMatch Shifted lines lines' r r') :
    MovesWithMargin lines lines' r.start r'.start ∧
      MovesWithMargin lines lines' r.stop r'.stop := by
  obtain ⟨n, l, l', s, s', hl, hl', ⟨hstart, hstop⟩, rfl, rfl⟩ := h
  have hm : marginAt lines n = marginWidth l := by rw [marginAt, hl]; rfl
  have hm' : marginAt lines' n = marginWidth l' := by rw [marginAt, hl']; rfl
  refine ⟨⟨rfl, ?_⟩, ⟨rfl, ?_⟩⟩
  · show (column l' s'.start : Int) - column l s.start = marginAt lines' n - marginAt lines n
    omega
  · show (column l' s'.stop : Int) - column l s.stop = marginAt lines' n - marginAt lines n
    omega

theorem Problem.rename_id (p : Problem) : p.rename id = p := by
  cases p <;> rfl

/-- The diagnostics are the same but for columns, which move with the margins. -/
def DiagnosticMoved (lines lines' : List Line) (d d' : Diagnostic) : Prop :=
  d' = { d with range := d'.range } ∧ MovesWithMargin lines lines' d.range.start d'.range.start ∧
    MovesWithMargin lines lines' d.range.stop d'.range.stop

/-- **Layout keeps the analysis.**  A text laid out has the same lines but for white space at their
ends, the same code lines, symbols and folds, and the same diagnostics, with columns that move by
what layout adds to the margin of their line. -/
theorem formatText_keeps_analysis (text : Line) :
    let before := Analysis.of text
    let after := Analysis.of (formatText text)
    after.lines.map trim = before.lines.map trim ∧
      (codeLines after.lines).map NumberedLine.number =
        (codeLines before.lines).map NumberedLine.number ∧
      after.symbols.symbols.map Symbol.summary = before.symbols.symbols.map Symbol.summary ∧
      List.Forall₂ (DiagnosticMoved before.lines after.lines) before.diagnostics
        after.diagnostics ∧
      folds after.lines = folds before.lines := by
  intro before after
  have hlines : after.lines = layout 0 before.lines := splitLines_formatText text
  have htrim : List.Forall₂ (fun l l' => trim l' = trim l) before.lines after.lines := by
    rw [hlines]
    exact layout_trim_eq 0 before.lines
  have hcode := codeLines_of_trim_eq htrim
  refine ⟨map_eq_of_forall₂ htrim fun _ _ h => h, map_eq_of_forall₂ hcode fun _ _ h => h.1,
    summaries_match renames_id hcode, ?_, folds_of_trim_eq htrim⟩
  refine List.forall₂_map_left_iff.mpr (List.forall₂_map_right_iff.mpr ?_)
  refine (findings_match renames_id hcode).imp fun f f' hf => ?_
  have hproblem := hf.problem
  rw [Problem.rename_id] at hproblem
  refine ⟨?_, movesWithMargin_of_rangeMatch hf.range⟩
  show Finding.diagnostic f' = { Finding.diagnostic f with range := f'.range }
  rw [Finding.diagnostic, hproblem]
  rfl

end LanguageService
