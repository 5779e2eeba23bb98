import LanguageService.Proofs.Editor.RangeLayout
import LanguageService.Proofs.Workspace.Sync

/-!
# Layout through the store

The edit that lays out a document replaces the whole of it, and its range is counted in lines
between line feeds.  A stored document knows more line breaks, so that the range may end before the
text does; what is left over then stands behind the new text.

* `Store.format`        the edits that lay out a document, sent back to the store
* `leftOver text`       what a change of the whole range leaves of a text
* `coversBreaks text`   no break but LF and CR LF, save at the very end
* `leftOver_iff`        then nothing is left over but perhaps a carriage return, and only then
* `format_settles_iff`  the texts that are laid out by one round of edits
* `applyChanges_formatRangeEdits`   layout of a range, in a text with no other breaks
-/

namespace LanguageService

/-- an edit, sent back as a change -/
def TextEdit.change (e : TextEdit) : Change :=
  ⟨some e.range, e.newText⟩

/-- The edits that lay out a document are sent back as one batch; nothing is sent if there are
none. -/
def Store.format (s : Store) (uri : String) (version : Int) : Store :=
  match s.get? uri with
  | none => s
  | some d =>
    if formatEdits d.analysis = [] then s
    else s.update uri ((formatEdits d.analysis).map TextEdit.change) version

/-- what a change of the whole range of a document leaves behind the new text -/
def leftOver (text : Line) : Line :=
  text.drop (charOffset text (Range.ofLines (splitLines text)).stop)

/-- Every break is a line feed, or a carriage return with a line feed behind it; only the last
character may be another break, and a carriage return may stand behind that. -/
def coversBreaks : Line → Bool
  | [] => true
  | '\r' :: '\n' :: rest => coversBreaks rest
  | c :: rest =>
    if isBreak c && c != '\n' then rest.isEmpty || (c != '\r' && rest == ['\r'])
    else coversBreaks rest

/-! ## the end of the range -/

theorem stop_ofLines_cons (l : Line) {ls : List Line} (hne : ls ≠ []) :
    (Range.ofLines (l :: ls)).stop =
      ⟨(Range.ofLines ls).stop.line + 1, (Range.ofLines ls).stop.character⟩ := by
  obtain ⟨k, ls, rfl⟩ := List.exists_cons_of_ne_nil hne
  rfl

theorem splitLines_feed (rest : Line) : splitLines ('\n' :: rest) = [] :: splitLines rest := rfl

theorem splitLines_returnFeed (rest : Line) :
    splitLines ('\r' :: '\n' :: rest) = [] :: splitLines rest := rfl

theorem line_stop (text : Line) :
    (Range.ofLines (splitLines text)).stop.line = text.count '\n' := by
  show (splitLines text).length - 1 = _
  rw [splitLines, List.length_map, length_splitAtFeeds, Nat.add_sub_cancel]

/-- the end of the range does not change if a character is put before the first of several lines -/
theorem stop_cons_of_feed {c : Char} (hc : c ≠ '\n') {rest : Line} (hrest : '\n' ∈ rest) :
    (Range.ofLines (splitLines (c :: rest))).stop = (Range.ofLines (splitLines rest)).stop := by
  have hcount := List.count_pos_iff.mpr hrest
  have hlen := length_splitAtFeeds rest
  match hs : splitAtFeeds rest with
  | [] => exact absurd hs (splitAtFeeds_ne_nil rest)
  | [l] =>
    rw [hs, List.length_singleton] at hlen
    omega
  | l :: k :: ls =>
    rw [splitLines, splitLines, splitAtFeeds_cons hc rest hs, hs]
    rfl

theorem stop_of_no_feed {text : Line} (h : '\n' ∉ text) :
    (Range.ofLines (splitLines text)).stop = ⟨0, width (dropReturn text)⟩ := by
  rw [splitLines, splitAtFeeds_of_no_feed h]
  rfl

theorem dropReturn_cons_of_ne_nil (c : Char) {l : Line} (hl : l ≠ []) :
    dropReturn (c :: l) = c :: dropReturn l := by
  obtain ⟨d, l, rfl⟩ := List.exists_cons_of_ne_nil hl
  unfold dropReturn
  rw [List.getLast?_cons_cons]
  split
  · rfl
  · rfl

theorem dropReturn_cons {c : Char} (hc : c ≠ '\r') (l : Line) :
    dropReturn (c :: l) = c :: dropReturn l := by
  cases l with
  | nil => exact dropReturn_of_getLast? (by simpa using hc)
  | cons d l => exact dropReturn_cons_of_ne_nil c (List.cons_ne_nil d l)

/-! ## line feeds before a position -/

theorem count_feed_brokenLines (text : Line) : ∀ l ∈ brokenLines text, l.count '\n' ≤ 1 := by
  fun_induction brokenLines text with
  | case1 => exact List.forall_mem_singleton.mpr (Nat.zero_le 1)
  | case2 rest ih => exact List.forall_mem_cons.mpr ⟨Nat.le_refl 1, ih⟩
  | case3 c rest _ _ ih =>
    refine List.forall_mem_cons.mpr ⟨?_, ih⟩
    exact List.count_le_length
  | case4 c rest _ hc ih =>
    have hne : c ≠ '\n' := by
      rintro rfl
      exact hc (by decide)
    cases hs : brokenLines rest with
    | nil => exact List.forall_mem_singleton.mpr List.count_le_length
    | cons l ls =>
      rw [hs] at ih
      obtain ⟨hl, hls⟩ := List.forall_mem_cons.mp ih
      exact List.forall_mem_cons.mpr ⟨by rwa [List.count_cons_of_ne hne], hls⟩

/-- before a position on stored line `n` stand at most `n` line feeds -/
theorem count_feed_take_charOffset (text : Line) (n col : Nat) :
    (text.take (charOffset text ⟨n, col⟩)).count '\n' ≤ n := by
  have key : ∀ ls : List Line, (∀ l ∈ ls, l.count '\n' ≤ 1) → ∀ n,
      (ls.flatten.take (offsetInLines ls n col)).count '\n' ≤ n := by
    intro ls
    induction ls with
    | nil => exact fun _ n => Nat.zero_le n
    | cons l ls ih =>
      intro h n
      obtain ⟨hl, hls⟩ := List.forall_mem_cons.mp h
      rw [List.flatten_cons]
      cases n with
      | zero =>
        show ((l ++ ls.flatten).take (breakPlace l col)).count '\n' ≤ 0
        rw [List.take_append_of_le_length (breakPlace_le l col)]
        exact Nat.le_of_eq (List.count_eq_zero.mpr fun h => (ne_of_mem_take_breakPlace h).1 rfl)
      | succ n =>
        show ((l ++ ls.flatten).take (l.length + offsetInLines ls n col)).count '\n' ≤ n + 1
        rw [List.take_length_add_append, List.count_append]
        have := ih hls n
        omega
  have h := key (brokenLines text) (count_feed_brokenLines text) n
  rwa [flatten_brokenLines] at h

/-! ## what is left over -/

theorem leftOver_returnFeed (rest : Line) : leftOver ('\r' :: '\n' :: rest) = leftOver rest := by
  have hoffset : charOffset ('\r' :: '\n' :: rest)
      (Range.ofLines (splitLines ('\r' :: '\n' :: rest))).stop =
        2 + charOffset rest (Range.ofLines (splitLines rest)).stop := by
    rw [splitLines_returnFeed, stop_ofLines_cons [] (splitLines_ne_nil rest)]
    rfl
  rw [leftOver, hoffset, Nat.add_comm]
  rfl

theorem leftOver_feed (rest : Line) : leftOver ('\n' :: rest) = leftOver rest := by
  have hoffset : charOffset ('\n' :: rest) (Range.ofLines (splitLines ('\n' :: rest))).stop =
      1 + charOffset rest (Range.ofLines (splitLines rest)).stop := by
    rw [splitLines_feed, stop_ofLines_cons [] (splitLines_ne_nil rest)]
    rfl
  rw [leftOver, hoffset, Nat.add_comm]
  rfl

theorem brokenLines_cons {c : Char} {rest : Line} (hcr : ∀ r, c = '\r' → rest ≠ '\n' :: r) :
    brokenLines (c :: rest) =
      if isBreak c then [c] :: brokenLines rest else consLine c (brokenLines rest) :=
  brokenLines.eq_3 c rest hcr

/-- a character that is no break lies before the end of the range -/
theorem leftOver_cons {c : Char} (hc : isBreak c = false) (rest : Line) :
    leftOver (c :: rest) = leftOver rest := by
  have hn : c ≠ '\n' := by
    rintro rfl
    exact absurd hc (by decide)
  have hr : c ≠ '\r' := by
    rintro rfl
    exact absurd hc (by decide)
  have hoffset : charOffset (c :: rest) (Range.ofLines (splitLines (c :: rest))).stop =
      1 + charOffset rest (Range.ofLines (splitLines rest)).stop := by
    rw [charOffset, charOffset, brokenLines_cons fun _ h => absurd h hr,
      if_neg (Bool.eq_false_iff.mp hc)]
    obtain ⟨l, ls, hls⟩ := List.exists_cons_of_ne_nil (brokenLines_ne_nil rest)
    rw [hls]
    show offsetInLines ((c :: l) :: ls) _ _ = _
    by_cases hrest : '\n' ∈ rest
    · have hline := line_stop rest
      have hcount := List.count_pos_iff.mpr hrest
      rw [stop_cons_of_feed hn hrest]
      cases hs : (Range.ofLines (splitLines rest)).stop.line with
      | zero => omega
      | succ n =>
        rw [offsetInLines, offsetInLines, List.length_cons]
        omega
    · have hcons := List.not_mem_cons_of_ne_of_not_mem (Ne.symm hn) hrest
      rw [stop_of_no_feed hcons, stop_of_no_feed hrest, dropReturn_cons hr]
      show breakPlace (c :: l) (units c + width (dropReturn rest)) = _
      rw [breakPlace, if_neg (by have := units_pos c; simp [hn, hr]; omega),
        Nat.add_sub_cancel_left, Nat.add_comm]
      rfl
  rw [leftOver, hoffset, Nat.add_comm]
  rfl

/-- Another break in the text before a line feed shortens the range, so that a line feed is left
over. -/
theorem feed_mem_leftOver {c : Char} (hc : isBreak c = true) (hn : c ≠ '\n') {rest : Line}
    (hcr : ∀ r, c = '\r' → rest ≠ '\n' :: r) (hrest : '\n' ∈ rest) :
    '\n' ∈ leftOver (c :: rest) := by
  have hcount := List.count_pos_iff.mpr hrest
  have hline := line_stop (c :: rest)
  rw [List.count_cons_of_ne hn] at hline
  rw [leftOver, ← List.count_pos_iff]
  have hsplit := congrArg (List.count '\n') (List.take_append_drop
    (charOffset (c :: rest) (Range.ofLines (splitLines (c :: rest))).stop) (c :: rest))
  rw [List.count_append, List.count_cons_of_ne hn] at hsplit
  have hbefore : ((c :: rest).take
      (charOffset (c :: rest) (Range.ofLines (splitLines (c :: rest))).stop)).count '\n' <
        rest.count '\n' := by
    generalize (Range.ofLines (splitLines (c :: rest))).stop = p at hline
    obtain ⟨_ | n, col⟩ := p
    · exact absurd hline.symm (Nat.ne_of_gt hcount)
    · have hoffset : charOffset (c :: rest) ⟨n + 1, col⟩ = charOffset rest ⟨n, col⟩ + 1 := by
        rw [charOffset, brokenLines_cons hcr, if_pos hc]
        exact Nat.add_comm _ _
      have hle := count_feed_take_charOffset rest n col
      rw [hoffset, List.take_succ_cons, List.count_cons_of_ne hn]
      exact Nat.lt_of_le_of_lt hle (Nat.lt_of_succ_le (Nat.le_of_eq hline))
  omega

/-- Another break on the last line: the range ends before a carriage return and behind the others. -/
theorem leftOver_break {c : Char} (hc : isBreak c = true) (hn : c ≠ '\n') {rest : Line}
    (hrest : '\n' ∉ rest) :
    leftOver (c :: rest) = if c = '\r' then c :: rest else rest := by
  have hcons := List.not_mem_cons_of_ne_of_not_mem (Ne.symm hn) hrest
  have hcr : ∀ r, c = '\r' → rest ≠ '\n' :: r := by
    rintro r - rfl
    exact hrest List.mem_cons_self
  have hoffset : charOffset (c :: rest) (Range.ofLines (splitLines (c :: rest))).stop =
      breakPlace [c] (width (dropReturn (c :: rest))) := by
    rw [charOffset, brokenLines_cons hcr, if_pos hc, stop_of_no_feed hcons]
    rfl
  rw [leftOver, hoffset, breakPlace]
  by_cases hr : c = '\r'
  · rw [if_pos (Or.inr (Or.inr hr)), if_pos hr]
    rfl
  · have hwidth : width (dropReturn (c :: rest)) ≠ 0 := by
      rw [dropReturn_cons hr, width]
      have := units_pos c
      omega
    rw [if_neg (by simp [hwidth, hn, hr]), if_neg hr]
    rfl

theorem leftOver_iff (text : Line) :
    leftOver text = [] ∨ leftOver text = ['\r'] ↔ coversBreaks text = true := by
  fun_induction coversBreaks text with
  | case1 => exact iff_of_true (Or.inl rfl) rfl
  | case2 rest ih => rw [leftOver_returnFeed, ih]
  | case3 c rest hcr hbreak =>
    obtain ⟨hc, hn⟩ := Bool.and_eq_true_iff.mp hbreak
    have hn : c ≠ '\n' := by simpa using hn
    have hcr : ∀ r, c = '\r' → rest ≠ '\n' :: r := fun r h1 h2 => hcr r h1 h2
    by_cases hrest : '\n' ∈ rest
    · refine iff_of_false (not_settled_of_feed (feed_mem_leftOver hc hn hcr hrest)) ?_
      obtain ⟨d, r, rfl⟩ := List.exists_cons_of_ne_nil (List.ne_nil_of_mem hrest)
      simp only [List.isEmpty_cons, Bool.false_or, Bool.and_eq_true, bne_iff_ne, beq_iff_eq]
      rintro ⟨-, heq⟩
      rw [heq] at hrest
      exact absurd hrest (by decide)
    · rw [leftOver_break hc hn hrest]
      by_cases hr : c = '\r'
      · rw [if_pos hr]
        subst hr
        simp
      · rw [if_neg hr]
        simp [hr]
  | case4 c rest hcr hplain ih =>
    by_cases hn : c = '\n'
    · rw [hn, leftOver_feed, ih]
    · have hc : isBreak c = false := by simpa [hn] using hplain
      rw [leftOver_cons hc, ih]

/-! ## one round of edits -/

/-- the document after one round of edits -/
theorem get?_format (s : Store) (uri : String) (text : Line) (version newVersion : Int) :
    ((s.openDocument uri text version).format uri newVersion).get? uri = some
      (if layout 0 (splitLines text) = splitLines text then .new uri text version
        else .new uri (formatText text ++ leftOver text) newVersion) := by
  have hopen : (s.openDocument uri text version).get? uri = some (.new uri text version) :=
    Store.get?_insert s _
  unfold Store.format
  rw [hopen]
  show Store.get? (if formatEdits (Analysis.of text) = [] then _ else _) uri = _
  by_cases hlaid : layout 0 (splitLines text) = splitLines text
  · rw [if_pos hlaid, if_pos ((formatEdits_eq_nil_iff _).mpr hlaid)]
    exact hopen
  · have hedit : formatEdits (Analysis.of text) =
        [⟨Range.ofLines (splitLines text), formatText text⟩] := if_neg hlaid
    have hafter : applyChanges text
        ((formatEdits (Analysis.of text)).map TextEdit.change) =
          formatText text ++ leftOver text := by
      have hstart : charOffset text (Range.ofLines (splitLines text)).start = 0 := by
        show charOffset text ⟨0, 0⟩ = 0
        rw [charOffset]
        obtain ⟨l, ls, hls⟩ := List.exists_cons_of_ne_nil (brokenLines_ne_nil text)
        rw [hls]
        show breakPlace l 0 = 0
        cases l with
        | nil => rfl
        | cons c l => exact if_pos (Or.inl rfl)
      rw [hedit]
      show text.take (charOffset text (Range.ofLines (splitLines text)).start) ++ formatText text ++
        text.drop (max (charOffset text (Range.ofLines (splitLines text)).start) _) = _
      rw [hstart, Nat.zero_max]
      rfl
    rw [if_neg hlaid, if_neg fun h => hlaid ((formatEdits_eq_nil_iff _).mp h), Store.update,
      Store.text_openDocument]
    show ((s.openDocument uri text version).insert
      (.new uri (applyChanges text ((formatEdits (Analysis.of text)).map TextEdit.change))
        newVersion)).get? uri = _
    rw [hafter]
    exact Store.get?_insert _ _

/-- **Layout through the store.**  One round of edits leaves the lines of the text laid out, and
nothing more to edit, exactly if there was nothing to edit or the text holds no break but LF and
CR LF, save at its very end.  Otherwise the end of the text stands twice in the document. -/
theorem format_settles_iff (s : Store) (uri : String) (text : Line) (version newVersion : Int) :
    (∃ d, ((s.openDocument uri text version).format uri newVersion).get? uri = some d ∧
        d.lines = splitLines (formatText text) ∧ formatEdits d.analysis = []) ↔
      layout 0 (splitLines text) = splitLines text ∨ coversBreaks text = true := by
  rw [get?_format]
  by_cases hlaid : layout 0 (splitLines text) = splitLines text
  · rw [if_pos hlaid]
    refine iff_of_true ⟨_, rfl, ?_, (formatEdits_eq_nil_iff _).mpr hlaid⟩ (Or.inl hlaid)
    rw [splitLines_formatText, hlaid]
    rfl
  · rw [if_neg hlaid, ← leftOver_iff, ← splitLines_append_eq_iff (x := formatText text)
      (getLast?_joinLines _ fun l hl => (layout_plain (splitLines_no_feed text) 0 l hl).2)]
    constructor
    · rintro ⟨d, hd, hlines, -⟩
      obtain rfl := Option.some.inj hd
      exact Or.inr hlines
    · rintro (h | h)
      · exact absurd h hlaid
      · refine ⟨_, rfl, h, (formatEdits_eq_nil_iff _).mpr ?_⟩
        show layout 0 (splitLines (formatText text ++ leftOver text)) =
          splitLines (formatText text ++ leftOver text)
        rw [h, splitLines_formatText, layout_layout]

/-- a line separator inside an indented line -/
def separatedText : Line := [' ', ' ', 'a', '\u2028', 'b']

/-- after one round of edits the last character stands twice -/
theorem format_separatedText :
    ((Store.empty.openDocument "a" separatedText 1).format "a" 2).get? "a" =
        some (.new "a" ['a', '\u2028', 'b', 'b'] 2) ∧
      splitLines ['a', '\u2028', 'b', 'b'] ≠ splitLines (formatText separatedText) := by
  have htext : formatText separatedText ++ leftOver separatedText = ['a', '\u2028', 'b', 'b'] := by
    decide
  have hlaid : layout 0 (splitLines separatedText) ≠ splitLines separatedText := by decide
  refine ⟨?_, by decide⟩
  rw [get?_format, if_neg hlaid, htext]

/-! ## ranges -/

/-- Where a text holds no other breaks, the store lays out a range as its lines are laid out. -/
theorem applyChanges_formatRangeEdits {text : Line} (h : plainBreaks text = true) (r : Range) :
    applyChanges text ((formatRangeEdits (Analysis.of text) r).map TextEdit.change) =
      formatRange text r := by
  have hle := length_formatRangeEdits_le text r
  rw [formatRange]
  match formatRangeEdits (Analysis.of text) r, hle with
  | [], _ => rfl
  | [e], _ =>
    show e.change.apply text = applyEdit text e
    rw [apply_eq_applyDecoded h, applyEdit, textOffset_eq_decoded, textOffset_eq_decoded]
    rfl

end LanguageService
