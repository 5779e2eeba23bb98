import LanguageService.Editor.Navigation
import LanguageService.Proofs.Source.Renaming
import LanguageService.Proofs.Text.Lines

/-!
# Renaming keeps the analysis

The edits of a renaming are made from the last to the first, so that a line is always its old text
up to some place and its new text behind that.

* `splitAtFeeds_wordEdits`   the edits on one line, word by word
* `splitAtFeeds_renameEdits`, `splitLines_renameEdits`   a text and its lines after all the edits
* `rename_keeps_analysis`    what the analysis of the text renamed has to do with that of the text
-/

namespace LanguageService

/-! ## carriage returns -/

theorem dropReturn_append (x : Line) {y : Line} (hy : y ≠ []) :
    dropReturn (x ++ y) = x ++ dropReturn y := by
  obtain ⟨z, c, rfl⟩ := (List.eq_nil_or_concat y).resolve_left hy
  rw [List.concat_eq_append, ← List.append_assoc]
  by_cases hc : c = '\r'
  · rw [hc, dropReturn_concat, dropReturn_concat]
  · have hlast : ∀ q : Line, (q ++ [c]).getLast? ≠ some '\r' := by
      intro q h
      rw [List.getLast?_concat] at h
      exact hc (Option.some.inj h)
    rw [dropReturn_of_getLast? (hlast _), dropReturn_of_getLast? (hlast _), List.append_assoc]

theorem dropReturn_append_word {w : Line} (hw : IsWordText w) (x y : Line) :
    dropReturn (x ++ (w ++ y)) = x ++ (w ++ dropReturn y) := by
  have hne : w ++ y ≠ [] := List.append_ne_nil_of_left_ne_nil hw.ne_nil y
  rw [dropReturn_append x hne]
  by_cases hy : y = []
  · have hlast : w.getLast? ≠ some '\r' := by
      intro h
      exact absurd (hw.isWord '\r' (List.mem_of_getLast? h)) (by decide +kernel)
    rw [hy, List.append_nil, dropReturn_of_getLast? hlast]
    show _ = x ++ (w ++ [])
    rw [List.append_nil]
  · rw [dropReturn_append w hy]

theorem allBlank_return : AllBlank ['\r'] := by
  intro c hc
  rw [List.mem_singleton.mp hc]
  decide

theorem dropReturn_mapWords {f : Line → Line} (hf : ∀ w, IsWordText w → IsWordText (f w))
    (hff : ∀ w, f (f w) = w) (q : Line) :
    dropReturn (mapWords f q) = mapWords f (dropReturn q) := by
  have hiff := mapWords_iff hf hff (P := fun x => ∃ y, x = y ++ ['\r']) (fun x hx => by
    obtain ⟨y, rfl⟩ := hx
    exact ⟨_, mapWords_append_blank f allBlank_return y⟩) q
  by_cases h : ∃ y, q = y ++ ['\r']
  · obtain ⟨y, rfl⟩ := h
    rw [mapWords_append_blank f allBlank_return, dropReturn_concat, dropReturn_concat]
  · rw [dropReturn_of_getLast? (mt List.getLast?_eq_some_iff.mp h),
      dropReturn_of_getLast? (mt List.getLast?_eq_some_iff.mp (mt hiff.mp h))]

/-! ## the edits on one line -/

/-- the edits that replace every word `w` of `b`, which stands on line `k` behind `a` -/
def wordEdits (w new : Line) (k : Nat) (a b : Line) : List TextEdit :=
  ((wordRunsFrom a.length false b).filter fun s => s.chars (a ++ b) == w).map
    fun s => ⟨s.range k (a ++ b), new⟩

section
variable {w new : Line} {k : Nat}

theorem wordEdits_gap {c : Char} (hc : isWord c = false) (a l : Line) :
    wordEdits w new k a (c :: l) = wordEdits w new k (a ++ [c]) l := by
  have hcut : a ++ c :: l = (a ++ [c]) ++ l := by rw [List.append_assoc, List.singleton_append]
  rw [wordEdits, wordRunsFrom_gap hc, hcut, wordEdits, List.length_append, List.length_singleton]

theorem wordEdits_hit {l : Line} (hw : IsWordText w) (hl : startsInWord l = false) (a : Line) :
    wordEdits w new k a (w ++ l) =
      ⟨(Span.mk a.length (a.length + w.length)).range k (a ++ (w ++ l)), new⟩ ::
        wordEdits w new k (a ++ w) l := by
  have hmatch : ((Span.mk a.length (a.length + w.length)).chars (a ++ (w ++ l)) == w) = true := by
    rw [Span.chars_between, beq_self_eq_true]
  rw [wordEdits, wordRunsFrom_word hw hl, List.filter_cons, if_pos hmatch, List.map_cons, wordEdits,
    List.length_append, List.append_assoc]

theorem wordEdits_other {x l : Line} (hx : IsWordText x) (hl : startsInWord l = false)
    (hxw : x ≠ w) (a : Line) : wordEdits w new k a (x ++ l) = wordEdits w new k (a ++ x) l := by
  have hmatch :
      ¬ ((Span.mk a.length (a.length + x.length)).chars (a ++ (x ++ l)) == w) = true := by
    rw [Span.chars_between, beq_iff_eq]
    exact hxw
  rw [wordEdits, wordRunsFrom_word hx hl, List.filter_cons, if_neg hmatch, wordEdits,
    List.length_append, List.append_assoc]

end

theorem splitAtFeeds_wordEdit {text a w b r new : Line} {pre post : List Line} (hw : IsWordText w)
    (hnew : '\n' ∉ new) (h : splitAtFeeds text = pre ++ (a ++ (w ++ r)) :: post) :
    splitAtFeeds (applyEdit text
        ⟨(Span.mk a.length (a.length + w.length)).range pre.length (a ++ (w ++ b)), new⟩) =
      pre ++ (a ++ (new ++ r)) :: post := by
  have hstart : column (a ++ (w ++ b)) a.length = width a := by rw [column, List.take_left]
  have hstop : column (a ++ (w ++ b)) (a.length + w.length) = width (a ++ w) := by
    rw [← List.length_append, ← List.append_assoc, column, List.take_left]
  have hplace : place (dropReturn (a ++ (w ++ r))) (width a) = a.length := by
    rw [dropReturn_append_word hw, place_append_width]
  have hplace' : place (dropReturn (a ++ (w ++ r))) (width (a ++ w)) = (a ++ w).length := by
    rw [dropReturn_append_word hw, ← List.append_assoc, place_append_width]
  rw [Span.range, hstart, hstop, splitAtFeeds_applyEdit h hnew, hplace, hplace', replaceIn,
    List.take_left, List.length_append, Nat.max_eq_right (Nat.le_add_right _ _),
    ← List.append_assoc a w r, ← List.length_append, List.drop_left, List.append_assoc]

/-- The edits on one line: behind `a` every word `w` is replaced. -/
theorem splitAtFeeds_wordEdits {w n : Line} (hn : '\n' ∉ n) (b : Line)
    (hfresh : String.ofList n ∉ wordsOf b) {text a r : Line} {pre post : List Line}
    (h : splitAtFeeds text = pre ++ (a ++ (b ++ r)) :: post) :
    splitAtFeeds ((wordEdits w n pre.length a b).foldr (fun e t => applyEdit t e) text) =
      pre ++ (a ++ (mapWords (swapName w n) b ++ r)) :: post := by
  induction b using word_induction generalizing a with
  | nil => exact h
  | gap c l hc ih =>
    have hcut : ∀ x : Line, a ++ (c :: x) = (a ++ [c]) ++ x := by simp
    rw [List.cons_append, hcut] at h
    rw [wordsOf_gap hc] at hfresh
    rw [wordEdits_gap hc, ih hfresh h, mapWords_gap _ hc, List.cons_append, ← hcut]
  | word x l hx hl ih =>
    rw [wordsOf_word hx hl] at hfresh
    obtain ⟨hxn, hfresh⟩ := not_or.mp (mt List.mem_cons.mpr hfresh)
    have hxn : x ≠ n := fun heq => hxn (by rw [heq])
    have hcut : splitAtFeeds text = pre ++ ((a ++ x) ++ (l ++ r)) :: post := by
      rw [h]
      simp only [List.append_assoc]
    have hrest := ih hfresh hcut
    rw [mapWords_word _ hx hl]
    by_cases hxw : x = w
    · subst hxw
      -- all edits behind this word are made before its own, which moves nothing in front of it
      rw [List.append_assoc] at hrest
      rw [wordEdits_hit hx hl, List.foldr_cons, swapName_left]
      have hedit := splitAtFeeds_wordEdit (b := l) hx hn hrest
      rw [hedit, List.append_assoc]
    · rw [wordEdits_other hx hl hxw, hrest, swapName_other hxw hxn]
      simp only [List.append_assoc]

/-! ## the edits of a document -/

/-- the edits that replace every word `w` of some lines, of which the first has number `k` -/
def documentEdits (w new : Line) (k : Nat) (lines : List Line) : List TextEdit :=
  (numberFrom k lines).flatMap fun l => wordEdits w new l.number [] l.text

theorem occurrences_edits {name : String} (hname : IsWordText name.toList) (new : Line)
    (lines : List Line) : (occurrences lines name).map (fun r => (⟨r, new⟩ : TextEdit)) =
      documentEdits name.toList new 0 lines := by
  rw [occurrences, List.map_flatMap, documentEdits, numberLines]
  congr 1
  funext l
  rw [Pattern.all_of_fitsWords (Pattern.fitsWords_word hname), List.map_map, List.map_map]
  rfl

theorem splitAtFeeds_documentEdits {w n : Line} (hn : '\n' ∉ n) (post : List Line)
    (hfresh : ∀ q ∈ post, String.ofList n ∉ wordsOf (dropReturn q)) {text : Line}
    {pre : List Line} (h : splitAtFeeds text = pre ++ post) :
    splitAtFeeds ((documentEdits w n pre.length (post.map dropReturn)).foldr
      (fun e t => applyEdit t e) text) = pre ++ post.map (mapWords (swapName w n)) := by
  induction post generalizing pre with
  | nil => exact h
  | cons q post ih =>
    obtain ⟨r, hr, hq⟩ : ∃ r, AllBlank r ∧ q = dropReturn q ++ r := by
      rcases eq_dropReturn q with hq | hq
      · exact ⟨[], fun c hc => absurd hc List.not_mem_nil, by rwa [List.append_nil]⟩
      · exact ⟨['\r'], allBlank_return, hq⟩
    have hcut : splitAtFeeds text = (pre ++ [q]) ++ post := by
      rw [h, List.append_assoc, List.singleton_append]
    have hrest := ih (fun x hx => hfresh x (List.mem_cons_of_mem _ hx)) hcut
    rw [List.append_assoc, List.singleton_append, List.length_append,
      List.length_singleton] at hrest
    have hedits : documentEdits w n pre.length ((q :: post).map dropReturn) =
        wordEdits w n pre.length [] (dropReturn q) ++
          documentEdits w n (pre.length + 1) (post.map dropReturn) := rfl
    have hmap : mapWords (swapName w n) q = mapWords (swapName w n) (dropReturn q) ++ r := by
      rw [← mapWords_append_blank _ hr, ← hq]
    rw [hedits, List.foldr_append, List.map_cons, hmap]
    refine splitAtFeeds_wordEdits hn (dropReturn q) (hfresh q List.mem_cons_self) (a := []) ?_
    rw [hrest, List.nil_append, ← hq]

theorem splitAtFeeds_renameEdits {w : String} {n text : Line} (hw : IsWordText w.toList)
    (hn : IsWordText n) (hfresh : ∀ l ∈ splitLines text, String.ofList n ∉ wordsOf l) :
    splitAtFeeds (applyEdits text ((occurrences (splitLines text) w).map fun r => ⟨r, n⟩)) =
      (splitAtFeeds text).map (mapWords (swapName w.toList n)) := by
  have hfeed : '\n' ∉ n := fun h => absurd (hn.isWord _ h) (by decide +kernel)
  have hcut : splitAtFeeds text = [] ++ splitAtFeeds text := rfl
  rw [occurrences_edits hw]
  exact splitAtFeeds_documentEdits hfeed (splitAtFeeds text)
    (fun q hq => hfresh _ (List.mem_map_of_mem hq)) hcut

/-- the lines of a text after all the edits -/
theorem splitLines_renameEdits {w : String} {n text : Line} (hw : IsWordText w.toList)
    (hn : IsWordText n) (hfresh : ∀ l ∈ splitLines text, String.ofList n ∉ wordsOf l) :
    splitLines (applyEdits text ((occurrences (splitLines text) w).map fun r => ⟨r, n⟩)) =
      (splitLines text).map (mapWords (swapName w.toList n)) := by
  rw [splitLines, splitAtFeeds_renameEdits hw hn hfresh, splitLines, List.map_map, List.map_map]
  exact List.map_congr_left fun q _ =>
    dropReturn_mapWords (isWordText_swapName hw hn) (swapName_swapName _ _) q

/-! ## the analysis -/

theorem isName_of_isIdentifier {name : String} (h : isIdentifier name = true) :
    IsName name.toList := by
  refine (isNameText_iff _).mp ?_
  rw [← h, isIdentifier]
  cases name.toList <;> rfl

theorem not_mem_wordsOf_of_occurrences {lines : List Line} {name : String}
    (hname : IsWordText name.toList) (h : occurrences lines name = []) :
    ∀ l ∈ lines, name ∉ wordsOf l := by
  intro l hl hmem
  obtain ⟨i, hi⟩ := List.mem_iff_getElem?.mp hl
  have hnumbered : (⟨i, l⟩ : NumberedLine) ∈ numberLines lines := mem_numberLines_iff.mpr hi
  have hnone := List.flatMap_eq_nil_iff.mp h _ hnumbered
  rw [Pattern.all_of_fitsWords (Pattern.fitsWords_word hname), List.map_eq_nil_iff,
    List.map_eq_nil_iff, List.filter_eq_nil_iff] at hnone
  obtain ⟨s, hs, htext⟩ := List.mem_map.mp hmem
  refine hnone s hs (beq_iff_eq.mpr ?_)
  rw [← htext, Span.toList_text]

theorem rename?_eq {lines : List Line} {p : Position} {site : WordSite} {newName : String}
    (hword : wordAt lines p = some site) (hreserved : isReserved site.word = false)
    (hnew : isIdentifier newName = true) : rename? lines p newName =
      some ((occurrences lines site.word).map fun r => ⟨r, newName.toList⟩) := by
  have htarget : renameTarget? lines p = some site := by
    rw [renameTarget?, hword, Option.filter_some, hreserved]
    rfl
  rw [rename?, htarget]
  exact if_pos hnew

theorem Problem.rule_rename (ρ : String → String) (p : Problem) : (p.rename ρ).rule = p.rule := by
  cases p <;> rfl

theorem Problem.severity_rename (ρ : String → String) (p : Problem) :
    (p.rename ρ).severity = p.severity := by
  cases p <;> rfl

/-- what a diagnostic says but for names and columns -/
def Diagnostic.summary (d : Diagnostic) :
    Option DiagnosticCode × Option Severity × Nat × Nat :=
  (d.code, d.severity, d.range.start.line, d.range.stop.line)

theorem diagnostic_summary_match {ρ : String → String} {M : Line → Line → Span → Span → Prop}
    {lines lines' : List Line} {f f' : Finding} (h : FindingMatch ρ M lines lines' f f') :
    f'.diagnostic.summary = f.diagnostic.summary := by
  have hproblem := h.problem
  obtain ⟨n, l, l', s, s', -, -, -, hr, hr'⟩ := h.range
  show (some (DiagnosticCode.text f'.problem.rule), some f'.problem.severity, f'.range.start.line,
    f'.range.stop.line) = _
  rw [hproblem, Problem.rule_rename, Problem.severity_rename, hr']
  show _ = (some (DiagnosticCode.text f.problem.rule), some f.problem.severity, f.range.start.line,
    f.range.stop.line)
  rw [hr]
  rfl

theorem exchangeText_swapName {w n s : String} (hs : s ≠ n) :
    exchangeText (swapName w.toList n.toList) s = if s = w then n else s := by
  rw [exchangeText]
  by_cases hw : s = w
  · rw [hw, swapName_left, if_pos rfl, String.ofList_toList]
  · have hw' : s.toList ≠ w.toList := fun h => hw (String.toList_injective h)
    have hs' : s.toList ≠ n.toList := fun h => hs (String.toList_injective h)
    rw [swapName_other hw' hs', if_neg hw, String.ofList_toList]

/-- **Renaming keeps the analysis.**  Suppose that every imported name is a whole word, and that a
word of the text and a name that is new to it are identifiers and not reserved.  Then there are
edits, and after them the symbols are those of before, in the same order and with the word renamed;
the diagnostics have the same codes, severities and lines. -/
theorem rename_keeps_analysis (text : Line) (p : Position) (site : WordSite) (newName : String)
    (himports : ∀ l ∈ splitLines text, ImportsWhole l)
    (hword : wordAt (splitLines text) p = some site)
    (hold : isIdentifier site.word = true) (hold' : isReserved site.word = false)
    (hnew : isIdentifier newName = true) (hnew' : isReserved newName = false)
    (htable : (indexSymbols (splitLines text)).contains newName = false)
    (hfresh : occurrences (splitLines text) newName = []) :
    ∃ edits, rename? (splitLines text) p newName = some edits ∧
      let before := Analysis.of text
      let after := Analysis.of (applyEdits text edits)
      after.symbols.symbols.map Symbol.summary = before.symbols.symbols.map (fun s =>
        Symbol.summary { s with name := if s.name = site.word then newName else s.name }) ∧
      after.diagnostics.map Diagnostic.summary = before.diagnostics.map Diagnostic.summary := by
  have hw := isName_of_isIdentifier hold
  have hn := isName_of_isIdentifier hnew
  have hwords := not_mem_wordsOf_of_occurrences hn.isWordText hfresh
  refine ⟨_, rename?_eq hword hold' hnew, ?_⟩
  intro before after
  have hf : NameExchange (swapName site.word.toList newName.toList) :=
    nameExchange_swapName hw hn (by rwa [String.ofList_toList]) (by rwa [String.ofList_toList])
  have hlines : after.lines =
      before.lines.map (mapWords (swapName site.word.toList newName.toList)) :=
    splitLines_renameEdits hw.isWordText hn.isWordText (by rwa [String.ofList_toList])
  have hcode := codeLines_mapWords hf himports
  refine ⟨?_, ?_⟩
  · show (indexSymbols after.lines).symbols.map Symbol.summary = _
    rw [hlines]
    refine (summaries_match hf.renames hcode).trans (List.map_congr_left fun s hs => ?_)
    -- on the names of the table, the exchange is the renaming
    have hne : s.name ≠ newName := by
      intro heq
      have hcontains : (indexSymbols (splitLines text)).contains newName = true :=
        List.any_eq_true.mpr ⟨s, hs, beq_iff_eq.mpr heq⟩
      rw [htable] at hcontains
      exact absurd hcontains (by decide)
    rw [exchangeText_swapName hne]
  · show ((findings after.lines (indexSymbols after.lines)).map Finding.diagnostic).map
      Diagnostic.summary = _
    rw [hlines, List.map_map]
    show _ = ((findings (splitLines text) (indexSymbols (splitLines text))).map
      Finding.diagnostic).map Diagnostic.summary
    rw [List.map_map]
    exact map_eq_of_forall₂ (findings_match hf.renames hcode)
      fun f f' h => diagnostic_summary_match h

/-- three lines, the last of which assigns to an import -/
def renamedText : Line :=
  "import math\nlet foo = 1\nmath = foo + foo\n".toList

theorem renamedText_importsWhole : ∀ l ∈ splitLines renamedText, ImportsWhole l := by
  have hascii : (splitLines renamedText).all
      (fun l => l.all fun c => !isWord c || isNameChar c) = true := by decide +kernel
  exact fun l hl => importsWhole_of_ascii (List.all_eq_true.mp hascii l hl)

theorem rename_renamedText : ∃ edits,
    rename? (splitLines renamedText) ⟨2, 8⟩ "total" = some edits ∧
      (Analysis.of (applyEdits renamedText edits)).symbols.symbols.map Symbol.summary =
        [("math", .imported, 0, [2], true), ("total", .var, 1, [2, 2], true)] := by
  obtain ⟨edits, hedits, hsymbols, -⟩ := rename_keeps_analysis renamedText ⟨2, 8⟩
    ⟨"foo", ⟨⟨2, 7⟩, ⟨2, 10⟩⟩⟩ "total"
    renamedText_importsWhole (by decide +kernel) (by decide +kernel) (by decide +kernel)
    (by decide +kernel) (by decide +kernel) (by decide +kernel) (by decide +kernel)
  refine ⟨edits, hedits, hsymbols.trans ?_⟩
  decide +kernel

end LanguageService
