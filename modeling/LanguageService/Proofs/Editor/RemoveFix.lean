import LanguageService.Editor.QuickFix
import LanguageService.Proofs.Editor.BlankLine
import LanguageService.Proofs.Editor.Definition
import LanguageService.Proofs.Text.LineEdits

/-!
# Removing an unused symbol

The fix for an unused symbol takes out the line that declares it.  A second declaration of a function
or variable of this name would have been a reference, so none is left behind.

* `withoutLine lines n`    the lines without line `n`, which is only emptied if it is the last one
* `splitLines_lineDeletion`   the lines of a text after such a deletion
* `mem_codeLines_withoutLine` the code lines that are left
* `imported_of_unreferenced`  what declares the name of a symbol without references once more
* `removeFix_removes`      the fix for a hint of the analysis
-/

namespace LanguageService

/-! ## a line taken out -/

/-- The lines without line `n`; the last one is emptied. -/
def withoutLine (lines : List Line) (n : Nat) : List Line :=
  if n + 1 < lines.length then lines.eraseIdx n else lines.set n []

theorem splitLines_lineDeletion {text : Line} {n : Nat} (h : n < (splitLines text).length) :
    splitLines (applyEdit text ⟨⟨⟨n, 0⟩, lineDeletionEnd (splitLines text) n⟩, []⟩) =
      withoutLine (splitLines text) n := by
  have hline := List.getElem?_eq_getElem h
  rw [lineDeletionEnd, withoutLine]
  by_cases hlast : n + 1 < (splitLines text).length
  · rw [if_pos hlast, if_pos hlast]
    exact splitLines_deleteLine hlast
  · rw [if_neg hlast, if_neg hlast, hline]
    exact splitLines_emptyLine hline

/-- A code line is taken out: the others have moved. -/
theorem exists_of_mem_codeLines_erase {above below : List Line} {l : Line} {j : NumberedLine}
    (hin : commentBehind false (numberLines above) = false) (hrole : LineRole.of l = .code)
    (hj : j ∈ codeLines (above ++ below)) :
    ∃ i ∈ codeLines (above ++ l :: below), i.text = j.text ∧ i.number ≠ above.length := by
  obtain ⟨hbehind, hself⟩ := commentBehind_code hrole above.length
  have hsame : commentBehind (commentBehind false (numberLines above)) [⟨above.length, l⟩] =
      commentBehind false (numberLines above) := by
    rw [hin, hbehind]
  obtain ⟨moved, hmoved, hall⟩ := codeLines_insert below hsame
  have hmem := List.mem_map_of_mem (f := NumberedLine.renumber (shiftLine above.length)) hj
  rw [hmoved, List.mem_append] at hmem
  refine ⟨j.renumber (shiftLine above.length), ?_, rfl, shiftLine_ne _ _⟩
  rw [hall, List.mem_append, List.mem_append]
  exact hmem.imp_right Or.inr

/-- The last line is emptied: the others have stayed. -/
theorem exists_of_mem_codeLines_empty {above : List Line} {l : Line} {j : NumberedLine}
    (hj : j ∈ codeLines (above ++ [[]])) :
    ∃ i ∈ codeLines (above ++ [l]), i.text = j.text ∧ i.number ≠ above.length := by
  have hempty : codeLines (above ++ [[]]) = codeLines above := by
    rw [codeLines_around, (commentBehind_blank rfl _ _).2]
    exact List.append_nil _
  rw [hempty] at hj
  obtain ⟨added, hadded, -⟩ := codeLines_append above [l]
  refine ⟨j, ?_, rfl, Nat.ne_of_lt (number_lt_of_mem_codeLines hj)⟩
  rw [hadded]
  exact List.mem_append_left _ hj

theorem mem_codeLines_withoutLine {lines : List Line} {k j : NumberedLine}
    (hk : k ∈ codeLines lines) (hj : j ∈ codeLines (withoutLine lines k.number)) :
    ∃ i ∈ codeLines lines, i.text = j.text ∧ i.number ≠ k.number := by
  obtain ⟨above, below, hlines, hlen, hset, hin, hrole⟩ := exists_around_codeLine hk []
  rw [withoutLine, hset, ← hlen, hlines, List.eraseIdx_append_of_length_le (Nat.le_refl _),
    Nat.sub_self, List.eraseIdx_cons_zero, List.length_append, List.length_cons] at hj
  rw [hlines, ← hlen]
  cases below with
  | nil =>
    rw [List.length_nil, if_neg (Nat.lt_irrefl _)] at hj
    exact exists_of_mem_codeLines_empty hj
  | cons x below =>
    rw [if_pos (by rw [List.length_cons]; omega)] at hj
    exact exists_of_mem_codeLines_erase hin hrole hj

/-! ## a symbol without references -/

theorem span_mem_wordRuns_of_first? {l : Line} {d : Declaration}
    (h : Declaration.first? l = some d) (hkind : d.kind ≠ .imported) : d.span ∈ wordRuns l := by
  obtain ⟨before, nm, after, hseen⟩ := exists_seen h
  rw [hseen.span, mem_wordRuns_iff]
  exact ⟨before, nm, after, hseen.line, hseen.edge, hseen.isName.isWordText, hseen.closed hkind, rfl⟩

/-- If a symbol has no references, then away from its own line only imports declare its name. -/
theorem imported_of_unreferenced {lines : List Line} {s : Symbol}
    (hs : s ∈ (indexSymbols lines).symbols) (hrefs : s.references = [])
    (hreserved : isReserved s.name = false) {i : NumberedLine} (hi : i ∈ codeLines lines)
    (hne : i.number ≠ s.line) {d : Declaration} (hd : Declaration.first? i.text = some d)
    (hname : d.name = s.name) : d.kind = .imported := by
  by_contra hkind
  rw [references_of_mem_indexSymbols hs, hreserved, if_neg Bool.false_ne_true, usesOf,
    List.flatMap_eq_nil_iff] at hrefs
  have hnone := hrefs i hi
  rw [List.map_eq_nil_iff, List.filter_eq_nil_iff] at hnone
  apply hnone d.span (span_mem_wordRuns_of_first? hd hkind)
  have hrange : d.span.range i.number i.text ≠ s.nameRange := by
    intro heq
    apply hne
    rw [← line_nameRange hs, ← heq]
    rfl
  rw [span_text_of_first? hd, hname, beq_self_eq_true, Bool.true_and]
  exact bne_iff_ne.mpr hrange

/-- When the line of a symbol without references is taken out, its name declares imports only. -/
theorem imported_of_mem_withoutLine {lines : List Line} {s t : Symbol}
    (hs : s ∈ (indexSymbols lines).symbols) (hrefs : s.references = [])
    (hreserved : isReserved s.name = false)
    (ht : t ∈ (indexSymbols (withoutLine lines s.line)).symbols) (hname : t.name = s.name) :
    t.kind = .imported := by
  obtain ⟨k, d, hd⟩ := exists_declares hs
  rw [hd.line] at ht
  obtain ⟨j, e, he⟩ := exists_declares ht
  obtain ⟨i, hi, htext, hne⟩ := mem_codeLines_withoutLine hd.mem he.mem
  rw [← hd.line] at hne
  have hfirst : Declaration.first? i.text = some e := by
    rw [htext]
    exact he.first
  rw [he.kind]
  apply imported_of_unreferenced hs hrefs hreserved hi hne hfirst
  rw [← he.name, hname]

/-! ## the fix -/

/-- **The fix for an unused symbol.**  It takes out the line of the declaration, which is emptied if it
is the last one; and if the name is not reserved, it names no function or variable afterwards. -/
theorem removeFix_removes (text : Line) (d : Diagnostic) (hd : d ∈ (Analysis.of text).diagnostics)
    (hrule : d.rule? = some "unused-symbol") :
    ∃ s ∈ (Analysis.of text).symbols.symbols, d = s.unusedHint ∧ symbolName d = s.name ∧
      d.range.start.line = s.line ∧
      ∃ e, (quickFixes (Analysis.of text).lines [d]).map QuickFix.remedy = [.edit e] ∧
        (Analysis.of (applyEdit text e)).lines = withoutLine (Analysis.of text).lines s.line ∧
        (isReserved s.name = false →
          ∀ t ∈ (Analysis.of (applyEdit text e)).symbols.symbols,
            t.name = s.name → t.kind = .imported) := by
  obtain ⟨s, hs, -, hrefs, rfl⟩ := (unused_diagnostic_iff (splitLines text) d).mp ⟨hd, hrule⟩
  have hline : s.unusedHint.range.start.line = s.line := line_nameRange hs
  have hlt : s.line < (splitLines text).length := by
    obtain ⟨k, e, he⟩ := exists_declares hs
    rw [he.line]
    exact number_lt_of_mem_codeLines he.mem
  refine ⟨s, hs, rfl, rfl, hline, _, rfl, ?_⟩
  rw [hline]
  have hlines := splitLines_lineDeletion hlt
  refine ⟨hlines, fun hreserved t ht hname => ?_⟩
  change t ∈ (indexSymbols (splitLines (applyEdit text
    ⟨⟨⟨s.line, 0⟩, lineDeletionEnd (splitLines text) s.line⟩, []⟩))).symbols at ht
  rw [hlines] at ht
  exact imported_of_mem_withoutLine hs hrefs hreserved ht hname

/-- two unused variables, the first on a line that ends with CR LF -/
def unusedText : Line :=
  "let a = 1\r\nlet b = 2".toList

/-- The first variable goes with its line and what ends it. -/
theorem removeFix_unusedText :
    let d := (⟨"a", .var, 0, ⟨⟨0, 4⟩, ⟨0, 5⟩⟩, [], false⟩ : Symbol).unusedHint
    d ∈ (Analysis.of unusedText).diagnostics ∧ d.rule? = some "unused-symbol" ∧
      ∃ e, (quickFixes (Analysis.of unusedText).lines [d]).map QuickFix.remedy = [.edit e] ∧
        (Analysis.of (applyEdit unusedText e)).lines = ["let b = 2".toList] := by
  intro d
  have hmem : (⟨"a", .var, 0, ⟨⟨0, 4⟩, ⟨0, 5⟩⟩, [], false⟩ : Symbol) ∈
      (indexSymbols (splitLines unusedText)).symbols := by decide +kernel
  have hd : d ∈ (Analysis.of unusedText).diagnostics :=
    (unusedHint_mem_iff hmem).mpr ⟨by decide, rfl⟩
  obtain ⟨s, -, -, -, hline, e, he, hlines, -⟩ := removeFix_removes unusedText d hd rfl
  refine ⟨hd, rfl, e, he, ?_⟩
  rw [hlines, ← hline]
  decide +kernel

end LanguageService
