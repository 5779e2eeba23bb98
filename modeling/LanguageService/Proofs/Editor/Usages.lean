import LanguageService.Editor.Navigation
import LanguageService.Proofs.Source.CodeLines
import LanguageService.Proofs.Source.UnusedSymbols

/-!
# References and occurrences

The table of symbols reads the words of each code line and leaves out the place where a symbol is
declared.  Navigation searches every line for one given name.  Both come to the same places.

* `occurrences_eq`           the occurrences of a name are the words that equal it
* `usesOf_eq_occurrences`    the uses of a name are its occurrences on code lines
* `references_eq_occurrences`   the references of a symbol, and when it has the hint that it is
                             not used
-/

namespace LanguageService

/-- the occurrences of a name are the words of the document that equal it -/
theorem occurrences_eq {name : String} (hname : IsWordText name.toList) (lines : List Line) :
    occurrences lines name = (numberLines lines).flatMap fun k =>
      ((wordRuns k.text).filter fun r => r.text k.text == name).map fun r =>
        r.range k.number k.text := by
  rw [occurrences]
  apply List.flatMap_congr
  intro k _
  rw [Pattern.all_of_fitsWords (Pattern.fitsWords_word hname), List.map_map]
  show ((wordRuns k.text).filter fun r => r.chars k.text == name.toList).map
    (fun r => r.range k.number k.text) = _
  congr 1
  apply List.filter_congr
  intro r _
  rw [Bool.eq_iff_iff, beq_iff_eq, beq_iff_eq, Span.text_eq_iff]

/-- The uses of a name away from a place are its occurrences on code lines, that place left out. -/
theorem usesOf_eq_occurrences {name : String} (hname : IsWordText name.toList)
    (lines : List Line) (site : Range) : usesOf (codeLines lines) name site =
      ((occurrences lines name).filter fun r =>
        isCodeLine lines r.start.line && r != site).map fun r => r.start.line := by
  rw [occurrences_eq hname, List.filter_flatMap, List.map_flatMap, usesOf, flatMap_codeLines]
  apply List.flatMap_congr
  intro k _
  rw [List.filter_map, List.map_map, List.filter_filter]
  show _ = ((wordRuns k.text).filter fun r =>
    (isCodeLine lines k.number && r.range k.number k.text != site) &&
      r.text k.text == name).map fun _ => k.number
  cases isCodeLine lines k.number with
  | true =>
    rw [if_pos rfl]
    congr 1
    apply List.filter_congr
    intro r _
    rw [Bool.true_and, Bool.and_comm]
  | false => simp

/-- **References are occurrences.**  The references of a symbol that is no reserved word are the
lines of its occurrences on code lines, one for each and in their order, without the place of its
declaration.  So the hint that a symbol is not used is given exactly if it is no import and no
occurrence on a code line stands elsewhere. -/
theorem references_eq_occurrences {lines : List Line} {s : Symbol}
    (hs : s ∈ (indexSymbols lines).symbols) (hreserved : isReserved s.name = false) :
    s.references = ((occurrences lines s.name).filter fun r =>
      isCodeLine lines r.start.line && r != s.nameRange).map (fun r => r.start.line) ∧
    (s.unusedHint ∈ diagnose lines ↔ s.kind ≠ .imported ∧
      ∀ r ∈ occurrences lines s.name, isCodeLine lines r.start.line = true →
        r = s.nameRange) := by
  have hrefs : s.references = ((occurrences lines s.name).filter fun r =>
      isCodeLine lines r.start.line && r != s.nameRange).map fun r => r.start.line := by
    rw [references_of_mem_indexSymbols hs, hreserved, if_neg Bool.false_ne_true,
      usesOf_eq_occurrences (isName_of_mem_indexSymbols hs).isWordText]
  refine ⟨hrefs, ?_⟩
  rw [unusedHint_mem_iff hs, hrefs, List.map_eq_nil_iff, List.filter_eq_nil_iff]
  apply and_congr_right
  intro _
  constructor
  · intro h r hr hcode
    have hnot := h r hr
    rw [hcode, Bool.true_and, bne_iff_ne, not_not] at hnot
    exact hnot
  · intro h r hr hboth
    obtain ⟨hcode, hne⟩ := Bool.and_eq_true_iff.mp hboth
    exact bne_iff_ne.mp hne (h r hr hcode)

/-- a variable, a line on which an accented letter stands before one of two uses, a comment, and an
assignment to the variable -/
def usedLines : List Line :=
  ["let a = 1".toList, "éa + a".toList, "// a".toList, "a = a".toList]

theorem references_usedLines :
    let s : Symbol := ⟨"a", .var, 0, ⟨⟨0, 4⟩, ⟨0, 5⟩⟩, [1, 3, 3], true⟩
    s ∈ (indexSymbols usedLines).symbols ∧ isReserved s.name = false ∧
      [1, 3, 3] = ((occurrences usedLines "a").filter fun r =>
        isCodeLine usedLines r.start.line && r != s.nameRange).map (fun r => r.start.line) ∧
      s.unusedHint ∉ diagnose usedLines := by
  intro s
  have hs : s ∈ (indexSymbols usedLines).symbols := by decide +kernel
  have hreserved : isReserved s.name = false := by decide +kernel
  obtain ⟨hrefs, hhint⟩ := references_eq_occurrences hs hreserved
  refine ⟨hs, hreserved, hrefs, ?_⟩
  rw [hhint]
  intro h
  have hother : (⟨⟨1, 5⟩, ⟨1, 6⟩⟩ : Range) ∈ occurrences usedLines s.name ∧
      isCodeLine usedLines 1 = true := by decide +kernel
  exact absurd (h.2 _ hother.1 hother.2) (by decide)

end LanguageService
