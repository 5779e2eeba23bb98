import LanguageService.Proofs.Editor.NumberTokens
import LanguageService.Proofs.Editor.StringTokens
import LanguageService.Proofs.Editor.Layout

/-!
# The tokens of a line by direct scanners

The passes over a line are written as patterns.  What they find can be said without patterns: the
words of a catalog, the numbers among the words, quoted texts up to their closing quotes, runs of
operator characters, and the comment at the end of the line.

* `catalogWords words l`   the words of a line that stand in a catalog
* `all_wordAmong`          the pattern of a catalog finds exactly these
* `scannedTokens l`        the tokens of a line by direct scanners
* `tokenPasses_eq_scanners`  each pass finds what its scanner takes
-/

namespace LanguageService

/-! ## the words of a catalog -/

/-- the words of a line that stand in a catalog, from left to right -/
def catalogWords (words : List String) (l : Line) : List Span :=
  (wordRuns l).filter fun s => words.contains (s.text l)

theorem mem_catalogWords_iff {words : List String} {l : Line} {s : Span} :
    s ∈ catalogWords words l ↔ IsWordRun l s ∧ s.text l ∈ words := by
  rw [catalogWords, List.mem_filter, mem_wordRuns_iff, List.contains_iff_mem]

theorem catalogWords_pairwise (words : List String) (l : Line) :
    (catalogWords words l).Pairwise fun s t => s.start < t.start :=
  (wordRunsFrom_pairwise l 0 false).sublist List.filter_sublist

open Pattern in
/-- The pattern of a catalog finds the words that stand in it, however its words begin. -/
theorem all_wordAmong {words : List String} (hwords : ∀ w ∈ words, isNameText w.toList = true)
    (l : Line) : (wordAmong words).all l = (catalogWords words l).map fun s => ⟨s, []⟩ := by
  have hfits : ∀ p x y gs, Fits (anyOf (words.map nameText)) p x y gs ↔
      words.contains (String.ofList x) = true ∧ gs = [] := by
    intro p x y gs
    rw [fits_anyOf, List.contains_iff_mem]
    constructor
    · rintro ⟨_, ha, hx⟩
      obtain ⟨w, hw, rfl⟩ := List.mem_map.mp ha
      obtain ⟨rfl, rfl⟩ := fits_nameText.mp hx
      rw [String.ofList_toList]
      exact ⟨hw, rfl⟩
    · rintro ⟨hx, rfl⟩
      exact ⟨_, List.mem_map_of_mem hx, fits_nameText.mpr ⟨String.toList_ofList.symm, rfl⟩⟩
  have hword : ∀ x, words.contains (String.ofList x) = true → IsWordText x := by
    intro x hx
    have hname := hwords _ (List.contains_iff_mem.mp hx)
    rw [String.toList_ofList] at hname
    exact ((isNameText_iff x).mp hname).isWordText
  exact all_of_fitsWords (fitsWords_of_text hfits hword) l

/-! ## the passes over a line -/

/-- stretches of a line as tokens of one kind -/
def spanTokens (spans : List Span) (kind : TokenKind) (modifiers : List TokenModifier)
    (l : NumberedLine) : List Token :=
  spans.map fun s => s.token l kind modifiers

theorem matchTokens_eq_spanTokens {a : Pattern} {spans : List Span} {l : NumberedLine}
    (h : a.all l.text = spans.map fun s => ⟨s, []⟩) (kind : TokenKind)
    (modifiers : List TokenModifier) :
    matchTokens a kind modifiers l = spanTokens spans kind modifiers l := by
  rw [matchTokens, h, List.map_map]
  rfl

/-- The tokens of a line by direct scanners; the name that the line declares and the word of a
declarative statement stand between them as they are. -/
def scannedTokens (l : NumberedLine) : List Token :=
  spanTokens (catalogWords keywords l.text) .keyword [] l ++
  spanTokens (catalogWords builtins l.text) .function [.defaultLibrary] l ++
  spanTokens (catalogWords modules l.text) .module [.defaultLibrary] l ++
  (declarationToken? l).toList ++
  spanTokens (scan stringReach l.text) .string [] l ++
  spanTokens (numbersAmong l.text (wordRuns l.text)) .number [] l ++
  spanTokens (commentSpan? l.text).toList .comment [] l ++
  spanTokens (maximalRuns isOperator l.text) .operator [] l ++
  spanTokens (catalogWords literalKeywords l.text) .keyword [.readonly] l ++
  (groupToken? declarativeText .declarative [] l).toList

theorem isNameText_of_catalog : ∀ words ∈ [keywords, builtins, modules, literalKeywords],
    ∀ w ∈ words, isNameText w.toList = true := by
  decide +kernel

/-- Each pass over a line of a document finds what its scanner takes.  The words of a catalog are
the maximal runs of word characters that stand in it, each once and from left to right; the
operators are the maximal runs of their characters. -/
theorem tokenPasses_eq_scanners {text : Line} {l : NumberedLine}
    (hl : l ∈ numberLines (splitLines text)) :
    (∀ words ∈ [keywords, builtins, modules, literalKeywords], ∀ kind modifiers,
      matchTokens (wordAmong words) kind modifiers l =
        spanTokens (catalogWords words l.text) kind modifiers l) ∧
    (∀ words s, s ∈ catalogWords words l.text ↔ IsWordRun l.text s ∧ s.text l.text ∈ words) ∧
    (∀ words, (catalogWords words l.text).Pairwise fun s t => s.start < t.start) ∧
    matchTokens numberText .number [] l =
      spanTokens (numbersAmong l.text (wordRuns l.text)) .number [] l ∧
    matchTokens stringText .string [] l = spanTokens (scan stringReach l.text) .string [] l ∧
    matchTokens operatorText .operator [] l =
      spanTokens (maximalRuns isOperator l.text) .operator [] l ∧
    (∀ s, s ∈ maximalRuns isOperator l.text ↔ IsRun isOperator l.text s) ∧
    matchTokens commentText .comment [] l =
      spanTokens (commentSpan? l.text).toList .comment [] l ∧
    tokensOnLine l = scannedTokens l := by
  have hplain : '\n' ∉ l.text :=
    splitLines_no_feed text _ (List.mem_of_getElem? (mem_numberLines_iff.mp hl))
  have hwords : ∀ words ∈ [keywords, builtins, modules, literalKeywords], ∀ kind modifiers,
      matchTokens (wordAmong words) kind modifiers l =
        spanTokens (catalogWords words l.text) kind modifiers l := fun words hmem =>
    matchTokens_eq_spanTokens (all_wordAmong (isNameText_of_catalog words hmem) l.text)
  have hnumbers := matchTokens_eq_spanTokens (all_numberText l.text) .number []
  have hstrings := matchTokens_eq_spanTokens (all_stringText hplain) .string []
  have hoperators : matchTokens operatorText .operator [] l =
      spanTokens (maximalRuns isOperator l.text) .operator [] l :=
    matchTokens_eq_spanTokens (Pattern.all_many1 isOperator l.text) .operator []
  have hcomments := matchTokens_eq_spanTokens (all_commentText hplain) .comment []
  refine ⟨hwords, fun _ _ => mem_catalogWords_iff, fun words => catalogWords_pairwise words l.text,
    hnumbers, hstrings, hoperators, mem_maximalRuns_iff isOperator l.text, hcomments, ?_⟩
  rw [tokensOnLine, hwords keywords (by simp), hwords builtins (by simp), hwords modules (by simp),
    hwords literalKeywords (by simp), hnumbers, hstrings, hoperators, hcomments]
  rfl

/-- Words that begin alike, a number with two points, digits in front of a letter, an escaped quote,
a quoted text that is not closed before the comment, and a backslash at the end of the line. -/
def tangledText : Line :=
  "include in print println 1.2.3 3.14x \"a\\\"b\" 'it\\' \"b\" // x == 10 \"c\\".toList

theorem tokenPasses_tangledText :
    (⟨0, tangledText⟩ : NumberedLine) ∈ numberLines (splitLines tangledText) ∧
      matchTokens (wordAmong keywords) .keyword [] ⟨0, tangledText⟩ =
        [⟨0, 0, 7, 0, 0⟩, ⟨0, 8, 2, 0, 0⟩] ∧
      matchTokens (wordAmong builtins) .function [.defaultLibrary] ⟨0, tangledText⟩ =
        [⟨0, 11, 5, 1, 2⟩, ⟨0, 17, 7, 1, 2⟩] ∧
      matchTokens numberText .number [] ⟨0, tangledText⟩ =
        [⟨0, 25, 3, 5, 0⟩, ⟨0, 29, 1, 5, 0⟩, ⟨0, 31, 1, 5, 0⟩, ⟨0, 62, 2, 5, 0⟩] ∧
      matchTokens stringText .string [] ⟨0, tangledText⟩ =
        [⟨0, 37, 6, 4, 0⟩, ⟨0, 50, 3, 4, 0⟩] ∧
      matchTokens operatorText .operator [] ⟨0, tangledText⟩ =
        [⟨0, 54, 2, 7, 0⟩, ⟨0, 59, 2, 7, 0⟩] ∧
      matchTokens commentText .comment [] ⟨0, tangledText⟩ = [⟨0, 54, 14, 6, 0⟩] := by
  have hline : (⟨0, tangledText⟩ : NumberedLine) ∈ numberLines (splitLines tangledText) := by
    decide +kernel
  obtain ⟨hwords, -, -, hnumbers, hstrings, hoperators, -, hcomments, -⟩ :=
    tokenPasses_eq_scanners hline
  refine ⟨hline, ?_, ?_, ?_, ?_, ?_, ?_⟩
  · rw [hwords keywords (by simp)]
    decide +kernel
  · rw [hwords builtins (by simp)]
    decide +kernel
  · rw [hnumbers]
    decide +kernel
  · rw [hstrings]
    decide +kernel
  · rw [hoperators]
    decide +kernel
  · rw [hcomments]
    decide +kernel

end LanguageService
