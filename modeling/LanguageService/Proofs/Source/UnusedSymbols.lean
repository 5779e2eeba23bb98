import LanguageService.Proofs.Source.LineProblems

/-!
# Hints on unused symbols

The diagnostics of a document are those of its lines and then the hints on its unused symbols.
Which of the two a diagnostic is can be read off its rule.

* `diagnose lines`          the diagnostics of a document
* `syntaxProblems k`        the problems of a line that do not depend on any symbol
* `line_of_mem_problemsOnLine`   the problems of a line begin on it
* `Symbol.unusedHint`       the hint that a symbol is not used
* `unused_diagnostic_iff`   the diagnostics about unused symbols are the hints of the symbols without
                            references, imports left out
* `unusedHint_mem_iff`      whether a symbol has its hint
-/

namespace LanguageService

/-- the diagnostics of a document -/
def diagnose (lines : List Line) : List Diagnostic :=
  (findings lines (indexSymbols lines)).map Finding.diagnostic

/-- the rules that look at the text of a line only -/
def syntaxRules : List String :=
  ["unmatched-brace", "unmatched-paren", "invalid-function-syntax"]

/-- the problems of a line that do not depend on any symbol -/
def syntaxProblems (k : NumberedLine) : List Finding :=
  (braceProblem? k).toList ++ (parenProblem? k).toList ++ (functionProblem? k).toList

theorem problemsOnLine_eq (symbols : SymbolTable) (k : NumberedLine) :
    problemsOnLine symbols k = syntaxProblems k ++ (assignmentProblem? symbols k).toList := rfl

/-! ## the problems of a line -/

theorem mem_syntaxProblems {k : NumberedLine} {f : Finding} (hf : f ∈ syntaxProblems k) :
    f.problem.rule ∈ syntaxRules ∧ f.range.start.line = k.number := by
  rw [syntaxProblems, List.mem_append, List.mem_append, Option.mem_toList, Option.mem_toList,
    Option.mem_toList] at hf
  rcases hf with (hf | hf) | hf
  · obtain ⟨-, hf⟩ := Option.ite_none_right_eq_some.mp hf
    obtain rfl := Option.some.inj hf
    exact ⟨by simp [syntaxRules, Problem.rule], rfl⟩
  · obtain ⟨-, hf⟩ := Option.ite_none_right_eq_some.mp hf
    obtain rfl := Option.some.inj hf
    exact ⟨by simp [syntaxRules, Problem.rule], rfl⟩
  · obtain ⟨-, hf⟩ := Option.ite_none_right_eq_some.mp hf
    obtain rfl := Option.some.inj hf
    exact ⟨by simp [syntaxRules, Problem.rule], rfl⟩

theorem mem_assignmentProblem? {symbols : SymbolTable} {k : NumberedLine} {f : Finding}
    (hf : assignmentProblem? symbols k = some f) :
    f.problem.rule = "missing-let" ∧ f.range.start.line = k.number := by
  rw [assignmentProblem?_eq] at hf
  obtain ⟨s, -, hf⟩ := Option.bind_eq_some_iff.mp hf
  split at hf
  · cases hf
  · obtain rfl := Option.some.inj hf
    exact ⟨rfl, rfl⟩

/-- the problems of a line begin on it, and none is about an unused symbol -/
theorem line_of_mem_problemsOnLine {symbols : SymbolTable} {k : NumberedLine} {f : Finding}
    (hf : f ∈ problemsOnLine symbols k) :
    f.problem.rule ≠ "unused-symbol" ∧ f.range.start.line = k.number := by
  rw [problemsOnLine_eq, List.mem_append, Option.mem_toList] at hf
  rcases hf with hf | hf
  · obtain ⟨hrule, hline⟩ := mem_syntaxProblems hf
    refine ⟨fun heq => ?_, hline⟩
    rw [heq] at hrule
    exact absurd hrule (by decide)
  · obtain ⟨hrule, hline⟩ := mem_assignmentProblem? hf
    rw [hrule]
    exact ⟨by decide, hline⟩

/-! ## unused symbols -/

/-- the hint that a symbol is not used -/
def Symbol.unusedHint (s : Symbol) : Diagnostic :=
  Finding.diagnostic ⟨.unusedSymbol s.name s.kind, s.nameRange⟩

theorem unusedProblem?_eq_some_iff {lines : List Line} {s : Symbol}
    (hs : s ∈ (indexSymbols lines).symbols) {f : Finding} : unusedProblem? s = some f ↔
    s.kind ≠ .imported ∧ s.references = [] ∧ f = ⟨.unusedSymbol s.name s.kind, s.nameRange⟩ := by
  have hused := used_iff_of_mem_indexSymbols hs
  unfold unusedProblem?
  split
  · next h =>
    refine iff_of_false (fun hf => Option.some_ne_none f hf.symm) fun hf => ?_
    rw [Bool.or_eq_true, decide_eq_true_eq, hused] at h
    exact h.elim hf.1 fun hne => hne hf.2.1
  · next h =>
    rw [Bool.or_eq_true, decide_eq_true_eq, hused, not_or, not_not] at h
    rw [and_iff_right h.1, and_iff_right h.2, Option.some_inj, eq_comm]

/-- The diagnostics about unused symbols are the hints of the symbols without references, imports
left out. -/
theorem unused_diagnostic_iff (lines : List Line) (d : Diagnostic) :
    d ∈ diagnose lines ∧ d.rule? = some "unused-symbol" ↔
      ∃ s ∈ (indexSymbols lines).symbols, s.kind ≠ .imported ∧ s.references = [] ∧
        d = s.unusedHint := by
  constructor
  · intro h
    obtain ⟨hd, hrule⟩ := h
    obtain ⟨f, hf, rfl⟩ := List.mem_map.mp hd
    rw [findings, List.mem_append, List.mem_flatMap, List.mem_filterMap] at hf
    rcases hf with ⟨k, -, hf⟩ | ⟨s, hs, hf⟩
    · exact absurd (Option.some.inj hrule) (line_of_mem_problemsOnLine hf).1
    · obtain ⟨hkind, hrefs, rfl⟩ := (unusedProblem?_eq_some_iff hs).mp hf
      exact ⟨s, hs, hkind, hrefs, rfl⟩
  · intro h
    obtain ⟨s, hs, hkind, hrefs, rfl⟩ := h
    refine ⟨List.mem_map_of_mem (List.mem_append_right _ ?_), rfl⟩
    exact List.mem_filterMap.mpr ⟨s, hs, (unusedProblem?_eq_some_iff hs).mpr ⟨hkind, hrefs, rfl⟩⟩

theorem eq_of_line_eq {lines : List Line} {s t : Symbol} (hs : s ∈ (indexSymbols lines).symbols)
    (ht : t ∈ (indexSymbols lines).symbols) (h : s.line = t.line) : s = t := by
  have hdistinct : (indexSymbols lines).symbols.Pairwise fun a b => a.line ≠ b.line :=
    (symbols_pairwise lines).imp fun hab => Nat.ne_of_lt hab.2
  have hfound := find?_key_of_mem hdistinct hs
  rw [h, find?_key_of_mem hdistinct ht] at hfound
  exact (Option.some.inj hfound).symm

theorem eq_of_nameRange_eq {lines : List Line} {s t : Symbol}
    (hs : s ∈ (indexSymbols lines).symbols) (ht : t ∈ (indexSymbols lines).symbols)
    (h : s.nameRange = t.nameRange) : s = t := by
  refine eq_of_line_eq hs ht ?_
  rw [← line_nameRange hs, ← line_nameRange ht, h]

/-- a symbol has its hint exactly if it is no import and has no reference -/
theorem unusedHint_mem_iff {lines : List Line} {s : Symbol}
    (hs : s ∈ (indexSymbols lines).symbols) :
    s.unusedHint ∈ diagnose lines ↔ s.kind ≠ .imported ∧ s.references = [] := by
  have hiff := unused_diagnostic_iff lines s.unusedHint
  rw [and_iff_left (show s.unusedHint.rule? = some "unused-symbol" from rfl)] at hiff
  rw [hiff]
  constructor
  · intro h
    obtain ⟨t, ht, hkind, hrefs, heq⟩ := h
    have hsame : s = t := eq_of_nameRange_eq hs ht (congrArg Diagnostic.range heq)
    rw [hsame]
    exact ⟨hkind, hrefs⟩
  · intro h
    exact ⟨s, hs, h.1, h.2, rfl⟩

end LanguageService
