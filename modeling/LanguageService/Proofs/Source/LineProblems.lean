import LanguageService.Proofs.Source.Correspondence

/-!
# The problems of a line

Four rules look at one code line at a time.  Each reports a line exactly if the line breaks it.

* `HasWord`, `DeclaresFunction`, `AssignsUndeclared`   what the rules look for on a line
* `ReportedIff`          a rule reports exactly what breaks it
* `LineDiagnostics`      the four rules on one line, in their order
* `lineDiagnostics_problemsOnLine`   the problems of a line are those of the four rules
* `findings_spec`        the diagnostics of a document, line by line, and the unused symbols
-/

namespace LanguageService

/-! ## what the rules look for -/

/-- some maximal run of word characters is the given word -/
def HasWord (word : String) (l : Line) : Prop :=
  ∃ s, IsWordRun l s ∧ s.text l = word

/-- somewhere on the line stand `let`, white space, a name, an equals sign and `func` -/
def DeclaresFunction (l : Line) : Prop :=
  ∃ p gap nm r, DeclaredAt declarationKeyword.toList FunctionTail l p gap nm r

/-- The line begins with an assignment to the name at `s`, and nothing declares this name. -/
structure AssignsUndeclared (symbols : SymbolTable) (l : Line) (s : Span) : Prop where
  assigned : ∃ g nm r, AssignedAt l g nm r ∧ s = ⟨g.length, g.length + nm.length⟩
  no_let : ¬ HasWord declarationKeyword l
  no_keyword : isKeyword (s.text l) = false
  unknown : symbols.contains (s.text l) = false

theorem mentionsWord_iff {word : String} (hword : IsName word.toList) (l : Line) :
    mentionsWord word l = true ↔ HasWord word l := by
  rw [mentionsWord_eq hword, List.contains_iff_mem, wordsOf, List.mem_map]
  exact exists_congr fun s => and_congr_left' (mem_wordRuns_iff l s)

theorem occurs_anyFunction_iff (l : Line) :
    Shape.anyFunction.occurs l = true ↔ DeclaresFunction l := by
  rw [occurs_anyFunction, Option.isSome_iff_ne_none, ne_eq,
    shape_function.ofShape?_eq_none_iff .function l]
  simp only [DeclaresFunction, not_forall, not_not]

theorem isName_let : IsName declarationKeyword.toList := (isNameText_iff _).mp (by decide)

theorem isName_func : IsName functionKeyword.toList := (isNameText_iff _).mp (by decide)

/-! ## the rules -/

/-- There is a diagnostic exactly if the rule is broken, and it is a report of that. -/
structure ReportedIff (broken : Prop) (Report : Diagnostic → Prop) (d? : Option Diagnostic) :
    Prop where
  isSome_iff : d?.isSome = true ↔ broken
  report : ∀ d ∈ d?, Report d

/-- The diagnostic names the rule and covers the range. -/
structure Reports (rule : String) (severity : Severity) (range : Range) (data : Option Json)
    (d : Diagnostic) : Prop where
  code : d.code = some (.text rule)
  severity : d.severity = some severity
  range : d.range = range
  data : d.data = data

/-- The diagnostics of a line: of each rule at most one, in this order.  All but the last cover the
line without its margins; the last covers the name and hands it on. -/
def LineDiagnostics (symbols : SymbolTable) (k : NumberedLine) (ds : List Diagnostic) : Prop :=
  ∃ brace paren function assignment : Option Diagnostic,
    ds = brace.toList ++ paren.toList ++ function.toList ++ assignment.toList ∧
    ReportedIff (k.text.count '{' < k.text.count '}')
      (Reports "unmatched-brace" .error (Range.ofTrimmed k.number k.text) none) brace ∧
    ReportedIff (k.text.count '(' ≠ k.text.count ')' ∧ '{' ∉ k.text)
      (Reports "unmatched-paren" .warning (Range.ofTrimmed k.number k.text) none) paren ∧
    ReportedIff (HasWord functionKeyword k.text ∧ ¬ DeclaresFunction k.text)
      (Reports "invalid-function-syntax" .error (Range.ofTrimmed k.number k.text) none) function ∧
    ReportedIff (∃ s, AssignsUndeclared symbols k.text s)
      (fun d => ∃ s, AssignsUndeclared symbols k.text s ∧
        Reports "missing-let" .warning (s.range k.number k.text)
          (some (.object [("variable", .string (s.text k.text))])) d) assignment

/-- a rule that reports one problem at one place, or nothing -/
theorem reportedIff_ite {broken : Prop} {c : Prop} [Decidable c] (hc : c ↔ broken)
    {Report : Diagnostic → Prop} {f : Finding} (hf : Report f.diagnostic) :
    ReportedIff broken Report ((if c then some f else none).map Finding.diagnostic) := by
  split
  · next h =>
    refine ⟨iff_of_true rfl (hc.mp h), fun d hd => ?_⟩
    obtain rfl := Option.some.inj hd
    exact hf
  · next h => exact ⟨iff_of_false Bool.false_ne_true fun hb => h (hc.mpr hb), fun d hd => nomatch hd⟩

theorem braceProblem_reported (k : NumberedLine) :
    ReportedIff (k.text.count '{' < k.text.count '}')
      (Reports "unmatched-brace" .error (Range.ofTrimmed k.number k.text) none)
      ((braceProblem? k).map Finding.diagnostic) :=
  reportedIff_ite Iff.rfl ⟨rfl, rfl, rfl, rfl⟩

theorem parenProblem_reported (k : NumberedLine) :
    ReportedIff (k.text.count '(' ≠ k.text.count ')' ∧ '{' ∉ k.text)
      (Reports "unmatched-paren" .warning (Range.ofTrimmed k.number k.text) none)
      ((parenProblem? k).map Finding.diagnostic) :=
  reportedIff_ite (and_congr_right fun _ => List.count_eq_zero) ⟨rfl, rfl, rfl, rfl⟩

theorem functionProblem_reported (k : NumberedLine) :
    ReportedIff (HasWord functionKeyword k.text ∧ ¬ DeclaresFunction k.text)
      (Reports "invalid-function-syntax" .error (Range.ofTrimmed k.number k.text) none)
      ((functionProblem? k).map Finding.diagnostic) := by
  refine reportedIff_ite ?_ ⟨rfl, rfl, rfl, rfl⟩
  rw [Bool.and_eq_true, mentionsWord_iff isName_func, Bool.not_eq_true', ← Bool.not_eq_true,
    occurs_anyFunction_iff]

theorem AssignsUndeclared.assigned?_eq {symbols : SymbolTable} {l : Line} {s : Span}
    (h : AssignsUndeclared symbols l s) : assigned? l = some s :=
  (assigned?_eq_some_iff l s).mpr h.assigned

theorem assignsUndeclared_iff {symbols : SymbolTable} {l : Line} {s : Span}
    (hs : assigned? l = some s) : AssignsUndeclared symbols l s ↔
      ¬ (mentionsWord declarationKeyword l || isKeyword (s.text l) ||
        symbols.contains (s.text l)) = true := by
  simp only [Bool.or_eq_true, not_or, Bool.not_eq_true, mentionsWord_iff isName_let]
  constructor
  · exact fun h => ⟨⟨h.no_let, h.no_keyword⟩, h.unknown⟩
  · rintro ⟨⟨hlet, hkeyword⟩, hunknown⟩
    exact ⟨(assigned?_eq_some_iff l s).mp hs, hlet, hkeyword, hunknown⟩

theorem assignmentProblem_reported (symbols : SymbolTable) (k : NumberedLine) :
    ReportedIff (∃ s, AssignsUndeclared symbols k.text s)
      (fun d => ∃ s, AssignsUndeclared symbols k.text s ∧
        Reports "missing-let" .warning (s.range k.number k.text)
          (some (.object [("variable", .string (s.text k.text))])) d)
      ((assignmentProblem? symbols k).map Finding.diagnostic) := by
  rw [assignmentProblem?_eq]
  cases hs : assigned? k.text with
  | none =>
    refine ⟨iff_of_false Bool.false_ne_true ?_, fun d hd => nomatch hd⟩
    rintro ⟨s, h⟩
    rw [h.assigned?_eq] at hs
    exact Option.some_ne_none s hs
  | some s =>
    rw [Option.bind_some]
    split
    · next hc =>
      refine ⟨iff_of_false Bool.false_ne_true ?_, fun d hd => nomatch hd⟩
      rintro ⟨t, h⟩
      obtain rfl : s = t := Option.some.inj (hs.symm.trans h.assigned?_eq)
      exact (assignsUndeclared_iff hs).mp h hc
    · next hc =>
      have h : AssignsUndeclared symbols k.text s := (assignsUndeclared_iff hs).mpr hc
      refine ⟨iff_of_true rfl ⟨s, h⟩, fun d hd => ?_⟩
      obtain rfl := Option.some.inj hd
      exact ⟨s, h, rfl, rfl, rfl, rfl⟩

theorem lineDiagnostics_problemsOnLine (symbols : SymbolTable) (k : NumberedLine) :
    LineDiagnostics symbols k ((problemsOnLine symbols k).map Finding.diagnostic) := by
  refine ⟨_, _, _, _, ?_, braceProblem_reported k, parenProblem_reported k,
    functionProblem_reported k, assignmentProblem_reported symbols k⟩
  simp only [problemsOnLine, List.map_append, Option.toList_map]

/-! ## the whole document -/

theorem rule_of_unusedProblem? {s : Symbol} {f : Finding} (h : unusedProblem? s = some f) :
    f.diagnostic.rule? = some "unused-symbol" := by
  unfold unusedProblem? at h
  split at h
  · exact nomatch h
  · obtain rfl := Option.some.inj h
    rfl

/-- **The diagnostics of a document.**  First come those of the code lines, in the order of the
lines: on each line of every rule at most one, exactly if the line breaks the rule.  All that follow
are about unused symbols. -/
theorem findings_spec (lines : List Line) :
    ∃ (perLine : List (List Diagnostic)) (unused : List Diagnostic),
      (findings lines (indexSymbols lines)).map Finding.diagnostic = perLine.flatten ++ unused ∧
      List.Forall₂ (LineDiagnostics (indexSymbols lines)) (codeLines lines) perLine ∧
      (codeLines lines).Pairwise (fun j k => j.number < k.number) ∧
      ∀ d ∈ unused, d.rule? = some "unused-symbol" := by
  refine ⟨(codeLines lines).map fun k =>
      (problemsOnLine (indexSymbols lines) k).map Finding.diagnostic,
    ((indexSymbols lines).symbols.filterMap unusedProblem?).map Finding.diagnostic, ?_, ?_,
    codeLines_pairwise lines, ?_⟩
  · rw [findings, List.map_append, List.map_flatMap, List.flatMap_def]
  · exact List.forall₂_map_right_iff.mpr (List.forall₂_same.mpr fun k _ =>
      lineDiagnostics_problemsOnLine (indexSymbols lines) k)
  · intro d hd
    obtain ⟨f, hf, rfl⟩ := List.mem_map.mp hd
    obtain ⟨s, -, hs⟩ := List.mem_filterMap.mp hf
    exact rule_of_unusedProblem? hs

end LanguageService
