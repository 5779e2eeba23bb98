import Mathlib.Data.List.Flatten
import LanguageService.Proofs.Source.CodeLines
import LanguageService.Proofs.Source.UnusedSymbols

/-!
# Appending lines to a document

Lines behind the end of a document add code lines, symbols and references behind those that it has.
A line keeps the problems of its own text.  What depends on the whole table can only disappear: an
assignment is right once its name is declared, a symbol is used once a word refers to it.

* `Symbol.ExtendedBy`       a symbol and what further lines make of it
* `exists_extended`         every symbol stays, with its references in front
* `reportsAbove_diagnose`   the reports on the first lines, code line by code line
* `unusedHint_of_append`    a hint that was not there is not added
* `indexing_append`         all of this together
-/

namespace LanguageService

/-! ## symbols -/

/-- What further lines make of a symbol: it is the same but for references behind its own. -/
structure Symbol.ExtendedBy (s t : Symbol) : Prop where
  name : t.name = s.name
  kind : t.kind = s.kind
  line : t.line = s.line
  nameRange : t.nameRange = s.nameRange
  references : s.references <+: t.references

theorem firstOfEachName_extends (l l' : List Symbol) :
    firstOfEachName l <+: firstOfEachName (l ++ l') := by
  induction l with
  | nil => exact List.nil_prefix
  | cons s l ih =>
    rw [List.cons_append, firstOfEachName, firstOfEachName]
    exact (List.prefix_cons_inj s).mpr (ih.filter _)

theorem mentions_append (code code' : List NumberedLine) :
    mentions (code ++ code') = mentions code ++ mentions code' :=
  List.flatMap_append

/-- every symbol of a document stays when lines are appended -/
theorem exists_extended {lines : List Line} (more : List Line) {s : Symbol}
    (hs : s ∈ (indexSymbols lines).symbols) :
    ∃ t ∈ (indexSymbols (lines ++ more)).symbols, s.ExtendedBy t := by
  rw [symbols_indexSymbols] at hs ⊢
  obtain ⟨u, hu, rfl⟩ := List.mem_map.mp hs
  obtain ⟨added, hcode, -⟩ := codeLines_append lines more
  have hstays : u ∈ firstOfEachName
      ((codeLines (lines ++ more)).filterMap Symbol.declaredOn?) := by
    rw [hcode, List.filterMap_append]
    exact (firstOfEachName_extends _ _).subset hu
  refine ⟨_, List.mem_map_of_mem hstays, rfl, rfl, rfl, rfl, ?_⟩
  show _ <+: ((mentions (codeLines (lines ++ more))).filter fun m => m.refersTo u).map Mention.line
  rw [hcode, mentions_append, List.filter_append, List.map_append]
  exact List.prefix_append _ _

theorem contains_append {lines : List Line} (more : List Line) {name : String}
    (h : (indexSymbols lines).contains name = true) :
    (indexSymbols (lines ++ more)).contains name = true := by
  obtain ⟨s, hs, hname⟩ := List.any_eq_true.mp h
  obtain ⟨t, ht, hext⟩ := exists_extended more hs
  apply List.any_eq_true.mpr
  exact ⟨t, ht, by rw [hext.name]; exact hname⟩

/-! ## reports on the first lines -/

/-- the reports of some rules that begin on the first `n` lines, in their order -/
def reportsAbove (rules : List String) (n : Nat) (ds : List Diagnostic) : List Diagnostic :=
  ds.filter fun d => d.rule?.any rules.contains && decide (d.range.start.line < n)

/-- The reports on the first lines are those of the code lines among them, as long as no rule asks
for unused symbols. -/
theorem reportsAbove_diagnose {rules : List String} (hrules : "unused-symbol" ∉ rules)
    (lines : List Line) (n : Nat) : reportsAbove rules n (diagnose lines) =
      ((codeLines lines).filter fun k => decide (k.number < n)).flatMap fun k =>
        ((problemsOnLine (indexSymbols lines) k).filter fun f =>
          rules.contains f.problem.rule).map Finding.diagnostic := by
  have hunused : ((indexSymbols lines).symbols.filterMap unusedProblem?).filter (fun f =>
      rules.contains f.problem.rule && decide (f.range.start.line < n)) = [] := by
    apply List.filter_eq_nil_iff.mpr
    intro f hf h
    obtain ⟨s, -, hs⟩ := List.mem_filterMap.mp hf
    have hrule := rule_of_unusedProblem? hs
    rw [show f.problem.rule = "unused-symbol" from Option.some.inj hrule] at h
    exact hrules (List.contains_iff_mem.mp (Bool.and_eq_true_iff.mp h).1)
  rw [reportsAbove, diagnose, List.filter_map]
  show ((findings lines (indexSymbols lines)).filter fun f =>
    rules.contains f.problem.rule && decide (f.range.start.line < n)).map Finding.diagnostic = _
  rw [findings, List.filter_append, hunused, List.append_nil, List.filter_flatMap,
    List.map_flatMap, flatMap_filter]
  apply List.flatMap_congr
  intro k _
  by_cases hn : k.number < n
  · rw [decide_eq_true hn, if_pos rfl]
    congr 1
    apply List.filter_congr
    intro f hf
    rw [(line_of_mem_problemsOnLine hf).2, decide_eq_true hn, Bool.and_true]
  · rw [decide_eq_false hn, if_neg Bool.false_ne_true, List.map_eq_nil_iff]
    apply List.filter_eq_nil_iff.mpr
    intro f hf
    rw [(line_of_mem_problemsOnLine hf).2, decide_eq_false hn, Bool.and_false]
    exact Bool.false_ne_true

theorem filter_syntaxRules (symbols : SymbolTable) (k : NumberedLine) :
    ((problemsOnLine symbols k).filter fun f => syntaxRules.contains f.problem.rule) =
      syntaxProblems k := by
  have hsyntax : (syntaxProblems k).filter (fun f => syntaxRules.contains f.problem.rule) =
      syntaxProblems k := by
    apply List.filter_eq_self.mpr
    intro f hf
    exact List.contains_iff_mem.mpr (mem_syntaxProblems hf).1
  have hassign : (assignmentProblem? symbols k).toList.filter
      (fun f => syntaxRules.contains f.problem.rule) = [] := by
    apply List.filter_eq_nil_iff.mpr
    intro f hf
    rw [(mem_assignmentProblem? (Option.mem_toList.mp hf)).1]
    decide
  rw [problemsOnLine_eq, List.filter_append, hsyntax, hassign, List.append_nil]

theorem filter_missingLet (symbols : SymbolTable) (k : NumberedLine) :
    ((problemsOnLine symbols k).filter fun f => ["missing-let"].contains f.problem.rule) =
      (assignmentProblem? symbols k).toList := by
  have hsyntax : (syntaxProblems k).filter
      (fun f => ["missing-let"].contains f.problem.rule) = [] := by
    apply List.filter_eq_nil_iff.mpr
    intro f hf h
    have hrule : f.problem.rule = "missing-let" :=
      List.mem_singleton.mp (List.contains_iff_mem.mp h)
    have hmem := (mem_syntaxProblems hf).1
    rw [hrule] at hmem
    exact absurd hmem (by decide)
  have hassign : (assignmentProblem? symbols k).toList.filter
      (fun f => ["missing-let"].contains f.problem.rule) =
      (assignmentProblem? symbols k).toList := by
    apply List.filter_eq_self.mpr
    intro f hf
    rw [(mem_assignmentProblem? (Option.mem_toList.mp hf)).1]
    decide
  rw [problemsOnLine_eq, List.filter_append, hsyntax, hassign, List.nil_append]

/-- a larger table excuses more assignments -/
theorem assignmentProblem?_sublist {symbols symbols' : SymbolTable} (k : NumberedLine)
    (h : ∀ name, symbols.contains name = true → symbols'.contains name = true) :
    (assignmentProblem? symbols' k).toList.Sublist (assignmentProblem? symbols k).toList := by
  unfold assignmentProblem?
  cases bareAssignment.first? k.text with
  | none => exact List.Sublist.refl _
  | some m =>
    simp only
    by_cases hin : symbols.contains ((m.group 1).text k.text) = true
    · rw [hin, h _ hin, Bool.or_true]
    · by_cases hin' : symbols'.contains ((m.group 1).text k.text) = true
      · rw [hin', Bool.or_true]
        exact List.nil_sublist _
      · rw [Bool.not_eq_true] at hin hin'
        rw [hin, hin']

/-! ## hints -/

/-- No symbol gets a hint from further lines. -/
theorem unusedHint_of_append {lines more : List Line} {t : Symbol}
    (ht : t ∈ (indexSymbols (lines ++ more)).symbols)
    (hhint : t.unusedHint ∈ diagnose (lines ++ more))
    (hold : (indexSymbols lines).contains t.name = true) : t.unusedHint ∈ diagnose lines := by
  obtain ⟨hkind, hrefs⟩ := (unusedHint_mem_iff ht).mp hhint
  obtain ⟨s, hs, hname⟩ := List.any_eq_true.mp hold
  obtain ⟨u, hu, hext⟩ := exists_extended more hs
  have hut : u = t := by
    have hfound := get?_of_mem_indexSymbols hu
    rw [hext.name, beq_iff_eq.mp hname, get?_of_mem_indexSymbols ht] at hfound
    exact (Option.some.inj hfound).symm
  subst hut
  have hsame : u.unusedHint = s.unusedHint := by
    rw [Symbol.unusedHint, Symbol.unusedHint, hext.name, hext.kind, hext.nameRange]
  have hnone : s.references = [] := by
    have hprefix := hext.references
    rw [hrefs] at hprefix
    exact List.prefix_nil.mp hprefix
  rw [hsame, unusedHint_mem_iff hs]
  exact ⟨by rw [← hext.kind]; exact hkind, hnone⟩

/-- **Appending lines.**  Every symbol of a document is found in the longer one, with its kind, its
place and its references in front.  On the lines of the document the rules about the text of a line
report what they reported, and the rule about assignments reports nothing new.  Every hint of the
longer document is on one of its symbols, and if the document declares it the hint was there. -/
theorem indexing_append (lines more : List Line) :
    (∀ s ∈ (indexSymbols lines).symbols, ∃ t,
      (indexSymbols (lines ++ more)).get? s.name = some t ∧ s.ExtendedBy t) ∧
    reportsAbove syntaxRules lines.length (diagnose (lines ++ more)) =
      reportsAbove syntaxRules lines.length (diagnose lines) ∧
    (reportsAbove ["missing-let"] lines.length (diagnose (lines ++ more))).Sublist
      (reportsAbove ["missing-let"] lines.length (diagnose lines)) ∧
    ∀ d ∈ diagnose (lines ++ more), d.rule? = some "unused-symbol" →
      ∃ t ∈ (indexSymbols (lines ++ more)).symbols, d = t.unusedHint ∧
        ((indexSymbols lines).contains t.name = true → d ∈ diagnose lines) := by
  have hown := codeLines_append_above lines []
  rw [List.append_nil] at hown
  refine ⟨fun s hs => ?_, ?_, ?_, fun d hd hrule => ?_⟩
  · obtain ⟨t, ht, hext⟩ := exists_extended more hs
    refine ⟨t, ?_, hext⟩
    rw [← hext.name]
    exact get?_of_mem_indexSymbols ht
  · have hrules : "unused-symbol" ∉ syntaxRules := by decide
    rw [reportsAbove_diagnose hrules, reportsAbove_diagnose hrules, codeLines_append_above, hown]
    simp only [filter_syntaxRules]
  · have hrules : "unused-symbol" ∉ ["missing-let"] := by decide
    rw [reportsAbove_diagnose hrules, reportsAbove_diagnose hrules, codeLines_append_above, hown]
    apply List.Sublist.flatMap_right
    intro k _
    rw [filter_missingLet, filter_missingLet]
    exact (assignmentProblem?_sublist k fun name => contains_append more).map _
  · obtain ⟨t, ht, -, -, rfl⟩ := (unused_diagnostic_iff _ d).mp ⟨hd, hrule⟩
    exact ⟨t, ht, rfl, unusedHint_of_append ht hd⟩

end LanguageService
