import Mathlib.Data.List.Basic
import LanguageService.Proofs.Source.UnusedSymbols
import LanguageService.Source.Analysis

/-!
# Hints in the order of the declarations

A table that is kept by name is put in the order of the declarations before its unused symbols are
reported.  As no two symbols are declared on one line, this order has no ties.

* `SymbolTable.inDeclarationOrder`    the symbols by name, sorted by the places of their names
* `inDeclarationOrder_indexSymbols`   this is the order in which they are declared
* `map_filterMap_unusedProblem?`      the reports of the unused symbols are their hints
* `unusedHints_spec`                  which hints a text has, and in which order
-/

namespace LanguageService

/-- the name of `s` does not begin behind that of `t` -/
def Symbol.declaredBefore (s t : Symbol) : Bool :=
  s.line < t.line ||
    (s.line == t.line && s.nameRange.start.character ≤ t.nameRange.start.character)

theorem Symbol.declaredBefore_iff {s t : Symbol} : s.declaredBefore t = true ↔ s.line < t.line ∨
    s.line = t.line ∧ s.nameRange.start.character ≤ t.nameRange.start.character := by
  rw [declaredBefore, Bool.or_eq_true, Bool.and_eq_true, decide_eq_true_eq, decide_eq_true_eq,
    beq_iff_eq]

/-- the symbols, listed by name and then sorted by the places of their names -/
def SymbolTable.inDeclarationOrder (t : SymbolTable) : List Symbol :=
  t.byName.mergeSort Symbol.declaredBefore

theorem SymbolTable.inDeclarationOrder_perm (t : SymbolTable) :
    t.inDeclarationOrder.Perm t.byName :=
  List.mergeSort_perm _ _

theorem SymbolTable.byName_perm (t : SymbolTable) : t.byName.Perm t.symbols :=
  List.mergeSort_perm _ _

/-- sorting the symbols by name and then by place leads back to the order of the declarations -/
theorem inDeclarationOrder_indexSymbols (lines : List Line) :
    (indexSymbols lines).inDeclarationOrder = (indexSymbols lines).symbols := by
  have hperm : (indexSymbols lines).inDeclarationOrder.Perm (indexSymbols lines).symbols :=
    (SymbolTable.inDeclarationOrder_perm _).trans (SymbolTable.byName_perm _)
  have hsorted : (indexSymbols lines).inDeclarationOrder.Pairwise
      fun s t => s.declaredBefore t = true := by
    refine List.pairwise_mergeSort ?_ ?_ _
    · intro a b c hab hbc
      rw [Symbol.declaredBefore_iff] at hab hbc ⊢
      omega
    · intro a b
      rw [Bool.or_eq_true, Symbol.declaredBefore_iff, Symbol.declaredBefore_iff]
      omega
  have hdeclared : (indexSymbols lines).symbols.Pairwise fun s t => s.declaredBefore t = true :=
    (symbols_pairwise lines).imp fun h => Symbol.declaredBefore_iff.mpr (Or.inl h.2)
  -- where neither of two symbols comes before the other, they share a line
  refine List.Perm.eq_of_pairwise (fun s t hs ht hst hts => ?_) hsorted hdeclared hperm
  rw [Symbol.declaredBefore_iff] at hst hts
  exact eq_of_line_eq (hperm.subset hs) ht (by omega)

theorem map_filterMap_unusedProblem? {lines : List Line} {symbols : List Symbol}
    (hsub : symbols ⊆ (indexSymbols lines).symbols) :
    (symbols.filterMap unusedProblem?).map Finding.diagnostic =
      (symbols.filter fun s => s.kind ≠ .imported ∧ s.references = []).map Symbol.unusedHint := by
  induction symbols with
  | nil => rfl
  | cons s symbols ih =>
    obtain ⟨hs, hrest⟩ := List.cons_subset.mp hsub
    by_cases h : s.kind ≠ .imported ∧ s.references = []
    · rw [List.filterMap_cons_some ((unusedProblem?_eq_some_iff hs).mpr ⟨h.1, h.2, rfl⟩),
        List.filter_cons_of_pos (by simpa using h), List.map_cons, List.map_cons, ih hrest]
      rfl
    · have hnone : unusedProblem? s = none := by
        refine Option.eq_none_iff_forall_ne_some.mpr fun f hf => h ?_
        obtain ⟨hkind, hrefs, -⟩ := (unusedProblem?_eq_some_iff hs).mp hf
        exact ⟨hkind, hrefs⟩
      rw [List.filterMap_cons_none hnone, List.filter_cons_of_neg (by simpa using h), ih hrest]

theorem hints_pairwise (lines : List Line) :
    (((indexSymbols lines).symbols.filter fun s =>
      s.kind ≠ .imported ∧ s.references = []).map Symbol.unusedHint).Pairwise
      fun d e => d.range.start.line < e.range.start.line := by
  refine List.pairwise_map.mpr (List.Pairwise.filter _ ?_)
  refine (symbols_pairwise lines).imp_of_mem fun {s t} hs ht hst => ?_
  show s.nameRange.start.line < t.nameRange.start.line
  rw [line_nameRange hs, line_nameRange ht]
  exact hst.2

theorem exists_hint_iff {lines : List Line} {s : Symbol}
    (hs : s ∈ (indexSymbols lines).symbols) :
    (∃ d ∈ diagnose lines, d.rule? = some "unused-symbol" ∧ d.range = s.nameRange) ↔
      s.references = [] ∧ s.kind ≠ .imported := by
  rw [and_comm, ← unusedHint_mem_iff hs]
  constructor
  · rintro ⟨d, hd, hrule, hrange⟩
    obtain ⟨t, ht, -, -, rfl⟩ := (unused_diagnostic_iff lines d).mp ⟨hd, hrule⟩
    rwa [← eq_of_nameRange_eq ht hs hrange]
  · exact fun h => ⟨s.unusedHint, h, rfl, rfl⟩

/-- **The hints on unused symbols.**  They come behind all other diagnostics of a text, one for each
symbol that is no import and has no reference, in the order of the declarations and on lines further
and further down.  So a symbol has a hint at its range exactly if it is no import and has no
reference, and no two hints have one range. -/
theorem unusedHints_spec (text : Line) :
    ∃ others hints : List Diagnostic,
      (Analysis.of text).diagnostics = others ++ hints ∧
      (∀ d ∈ others, d.rule? ≠ some "unused-symbol") ∧
      (Analysis.of text).symbols.inDeclarationOrder.Perm (Analysis.of text).symbols.byName ∧
      List.Forall₂ (fun s d => Reports "unused-symbol" .hint s.nameRange
          (some (.object [("symbol", .string s.name), ("kind", .string s.kind.label)])) d)
        ((Analysis.of text).symbols.inDeclarationOrder.filter fun s =>
          s.kind ≠ .imported ∧ s.references = []) hints ∧
      hints.Pairwise (fun d e => d.range.start.line < e.range.start.line) ∧
      (∀ s ∈ (Analysis.of text).symbols.byName,
        (∃ d ∈ (Analysis.of text).diagnostics, d.rule? = some "unused-symbol" ∧
          d.range = s.nameRange) ↔ s.references = [] ∧ s.kind ≠ .imported) ∧
      hints.Pairwise fun d e => d.range ≠ e.range := by
  refine ⟨((codeLines (splitLines text)).flatMap
      (problemsOnLine (indexSymbols (splitLines text)))).map Finding.diagnostic,
    ((indexSymbols (splitLines text)).symbols.filter fun s =>
      s.kind ≠ .imported ∧ s.references = []).map Symbol.unusedHint, ?_, ?_,
    SymbolTable.inDeclarationOrder_perm _, ?_, hints_pairwise _, fun s hs => ?_,
    (hints_pairwise _).imp fun h heq => absurd h (by rw [heq]; exact Nat.lt_irrefl _)⟩
  · show (findings _ _).map Finding.diagnostic = _
    rw [findings, List.map_append, map_filterMap_unusedProblem? (List.Subset.refl _)]
  · intro d hd
    obtain ⟨f, hf, rfl⟩ := List.mem_map.mp hd
    obtain ⟨k, -, hf⟩ := List.mem_flatMap.mp hf
    exact fun h => (line_of_mem_problemsOnLine hf).1 (Option.some.inj h)
  · rw [show (Analysis.of text).symbols = indexSymbols (splitLines text) from rfl,
      inDeclarationOrder_indexSymbols]
    exact List.forall₂_map_right_iff.mpr (List.forall₂_same.mpr fun s _ => ⟨rfl, rfl, rfl, rfl⟩)
  · exact exists_hint_iff ((SymbolTable.byName_perm _).subset hs)

end LanguageService
