import Mathlib.Data.Finset.Card
import Mathlib.Data.List.Nodup
import LanguageService.Editor.Lens
import LanguageService.Proofs.Editor.IncomingCalls
import LanguageService.Proofs.Source.CodeLines

/-!
# Reference counts and incoming calls

A lens counts the lines that call its function, comments included; the callers of a function are
looked for on code lines only, and their calls are grouped by caller.  What a lens counts is made of
the lines of these calls and of the lines without code that hold call syntax.

* `calledLines lines name`        the lines that hold call syntax of a name
* `incomingLines lines name`      those on which a caller of the name has a range
* `skippedCallLines lines name`   those that carry no code
* `callingLines_eq_card`          a lens counts lines, none of them twice
* `incomingLines_eq_filter`       callers are found on exactly the code lines among them
* `referenceLenses_spec`          the lenses of a document and their counts
-/

namespace LanguageService

/-! ## lines with call syntax -/

/-- the lines that hold call syntax of a name -/
def calledLines (lines : List Line) (name : String) : Finset Nat :=
  (Finset.range lines.length).filter fun n => lines[n]?.any (Shape.call name).occurs = true

/-- the lines on which some caller of a name has a range -/
def incomingLines (lines : List Line) (name : String) : Finset Nat :=
  (((incomingCalls lines name).flatMap CallGroup.ranges).map fun r => r.start.line).toFinset

/-- the lines without code that hold call syntax of a name -/
def skippedCallLines (lines : List Line) (name : String) : Finset Nat :=
  (calledLines lines name).filter fun n => isCodeLine lines n = false

section
variable {lines : List Line} {name : String} {n : Nat}

theorem mem_calledLines_iff : n ∈ calledLines lines name ↔
    ∃ k ∈ numberLines lines, (Shape.call name).occurs k.text = true ∧ k.number = n := by
  rw [calledLines, Finset.mem_filter, Finset.mem_range]
  constructor
  · intro h
    obtain ⟨hlt, hcalls⟩ := h
    rw [List.getElem?_eq_getElem hlt] at hcalls
    exact ⟨⟨n, lines[n]⟩, mem_numberLines_iff.mpr (List.getElem?_eq_getElem hlt), hcalls, rfl⟩
  · intro h
    obtain ⟨k, hk, hcalls, rfl⟩ := h
    have hline := mem_numberLines_iff.mp hk
    rw [hline]
    exact ⟨(List.getElem?_eq_some_iff.mp hline).1, hcalls⟩

/-! ## lines with incoming calls -/

theorem mem_codeLines_iff {k : NumberedLine} :
    k ∈ codeLines lines ↔ k ∈ numberLines lines ∧ isCodeLine lines k.number = true := by
  rw [codeLines_eq_filter, List.mem_filter]

theorem mem_incomingLines_iff : n ∈ incomingLines lines name ↔
    ∃ k ∈ codeLines lines, (Shape.call name).occurs k.text = true ∧ k.number = n := by
  rw [incomingLines, List.mem_toFinset, List.mem_map]
  simp only [(ranges_incomingCalls_perm lines name).mem_iff, callSites, List.mem_flatMap]
  constructor
  · intro h
    obtain ⟨r, ⟨k, hk, hr⟩, rfl⟩ := h
    obtain ⟨m, hm, rfl⟩ := List.mem_map.mp hr
    exact ⟨k, hk, (Pattern.exists_mem_all_iff (Pattern.neverEmpty_call name)).mp ⟨m, hm⟩, rfl⟩
  · intro h
    obtain ⟨k, hk, hcalls, rfl⟩ := h
    obtain ⟨m, hm⟩ := (Pattern.exists_mem_all_iff (Pattern.neverEmpty_call name)).mpr hcalls
    exact ⟨_, ⟨k, hk, List.mem_map_of_mem hm⟩, rfl⟩

theorem incomingLines_eq_filter : incomingLines lines name =
    (calledLines lines name).filter fun n => ¬ isCodeLine lines n = false := by
  ext n
  rw [mem_incomingLines_iff, Finset.mem_filter, mem_calledLines_iff, Bool.not_eq_false]
  constructor
  · intro h
    obtain ⟨k, hk, hcalls, rfl⟩ := h
    obtain ⟨hmem, hcode⟩ := mem_codeLines_iff.mp hk
    exact ⟨⟨k, hmem, hcalls, rfl⟩, hcode⟩
  · intro h
    obtain ⟨⟨k, hmem, hcalls, rfl⟩, hcode⟩ := h
    exact ⟨k, mem_codeLines_iff.mpr ⟨hmem, hcode⟩, hcalls, rfl⟩

end

/-! ## the counts -/

/-- a lens counts the lines with call syntax, each of them once -/
theorem callingLines_eq_card (lines : List Line) (name : String) (d : Nat) :
    callingLines lines name d = ((calledLines lines name).erase d).card := by
  have hnodup : (((numberLines lines).filter fun l =>
      l.number != d && (Shape.call name).occurs l.text).map NumberedLine.number).Nodup :=
    List.pairwise_map.mpr
      (((numberFrom_pairwise lines 0).sublist List.filter_sublist).imp Nat.ne_of_lt)
  rw [callingLines, ← List.length_map NumberedLine.number, ← List.toFinset_card_of_nodup hnodup]
  congr 1
  ext n
  rw [List.mem_toFinset, List.mem_map, Finset.mem_erase, mem_calledLines_iff]
  simp only [List.mem_filter, Bool.and_eq_true, bne_iff_ne]
  constructor
  · intro h
    obtain ⟨k, ⟨hk, hne, hcalls⟩, rfl⟩ := h
    exact ⟨hne, k, hk, hcalls, rfl⟩
  · intro h
    obtain ⟨hne, k, hk, hcalls, rfl⟩ := h
    exact ⟨k, ⟨hk, hne, hcalls⟩, rfl⟩

/-- A line that a lens counts has incoming calls, or it carries no code. -/
theorem callingLines_eq_add (lines : List Line) (name : String) (d : Nat) :
    callingLines lines name d =
      ((incomingLines lines name).erase d).card + ((skippedCallLines lines name).erase d).card := by
  rw [callingLines_eq_card, incomingLines_eq_filter, skippedCallLines, ← Finset.filter_erase,
    ← Finset.filter_erase, Nat.add_comm]
  exact (Finset.card_filter_add_card_filter_not _).symm

/-! ## lenses -/

/-- a lens is that of the function which the general pattern finds on its line -/
theorem referenceLens?_eq (lines : List Line) (k : NumberedLine) :
    referenceLens? lines k = (FunctionSite.onLine? Shape.anyFunction k).map fun f =>
      ⟨f.nameRange, callingLines lines f.name f.line⟩ := by
  rw [FunctionSite.onLine?, Option.map_map]
  rfl

theorem exists_of_mem_referenceLenses {lines : List Line} {lens : ReferenceLens}
    (h : lens ∈ referenceLenses lines) : ∃ f : FunctionSite, f.DeclaredIn lines ∧
      lens = ⟨f.nameRange, callingLines lines f.name f.line⟩ := by
  obtain ⟨k, hk, hlens⟩ := List.mem_filterMap.mp h
  rw [referenceLens?_eq] at hlens
  obtain ⟨f, hf, rfl⟩ := Option.map_eq_some_iff.mp hlens
  exact ⟨f, ⟨k, hk, hf⟩, rfl⟩

theorem mem_referenceLenses {lines : List Line} {f : FunctionSite} (h : f.DeclaredIn lines) :
    ⟨f.nameRange, callingLines lines f.name f.line⟩ ∈ referenceLenses lines := by
  obtain ⟨k, hk, hf⟩ := h
  refine List.mem_filterMap.mpr ⟨k, hk, ?_⟩
  rw [referenceLens?_eq, hf]
  rfl

theorem line_of_referenceLens? {lines : List Line} {k : NumberedLine} {lens : ReferenceLens}
    (h : referenceLens? lines k = some lens) : lens.range.start.line = k.number := by
  obtain ⟨m, -, rfl⟩ := Option.map_eq_some_iff.mp h
  rfl

theorem FunctionSite.DeclaredIn.line_nameRange {lines : List Line} {f : FunctionSite}
    (h : f.DeclaredIn lines) : f.nameRange.start.line = f.line := by
  obtain ⟨k, -, hf⟩ := h
  obtain ⟨m, -, rfl⟩ := Option.map_eq_some_iff.mp hf
  rfl

theorem referenceLenses_pairwise (lines : List Line) :
    (referenceLenses lines).Pairwise fun r r' => r.range.start.line < r'.range.start.line := by
  refine List.pairwise_filterMap.mpr ((numberFrom_pairwise lines 0).imp fun hlt r hr r' hr' => ?_)
  rw [line_of_referenceLens? hr, line_of_referenceLens? hr']
  exact hlt

/-- **Lenses and incoming calls.**  The lenses stand in the order of the lines, one on each line
that declares a function.  Each stands at the name of the function declared there, and the count in
its title is that of the other lines on which a caller of the function has a range and of the other
lines without code that hold call syntax of it. -/
theorem referenceLenses_spec (lines : List Line) :
    (referenceLenses lines).Pairwise (fun r r' => r.range.start.line < r'.range.start.line) ∧
    (∀ n, (∃ lens ∈ referenceLenses lines, lens.range.start.line = n) ↔
      ∃ name, DeclaredOn lines name n) ∧
    ∀ lens ∈ referenceLenses lines, ∃ f : FunctionSite, f.DeclaredIn lines ∧
      lens.range = f.nameRange ∧ lens.range.start.line = f.line ∧
      lens.count = ((incomingLines lines f.name).erase f.line).card +
        ((skippedCallLines lines f.name).erase f.line).card ∧
      lens.title = toString lens.count ++ " reference" ++ if lens.count = 1 then "" else "s" := by
  refine ⟨referenceLenses_pairwise lines, fun n => ?_, fun lens hlens => ?_⟩
  · constructor
    · intro h
      obtain ⟨lens, hlens, rfl⟩ := h
      obtain ⟨f, hf, rfl⟩ := exists_of_mem_referenceLenses hlens
      refine ⟨f.name, ?_⟩
      show DeclaredOn lines f.name f.nameRange.start.line
      rw [hf.line_nameRange]
      exact hf.declaredOn
    · intro h
      obtain ⟨name, hname⟩ := h
      obtain ⟨f, hf, rfl⟩ := hname.exists_declaredIn
      exact ⟨_, mem_referenceLenses hf, hf.line_nameRange⟩
  · obtain ⟨f, hf, rfl⟩ := exists_of_mem_referenceLenses hlens
    exact ⟨f, hf, rfl, hf.line_nameRange, callingLines_eq_add lines f.name f.line, rfl⟩

/-- Two calls on one line count once, and a call in a comment counts too. -/
example : (referenceLenses ["let f = func() { }".toList, "f() + f()".toList, "// f()".toList]).map
    ReferenceLens.title = ["2 references"] := by decide +kernel

end LanguageService
