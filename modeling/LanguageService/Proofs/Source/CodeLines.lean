import LanguageService.Proofs.Source.SymbolTable

/-!
# Code lines among the lines of a document

Whether a line carries code depends on the lines above it only.  So the code lines are those
numbered lines that pass a test, and lines behind the end of a document do not change them.

* `isCodeLine lines n`      does line `n` carry code?
* `codeLines_eq_filter`     the code lines are the lines that do
* `codeLines_append`        the code lines of a longer document
* `codeLines_append_above`  none of them is new above the old end
-/

namespace LanguageService

/-! ## code lines by a test -/

/-- does the line with this number carry code? -/
def isCodeLine (lines : List Line) (n : Nat) : Bool :=
  (codeLines lines).any fun k => k.number == n

/-- where no two members share a key, a part of a list is found again by its keys -/
theorem eq_filter_of_sublist {α κ : Type} [BEq κ] [LawfulBEq κ] {key : α → κ} {l m : List α}
    (h : l.Sublist m) (hm : m.Pairwise fun a b => key a ≠ key b) :
    l = m.filter fun a => l.any fun b => key b == key a := by
  induction h with
  | slnil => rfl
  | @cons l m a h ih =>
    obtain ⟨ha, hm⟩ := List.pairwise_cons.mp hm
    have hout : (l.any fun b => key b == key a) = false := by
      apply List.any_eq_false.mpr
      intro b hb heq
      exact ha b (h.subset hb) (beq_iff_eq.mp heq).symm
    rw [List.filter_cons_of_neg (by rw [hout]; exact Bool.false_ne_true)]
    exact ih hm
  | @cons_cons l m a h ih =>
    obtain ⟨ha, hm⟩ := List.pairwise_cons.mp hm
    rw [List.filter_cons_of_pos (by rw [List.any_cons, beq_self_eq_true, Bool.true_or])]
    congr 1
    refine (ih hm).trans (List.filter_congr fun b hb => ?_)
    rw [List.any_cons, beq_eq_false_iff_ne.mpr (ha b hb), Bool.false_or]

theorem codeLines_eq_filter (lines : List Line) :
    codeLines lines = (numberLines lines).filter fun k => isCodeLine lines k.number :=
  eq_filter_of_sublist (sublist_codeLines lines)
    ((numberFrom_pairwise lines 0).imp fun h => Nat.ne_of_lt h)

theorem flatMap_filter {α β : Type} (p : α → Bool) (f : α → List β) (l : List α) :
    (l.filter p).flatMap f = l.flatMap fun a => if p a then f a else [] := by
  induction l with
  | nil => rfl
  | cons a l ih =>
    rw [List.flatMap_cons, ← ih, List.filter_cons]
    cases p a with
    | true => exact List.flatMap_cons
    | false => rfl

/-- a pass over the code lines is a pass over all lines that leaves out the others -/
theorem flatMap_codeLines {β : Type} (lines : List Line) (f : NumberedLine → List β) :
    (codeLines lines).flatMap f = (numberLines lines).flatMap fun k =>
      if isCodeLine lines k.number then f k else [] := by
  rw [← flatMap_filter, ← codeLines_eq_filter]

/-! ## the code lines of a longer document -/

theorem numberFrom_append (lines more : List Line) (n : Nat) :
    numberFrom n (lines ++ more) = numberFrom n lines ++ numberFrom (n + lines.length) more := by
  induction lines generalizing n with
  | nil => rfl
  | cons l lines ih =>
    rw [List.cons_append, numberFrom, numberFrom, ih, List.length_cons, Nat.add_right_comm,
      Nat.add_assoc, List.cons_append]

/-- does a block comment reach what follows the lines? -/
def commentBehind (inComment : Bool) : List NumberedLine → Bool
  | [] => inComment
  | l :: ls =>
    if inComment then commentBehind (!occursIn closesBlock (trim l.text)) ls
    else commentBehind (LineRole.of l.text == .opensComment) ls

theorem commentBehind_append (ls ls' : List NumberedLine) (inComment : Bool) :
    commentBehind inComment (ls ++ ls') = commentBehind (commentBehind inComment ls) ls' := by
  induction ls generalizing inComment with
  | nil => rfl
  | cons l ls ih =>
    rw [List.cons_append, commentBehind, commentBehind, ih, ih, ← apply_ite (commentBehind · ls')]

theorem codeLinesFrom_append (ls ls' : List NumberedLine) (inComment : Bool) :
    codeLinesFrom inComment (ls ++ ls') =
      codeLinesFrom inComment ls ++ codeLinesFrom (commentBehind inComment ls) ls' := by
  induction ls generalizing inComment with
  | nil => rfl
  | cons l ls ih =>
    rw [List.cons_append, codeLinesFrom, codeLinesFrom, commentBehind]
    cases inComment with
    | true => exact ih _
    | false =>
      cases h : LineRole.of l.text with
      | skipped => exact ih false
      | opensComment => exact ih true
      | code => exact congrArg (l :: ·) (ih false)

theorem number_lt_of_mem_codeLines {lines : List Line} {k : NumberedLine}
    (hk : k ∈ codeLines lines) : k.number < lines.length := by
  obtain ⟨h, -⟩ := List.getElem?_eq_some_iff.mp (text_of_mem_codeLines hk)
  exact h

/-- the code lines of a longer document: those that it had, and some of the new lines -/
theorem codeLines_append (lines more : List Line) : ∃ added,
    codeLines (lines ++ more) = codeLines lines ++ added ∧
      ∀ k ∈ added, lines.length ≤ k.number := by
  refine ⟨codeLinesFrom (commentBehind false (numberLines lines)) (numberFrom lines.length more),
    ?_, fun k hk => ?_⟩
  · rw [codeLines, numberLines, numberFrom_append, Nat.zero_add, codeLinesFrom_append]
    rfl
  · exact le_number_of_mem_numberFrom more _ k ((codeLinesFrom_sublist _ _).subset hk)

/-- above its own end a longer document has the code lines that it had -/
theorem codeLines_append_above (lines more : List Line) :
    (codeLines (lines ++ more)).filter (fun k => decide (k.number < lines.length)) =
      codeLines lines := by
  obtain ⟨added, hcode, hadded⟩ := codeLines_append lines more
  rw [hcode, List.filter_append]
  have hold : (codeLines lines).filter (fun k => decide (k.number < lines.length)) =
      codeLines lines := by
    apply List.filter_eq_self.mpr
    intro k hk
    exact decide_eq_true (number_lt_of_mem_codeLines hk)
  have hnew : added.filter (fun k => decide (k.number < lines.length)) = [] := by
    apply List.filter_eq_nil_iff.mpr
    intro k hk
    have := hadded k hk
    simp only [decide_eq_true_eq]
    omega
  rw [hold, hnew, List.append_nil]

end LanguageService
