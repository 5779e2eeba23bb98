import LanguageService.Proofs.Source.CodeLines
import LanguageService.Proofs.Source.UnusedSymbols

/-!
# Code lines under other numbers

The analysis uses the number of a code line to tell it from others and to report it, and for
nothing else.  So if two documents have the same code lines under other numbers, and no two numbers
fall together, then all that is known about one is known about the other under these numbers.

* `renumber f`           lines, ranges, symbols and diagnostics with every line number changed by `f`
* `shiftLine k`          the numbers of lines after a line is put in before line `k`
* `codeLinesFrom_renumber`   which lines carry code does not depend on their numbers
* `codeLines_around`     code lines around one line of a document
* `codeLines_insert`     a line that is put in only moves them, if it opens and closes no comment
* `indexSymbols_renumber`, `diagnose_renumber`   symbols and diagnostics under other numbers
-/

namespace LanguageService

/-! ## other numbers -/

section
variable (f : Nat → Nat)

def NumberedLine.renumber (k : NumberedLine) : NumberedLine :=
  ⟨f k.number, k.text⟩

def Position.renumber (p : Position) : Position :=
  ⟨f p.line, p.character⟩

def Range.renumber (r : Range) : Range :=
  ⟨r.start.renumber f, r.stop.renumber f⟩

def Mention.renumber (m : Mention) : Mention :=
  { m with line := f m.line }

def Symbol.renumber (s : Symbol) : Symbol :=
  { s with
    line := f s.line
    nameRange := s.nameRange.renumber f
    references := s.references.map f }

def SymbolTable.renumber (t : SymbolTable) : SymbolTable :=
  ⟨t.symbols.map (Symbol.renumber f)⟩

def Finding.renumber (x : Finding) : Finding :=
  { x with range := x.range.renumber f }

/-- a diagnostic on other lines; those of this library name no line but by their range -/
def Diagnostic.renumber (d : Diagnostic) : Diagnostic :=
  { d with range := d.range.renumber f }

end

/-! ## code lines -/

/-- the number of a line after a line is put in before line `k` -/
def shiftLine (k n : Nat) : Nat :=
  if n < k then n else n + 1

theorem shiftLine_of_lt {k n : Nat} (h : n < k) : shiftLine k n = n := if_pos h

theorem shiftLine_of_le {k n : Nat} (h : k ≤ n) : shiftLine k n = n + 1 :=
  if_neg (Nat.not_lt.mpr h)

theorem shiftLine_lt_iff (k m n : Nat) : shiftLine k m < shiftLine k n ↔ m < n := by
  unfold shiftLine
  split
  · split <;> omega
  · split <;> omega

theorem shiftLine_injective (k : Nat) : Function.Injective (shiftLine k) := by
  intro m n h
  have hmn := shiftLine_lt_iff k m n
  have hnm := shiftLine_lt_iff k n m
  omega

theorem shiftLine_ne (k n : Nat) : shiftLine k n ≠ k := by
  unfold shiftLine
  split <;> omega

theorem renumber_numberFrom_above {k : Nat} (lines : List Line) (n : Nat)
    (h : n + lines.length ≤ k) :
    (numberFrom n lines).map (NumberedLine.renumber (shiftLine k)) = numberFrom n lines := by
  induction lines generalizing n with
  | nil => rfl
  | cons l lines ih =>
    rw [List.length_cons] at h
    have hn : shiftLine k n = n := shiftLine_of_lt (by omega)
    rw [numberFrom, List.map_cons, ih (n + 1) (by omega), NumberedLine.renumber, hn]

theorem renumber_numberFrom_below {k : Nat} (lines : List Line) (n : Nat) (h : k ≤ n) :
    (numberFrom n lines).map (NumberedLine.renumber (shiftLine k)) = numberFrom (n + 1) lines := by
  induction lines generalizing n with
  | nil => rfl
  | cons l lines ih =>
    rw [numberFrom, List.map_cons, ih (n + 1) (Nat.le_succ_of_le h), NumberedLine.renumber,
      shiftLine_of_le h]
    rfl

/-- which lines carry code does not depend on their numbers -/
theorem codeLinesFrom_renumber (f : Nat → Nat) (inComment : Bool) (ls : List NumberedLine) :
    codeLinesFrom inComment (ls.map (NumberedLine.renumber f)) =
      (codeLinesFrom inComment ls).map (NumberedLine.renumber f) := by
  induction ls generalizing inComment with
  | nil => rfl
  | cons l ls ih =>
    rw [List.map_cons, codeLinesFrom, codeLinesFrom]
    cases inComment with
    | true => exact ih _
    | false =>
      have htext : (l.renumber f).text = l.text := rfl
      rw [htext]
      cases LineRole.of l.text with
      | skipped => exact ih false
      | opensComment => exact ih true
      | code => exact congrArg (l.renumber f :: ·) (ih false)

theorem codeLines_around (above below : List Line) (l : Line) :
    codeLines (above ++ l :: below) = codeLines above ++
      (codeLinesFrom (commentBehind false (numberLines above)) [⟨above.length, l⟩] ++
        codeLinesFrom (commentBehind (commentBehind false (numberLines above)) [⟨above.length, l⟩])
          (numberFrom (above.length + 1) below)) := by
  rw [codeLines, numberLines, numberFrom_append, codeLinesFrom_append, numberFrom, Nat.zero_add,
    ← List.singleton_append, codeLinesFrom_append]
  rfl

/-- a line of code opens no comment -/
theorem commentBehind_code {l : Line} (h : LineRole.of l = .code) (n : Nat) :
    commentBehind false [⟨n, l⟩] = false ∧ codeLinesFrom false [⟨n, l⟩] = [⟨n, l⟩] := by
  rw [commentBehind, codeLinesFrom, h]
  exact ⟨rfl, rfl⟩

/-- no comment reaches a code line -/
theorem role_of_mem_codeLines {above below : List Line} {l : Line}
    (h : ⟨above.length, l⟩ ∈ codeLines (above ++ l :: below)) :
    commentBehind false (numberLines above) = false ∧ LineRole.of l = .code := by
  rw [codeLines_around, List.mem_append, List.mem_append] at h
  rcases h with h | h | h
  · exact absurd (number_lt_of_mem_codeLines h) (Nat.lt_irrefl _)
  · cases hin : commentBehind false (numberLines above) with
    | true =>
      rw [hin] at h
      exact absurd h List.not_mem_nil
    | false =>
      rw [hin, codeLinesFrom] at h
      cases hrole : LineRole.of l with
      | skipped | opensComment =>
        rw [hrole] at h
        exact absurd h List.not_mem_nil
      | code => exact ⟨rfl, rfl⟩
  · have hle := le_number_of_mem_numberFrom _ _ _ ((codeLinesFrom_sublist _ _).subset h)
    exact absurd hle (Nat.not_succ_le_self _)

/-- a document around one of its code lines, with another line in its place -/
theorem exists_around_codeLine {lines : List Line} {k : NumberedLine} (hk : k ∈ codeLines lines)
    (l : Line) : ∃ above below, lines = above ++ k.text :: below ∧ above.length = k.number ∧
      lines.set k.number l = above ++ l :: below ∧
      commentBehind false (numberLines above) = false ∧ LineRole.of k.text = .code := by
  obtain ⟨hlt, hget⟩ := List.getElem?_eq_some_iff.mp (text_of_mem_codeLines hk)
  obtain ⟨above, below, hlines, hlen, hset⟩ := @List.exists_of_set _ k.number l _ hlt
  rw [hget] at hlines
  have hmem : ⟨above.length, k.text⟩ ∈ codeLines (above ++ k.text :: below) := by
    rw [hlen, ← hlines]
    exact hk
  exact ⟨above, below, hlines, hlen, hset, role_of_mem_codeLines hmem⟩

/-- A line that is put in only moves the code lines below it, if the search for comments goes on
behind it as it was before it. -/
theorem codeLines_insert {above : List Line} {l : Line} (below : List Line)
    (h : commentBehind (commentBehind false (numberLines above)) [⟨above.length, l⟩] =
      commentBehind false (numberLines above)) : ∃ moved,
    (codeLines (above ++ below)).map (NumberedLine.renumber (shiftLine above.length)) =
        codeLines above ++ moved ∧
      codeLines (above ++ l :: below) = codeLines above ++
        (codeLinesFrom (commentBehind false (numberLines above)) [⟨above.length, l⟩] ++ moved) := by
  refine ⟨codeLinesFrom (commentBehind false (numberLines above))
    (numberFrom (above.length + 1) below), ?_, ?_⟩
  · have habove : (numberLines above).map (NumberedLine.renumber (shiftLine above.length)) =
        numberLines above := renumber_numberFrom_above above 0 (by omega)
    rw [codeLines, numberLines, numberFrom_append, codeLinesFrom_append, List.map_append,
      ← codeLinesFrom_renumber, ← codeLinesFrom_renumber, Nat.zero_add,
      renumber_numberFrom_below below above.length (Nat.le_refl _)]
    change (numberFrom 0 above).map _ = numberFrom 0 above at habove
    rw [habove]
    rfl
  · rw [codeLines_around, h]

/-! ## symbols -/

theorem declaredOn?_renumber (f : Nat → Nat) (k : NumberedLine) :
    Symbol.declaredOn? (k.renumber f) = (Symbol.declaredOn? k).map (Symbol.renumber f) := by
  rw [Symbol.declaredOn?, Symbol.declaredOn?, Option.map_map]
  rfl

theorem mentions_renumber (f : Nat → Nat) (code : List NumberedLine) :
    mentions (code.map (NumberedLine.renumber f)) = (mentions code).map (Mention.renumber f) := by
  rw [mentions, mentions, List.flatMap_map, List.map_flatMap]
  refine List.flatMap_congr fun k _ => ?_
  rw [List.map_map]
  rfl

theorem firstOfEachName_map {g : Symbol → Symbol} (hg : ∀ s, (g s).name = s.name)
    (l : List Symbol) : firstOfEachName (l.map g) = (firstOfEachName l).map g := by
  induction l with
  | nil => rfl
  | cons s l ih =>
    have hname : ((fun t : Symbol => t.name != (g s).name) ∘ g) = fun t => t.name != s.name := by
      funext t
      rw [Function.comp_apply, hg, hg]
    rw [List.map_cons, firstOfEachName, ih, List.filter_map, hname, firstOfEachName, List.map_cons]

section
variable {f : Nat → Nat} (hf : Function.Injective f)
include hf

/-- the declared name is left out on the same line -/
theorem refersTo_renumber (m : Mention) (s : Symbol) :
    (m.renumber f).refersTo (s.renumber f) = m.refersTo s := by
  have hline : (f m.line == f s.line) = (m.line == s.line) := by
    rw [Bool.eq_iff_iff, beq_iff_eq, beq_iff_eq, hf.eq_iff]
  show (m.name == s.name && !isReserved m.name &&
    !(f m.line == f s.line && m.column == s.nameRange.start.character)) = _
  rw [hline]
  rfl

variable {lines lines' : List Line}
  (h : codeLines lines' = (codeLines lines).map (NumberedLine.renumber f))
include h

theorem references_renumber (s : Symbol) :
    ((mentions (codeLines lines')).filter fun m => m.refersTo (s.renumber f)).map Mention.line =
        (((mentions (codeLines lines)).filter fun m => m.refersTo s).map Mention.line).map f ∧
      ((mentions (codeLines lines')).any fun m => m.refersTo (s.renumber f)) =
        (mentions (codeLines lines)).any fun m => m.refersTo s := by
  have hrefers : (fun m : Mention => m.refersTo (s.renumber f)) ∘ Mention.renumber f =
      fun m => m.refersTo s := funext fun m => refersTo_renumber hf m s
  rw [h, mentions_renumber, List.filter_map, List.any_map, hrefers, List.map_map, List.map_map]
  exact ⟨rfl, rfl⟩

theorem indexSymbols_renumber : indexSymbols lines' = (indexSymbols lines).renumber f := by
  have hdeclared : (codeLines lines').filterMap Symbol.declaredOn? =
      ((codeLines lines).filterMap Symbol.declaredOn?).map (Symbol.renumber f) := by
    rw [h, List.filterMap_map, List.map_filterMap]
    exact congrArg (List.filterMap · _) (funext (declaredOn?_renumber f))
  show SymbolTable.mk (indexSymbols lines').symbols =
    SymbolTable.mk ((indexSymbols lines).symbols.map (Symbol.renumber f))
  rw [symbols_indexSymbols, symbols_indexSymbols, hdeclared,
    firstOfEachName_map (g := Symbol.renumber f) fun _ => rfl, List.map_map, List.map_map]
  congr 1
  refine List.map_congr_left fun s _ => ?_
  obtain ⟨hrefs, hused⟩ := references_renumber hf h s
  rw [Function.comp_apply, Function.comp_apply, hrefs, hused]
  rfl

end

/-! ## diagnostics -/

theorem contains_renumber (f : Nat → Nat) (t : SymbolTable) (name : String) :
    (t.renumber f).contains name = t.contains name := by
  rw [SymbolTable.contains, SymbolTable.renumber, List.any_map]
  rfl

theorem syntaxProblems_renumber (f : Nat → Nat) (k : NumberedLine) :
    syntaxProblems (k.renumber f) = (syntaxProblems k).map (Finding.renumber f) := by
  have hbrace : braceProblem? (k.renumber f) = (braceProblem? k).map (Finding.renumber f) := by
    rw [braceProblem?, braceProblem?, apply_ite (Option.map (Finding.renumber f))]
    rfl
  have hparen : parenProblem? (k.renumber f) = (parenProblem? k).map (Finding.renumber f) := by
    rw [parenProblem?, parenProblem?, apply_ite (Option.map (Finding.renumber f))]
    rfl
  have hfunction : functionProblem? (k.renumber f) =
      (functionProblem? k).map (Finding.renumber f) := by
    rw [functionProblem?, functionProblem?, apply_ite (Option.map (Finding.renumber f))]
    rfl
  rw [syntaxProblems, hbrace, hparen, hfunction, syntaxProblems, List.map_append, List.map_append,
    Option.toList_map, Option.toList_map, Option.toList_map]

theorem assignmentProblem?_renumber (f : Nat → Nat) (t : SymbolTable) (k : NumberedLine) :
    assignmentProblem? (t.renumber f) (k.renumber f) =
      (assignmentProblem? t k).map (Finding.renumber f) := by
  rw [assignmentProblem?_eq, assignmentProblem?_eq, Option.map_bind]
  refine congrArg _ (funext fun s => ?_)
  rw [contains_renumber, Function.comp_apply, apply_ite (Option.map (Finding.renumber f))]
  rfl

theorem problemsOnLine_renumber (f : Nat → Nat) (t : SymbolTable) (k : NumberedLine) :
    problemsOnLine (t.renumber f) (k.renumber f) =
      (problemsOnLine t k).map (Finding.renumber f) := by
  rw [problemsOnLine_eq, problemsOnLine_eq, syntaxProblems_renumber, assignmentProblem?_renumber,
    Option.toList_map, List.map_append]

theorem unusedProblem?_renumber (f : Nat → Nat) (s : Symbol) :
    unusedProblem? (s.renumber f) = (unusedProblem? s).map (Finding.renumber f) := by
  rw [unusedProblem?, unusedProblem?, apply_ite (Option.map (Finding.renumber f))]
  rfl

theorem diagnose_renumber {f : Nat → Nat} (hf : Function.Injective f) {lines lines' : List Line}
    (h : codeLines lines' = (codeLines lines).map (NumberedLine.renumber f)) :
    diagnose lines' = (diagnose lines).map (Diagnostic.renumber f) := by
  have hfindings : findings lines' (indexSymbols lines') =
      (findings lines (indexSymbols lines)).map (Finding.renumber f) := by
    rw [indexSymbols_renumber hf h, findings, h, List.flatMap_map, findings, List.map_append,
      List.map_flatMap]
    congr 1
    · exact List.flatMap_congr fun k _ => problemsOnLine_renumber f _ k
    · rw [SymbolTable.renumber, List.filterMap_map, List.map_filterMap]
      exact congrArg (List.filterMap · _) (funext (unusedProblem?_renumber f))
  rw [diagnose, hfindings, diagnose, List.map_map, List.map_map]
  rfl

end LanguageService
