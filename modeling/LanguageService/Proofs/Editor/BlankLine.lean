import LanguageService.Proofs.Editor.Layout
import LanguageService.Proofs.Source.Renumbering

/-!
# A blank line put in

A blank line carries no code, opens and closes no comment and no block.  Wherever it is put in, even
inside a comment or between the braces of a block, it only moves what is below it.

* `codeLines_insert_blank`   the code lines, numbered anew
* `braceFolds_renumber`      the folds of braces under other numbers
* `commentFold?_insert_blank`   the fold of a comment that reaches over the blank line
* `foldsFrom_insert_blank`   all folds
* `insert_blank_line`        symbols, diagnostics and folds
-/

namespace LanguageService

/-! ## code lines -/

theorem commentBehind_blank {b : Line} (hb : isBlankLine b = true) (inComment : Bool) (n : Nat) :
    commentBehind inComment [⟨n, b⟩] = inComment ∧ codeLinesFrom inComment [⟨n, b⟩] = [] := by
  have htrim : trim b = [] := (trim_eq_nil_iff b).mpr hb
  have hrole : LineRole.of b = .skipped := by
    rw [LineRole.of, htrim]
    rfl
  cases inComment with
  | true =>
    refine ⟨?_, rfl⟩
    show (!occursIn closesBlock (trim b)) = true
    rw [htrim]
    rfl
  | false =>
    rw [commentBehind, codeLinesFrom, hrole]
    exact ⟨rfl, rfl⟩

theorem codeLines_insert_blank {b : Line} (hb : isBlankLine b = true) (above below : List Line) :
    codeLines (above ++ b :: below) =
      (codeLines (above ++ below)).map (NumberedLine.renumber (shiftLine above.length)) := by
  obtain ⟨moved, hrest, hall⟩ := codeLines_insert below (commentBehind_blank hb _ above.length).1
  rw [hall, hrest, (commentBehind_blank hb _ above.length).2, List.nil_append]

/-! ## folds -/

def Fold.renumber (f : Nat → Nat) (x : Fold) : Fold :=
  { x with start := f x.start, stop := f x.stop }

/-- Folds of braces, if the numbers keep their order. -/
theorem braceFolds_renumber {f : Nat → Nat} (hf : ∀ m n, f m < f n ↔ m < n) (n : Nat) (l : Line)
    (opened : List Nat) : braceFolds (f n) (opened.map f) l =
      ((braceFolds n opened l).1.map (Fold.renumber f), (braceFolds n opened l).2.map f) := by
  induction l generalizing opened with
  | nil => rfl
  | cons c l ih =>
    by_cases ho : c = '{'
    · subst ho
      exact ih (n :: opened)
    · by_cases hc : c = '}'
      · subst hc
        cases opened with
        | nil => exact ih []
        | cons s outer =>
          rw [List.map_cons, braceFolds_close_cons, braceFolds_close_cons, ih outer]
          by_cases h : s < n
          · rw [if_pos h, if_pos ((hf s n).mpr h)]
            rfl
          · rw [if_neg h, if_neg fun hlt => h ((hf s n).mp hlt)]
      · rw [braceFolds_other ho hc, braceFolds_other ho hc, ih opened]

theorem braceFolds_blank {b : Line} (hb : isBlankLine b = true) (n : Nat) (opened : List Nat) :
    braceFolds n opened b = ([], opened) := by
  rw [← braceFolds_trim, (trim_eq_nil_iff b).mpr hb]
  rfl

theorem occursIn_blank {needle b : Line} (hneedle : Trimmed needle) (hne : needle ≠ [])
    (hb : isBlankLine b = true) : occursIn needle b = false := by
  rw [← occursIn_trim hneedle hne, (trim_eq_nil_iff b).mpr hb, occursIn, List.isEmpty_eq_false_iff]
  exact hne

theorem findIdx?_insert {α : Type} {p : α → Bool} {b : α} (hb : p b = false) (above below : List α) :
    (above ++ b :: below).findIdx? p =
      ((above ++ below).findIdx? p).map (shiftLine above.length) := by
  rw [List.findIdx?_append, List.findIdx?_append, List.findIdx?_cons, hb]
  cases ha : above.findIdx? p with
  | some i =>
    obtain ⟨hi, -⟩ := List.findIdx?_eq_some_iff_getElem.mp ha
    exact congrArg some (shiftLine_of_lt hi).symm
  | none =>
    cases below.findIdx? p with
    | none => rfl
    | some i =>
      have hi : shiftLine above.length (i + above.length) = i + above.length + 1 :=
        shiftLine_of_le (Nat.le_add_left above.length i)
      show some (i + 1 + above.length) = some (shiftLine above.length (i + above.length))
      rw [hi]
      congr 1
      omega

theorem commentFold?_cons (n : Nat) (l : Line) (ls : List Line) : commentFold? n (l :: ls) =
    if occursIn opensBlock l then
      ((l :: ls).findIdx? (occursIn closesBlock)).bind fun i =>
        if i = 0 then none else some ⟨n, n + i, .comment⟩
    else none := by
  rw [commentFold?]
  cases (l :: ls).findIdx? (occursIn closesBlock) with
  | none => rfl
  | some i => cases i <;> rfl

/-- a comment that opens above the blank line -/
theorem commentFold?_insert_blank {b : Line} (hb : isBlankLine b = true) (n : Nat) (l : Line)
    (above below : List Line) : commentFold? n (l :: (above ++ b :: below)) =
      (commentFold? n (l :: (above ++ below))).map
        (Fold.renumber (shiftLine (n + (above.length + 1)))) := by
  have hfind := findIdx?_insert (occursIn_blank trimmed_closesBlock (by decide) hb) (l :: above) below
  rw [List.cons_append, List.cons_append, List.length_cons] at hfind
  have hstart : shiftLine (n + (above.length + 1)) n = n := shiftLine_of_lt (by omega)
  rw [commentFold?_cons, commentFold?_cons, hfind, apply_ite (Option.map _), Option.bind_map,
    Option.map_bind]
  congr 2
  funext i
  have hstop : shiftLine (n + (above.length + 1)) (n + i) = n + shiftLine (above.length + 1) i := by
    unfold shiftLine
    split <;> split <;> omega
  show (if shiftLine (above.length + 1) i = 0 then none
    else some (⟨n, n + shiftLine (above.length + 1) i, .comment⟩ : Fold)) =
      Option.map _ (if i = 0 then none else some (⟨n, n + i, .comment⟩ : Fold))
  by_cases hi : i = 0
  · have h0 : shiftLine (above.length + 1) 0 = 0 := shiftLine_of_lt (Nat.succ_pos _)
    rw [hi, h0]
    rfl
  · have h0 : shiftLine (above.length + 1) i ≠ 0 := by
      unfold shiftLine
      split <;> omega
    rw [if_neg hi, if_neg h0, Option.map_some, Fold.renumber, hstart, hstop]

/-- a comment that opens below the blank line -/
theorem commentFold?_below {k n : Nat} (h : k ≤ n) (ls : List Line) :
    commentFold? (n + 1) ls = (commentFold? n ls).map (Fold.renumber (shiftLine k)) := by
  cases ls with
  | nil => rfl
  | cons l ls =>
    rw [commentFold?_cons, commentFold?_cons, apply_ite (Option.map _), Option.map_bind]
    congr 2
    funext i
    have hstop : shiftLine k (n + i) = n + 1 + i := by
      rw [shiftLine_of_le (Nat.le_add_right_of_le h)]
      omega
    rw [Function.comp_apply, apply_ite (Option.map _), Option.map_some, Fold.renumber, hstop,
      shiftLine_of_le h]
    rfl

theorem foldsFrom_below {k n : Nat} (h : k ≤ n) (ls : List Line) (opened : List Nat) :
    foldsFrom (n + 1) (opened.map (shiftLine k)) ls =
      (foldsFrom n opened ls).map (Fold.renumber (shiftLine k)) := by
  induction ls generalizing n opened with
  | nil => rfl
  | cons l ls ih =>
    have hbrace := braceFolds_renumber (shiftLine_lt_iff k) n l opened
    rw [shiftLine_of_le h] at hbrace
    rw [foldsFrom, foldsFrom, hbrace, ih (Nat.le_succ_of_le h), commentFold?_below h,
      Option.toList_map, List.map_append, List.map_append]

/-- All folds, with the braces that the lines above leave open. -/
theorem foldsFrom_insert_blank {b : Line} (hb : isBlankLine b = true) (above below : List Line)
    (n : Nat) (opened : List Nat) :
    foldsFrom n (opened.map (shiftLine (n + above.length))) (above ++ b :: below) =
      (foldsFrom n opened (above ++ below)).map
        (Fold.renumber (shiftLine (n + above.length))) := by
  induction above generalizing n opened with
  | nil =>
    have hcomment : commentFold? n (b :: below) = none := by
      rw [commentFold?_cons, occursIn_blank trimmed_opensBlock (by decide) hb]
      rfl
    rw [List.nil_append, List.nil_append, foldsFrom, braceFolds_blank hb, hcomment]
    exact foldsFrom_below (Nat.le_refl n) below opened
  | cons l above ih =>
    have hbrace := braceFolds_renumber (shiftLine_lt_iff (n + (above.length + 1))) n l opened
    rw [shiftLine_of_lt (by omega)] at hbrace
    have hrest := ih (n + 1) (braceFolds n opened l).2
    rw [show n + 1 + above.length = n + (above.length + 1) by omega] at hrest
    rw [List.cons_append, List.cons_append, List.length_cons, foldsFrom, foldsFrom, hbrace, hrest,
      commentFold?_insert_blank hb, Option.toList_map, List.map_append, List.map_append]

theorem folds_insert_blank {b : Line} (hb : isBlankLine b = true) (above below : List Line) :
    folds (above ++ b :: below) =
      (folds (above ++ below)).map (Fold.renumber (shiftLine above.length)) := by
  have h := foldsFrom_insert_blank hb above below 0 []
  rw [Nat.zero_add] at h
  exact h

/-! ## the whole of it -/

theorem insertIdx_append_length {α : Type} (above below : List α) (b : α) :
    (above ++ below).insertIdx above.length b = above ++ b :: below := by
  induction above with
  | nil => rfl
  | cons a above ih =>
    rw [List.cons_append, List.length_cons, List.insertIdx_succ_cons, ih, List.cons_append]

/-- **A blank line put in.**  Wherever it is put in, the symbols, the diagnostics and the folds are
the same, in the same order, with every line number from its own on increased by one. -/
theorem insert_blank_line (lines : List Line) (k : Nat) (hk : k ≤ lines.length) (b : Line)
    (hb : isBlankLine b = true) :
    indexSymbols (lines.insertIdx k b) = (indexSymbols lines).renumber (shiftLine k) ∧
      diagnose (lines.insertIdx k b) = (diagnose lines).map (Diagnostic.renumber (shiftLine k)) ∧
      folds (lines.insertIdx k b) = (folds lines).map (Fold.renumber (shiftLine k)) := by
  have hlen : (lines.take k).length = k := List.length_take_of_le hk
  have hinsert := insertIdx_append_length (lines.take k) (lines.drop k) b
  have hcode := codeLines_insert_blank hb (lines.take k) (lines.drop k)
  have hfolds := folds_insert_blank hb (lines.take k) (lines.drop k)
  rw [← hinsert, List.take_append_drop, hlen] at hcode hfolds
  have hinj := shiftLine_injective k
  exact ⟨indexSymbols_renumber hinj hcode, diagnose_renumber hinj hcode, hfolds⟩

/-- a comment above a block -/
def commentedBlock : List Line :=
  ["/* add".toList, "*/".toList, "let add = func() \x7b".toList, "\x7d".toList]

/-- A line of blanks put into the comment: the fold of the comment grows, and the function, what is
reported about it and the fold of its block move down. -/
theorem insert_blank_commentedBlock :
    ((indexSymbols (commentedBlock.insertIdx 1 "  ".toList)).symbols.map fun s => (s.name, s.line)) =
        [("add", 3)] ∧
      (diagnose (commentedBlock.insertIdx 1 "  ".toList)).map (fun d => (d.rule?, d.range.start.line)) =
        [(some "unmatched-brace", 4), (some "unused-symbol", 3)] ∧
      folds (commentedBlock.insertIdx 1 "  ".toList) = [⟨0, 2, .comment⟩, ⟨3, 4, .region⟩] := by
  obtain ⟨hsymbols, hdiagnostics, hfolds⟩ :=
    insert_blank_line commentedBlock 1 (by decide) "  ".toList (by decide)
  rw [hsymbols, hdiagnostics, hfolds]
  decide +kernel

end LanguageService
