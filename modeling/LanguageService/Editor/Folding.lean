import LanguageService.Source.CodeLine

/-!
# Folds

A brace pair on different lines folds, and so does a block comment: from a line that opens one to
the first line that closes one.

* `Fold`             a stretch of lines that can be folded away
* `folds lines`      the folds of a document: line by line those of the braces that close there,
                     and then that of the comment that opens there
* `start_lt_stop_of_mem_folds`   a fold covers more than one line
-/

namespace LanguageService

inductive FoldKind where
  | region
  | comment
deriving DecidableEq, Repr

structure Fold where
  start : Nat
  stop : Nat
  kind : FoldKind
deriving DecidableEq, Repr

/-- The folds that close on line `n`, and the lines of the braces left open behind it, innermost
first, given those left open before it. -/
def braceFolds (n : Nat) (opened : List Nat) : Line → List Fold × List Nat
  | [] => ([], opened)
  | c :: rest =>
    if c = '{' then braceFolds n (n :: opened) rest
    else if c = '}' then
      match opened with
      | [] => braceFolds n [] rest
      | s :: outer =>
        let r := braceFolds n outer rest
        if s < n then (⟨s, n, .region⟩ :: r.1, r.2) else r
    else braceFolds n opened rest

/-- the comment that opens on the first of some lines, of which the first has number `n` -/
def commentFold? (n : Nat) : List Line → Option Fold
  | [] => none
  | l :: ls =>
    if occursIn opensBlock l then
      match (l :: ls).findIdx? (occursIn closesBlock) with
      | none | some 0 => none
      | some k => some ⟨n, n + k, .comment⟩
    else none

def foldsFrom (n : Nat) (opened : List Nat) : List Line → List Fold
  | [] => []
  | l :: ls =>
    let r := braceFolds n opened l
    r.1 ++ (commentFold? n (l :: ls)).toList ++ foldsFrom (n + 1) r.2 ls

def folds (lines : List Line) : List Fold :=
  foldsFrom 0 [] lines

theorem braceFolds_lt (n : Nat) (l : Line) (opened : List Nat) :
    ∀ f ∈ (braceFolds n opened l).1, f.start < f.stop := by
  induction l generalizing opened with
  | nil => exact fun f hf => absurd hf List.not_mem_nil
  | cons c rest ih =>
    unfold braceFolds
    split
    · exact ih _
    · split
      · split
        · exact ih _
        · next s outer =>
          split
          · next h =>
            intro f hf
            rcases List.mem_cons.mp hf with rfl | hf
            · exact h
            · exact ih outer f hf
          · exact ih outer
      · exact ih _

theorem commentFold?_lt {n : Nat} {lines : List Line} {f : Fold}
    (h : commentFold? n lines = some f) : f.start < f.stop := by
  unfold commentFold? at h
  split at h
  · exact absurd h (by simp)
  · split at h
    · split at h
      · exact absurd h (by simp)
      · exact absurd h (by simp)
      · next k hk _ =>
        obtain rfl := Option.some.inj h
        show n < n + k
        have : k ≠ 0 := fun h0 => hk (by rw [h0])
        omega
    · exact absurd h (by simp)

/-- a fold covers more than one line -/
theorem start_lt_stop_of_mem_folds (lines : List Line) : ∀ f ∈ folds lines, f.start < f.stop := by
  have key : ∀ n opened, ∀ f ∈ foldsFrom n opened lines, f.start < f.stop := by
    induction lines with
    | nil => exact fun _ _ f hf => absurd hf List.not_mem_nil
    | cons l ls ih =>
      intro n opened f hf
      rcases List.mem_append.mp hf with hf | hf
      · rcases List.mem_append.mp hf with hf | hf
        · exact braceFolds_lt n l opened f hf
        · exact commentFold?_lt (Option.mem_toList.mp hf)
      · exact ih _ _ f hf
  exact key 0 []

end LanguageService
