import LanguageService.Text.Lines

/-!
# Where a block ends

* `depthAfter d l`       the brace depth behind a line, unless the outermost block closes on it
* `blockEnd lines s`     the line on which the block opened on line `s` closes
* `blockEnd_bounds`      no earlier than `s`, and no later than the last line
-/

namespace LanguageService

/-- The brace depth behind a line that is entered at depth `d`; none if the depth comes back to
zero on it.  A closing brace counts for nothing before the first opening one. -/
def depthAfter (d : Nat) : Line → Option Nat
  | [] => some d
  | c :: rest =>
    if c = '{' then depthAfter (d + 1) rest
    else if c = '}' then
      match d with
      | 0 => depthAfter 0 rest
      | 1 => none
      | d + 2 => depthAfter (d + 1) rest
    else depthAfter d rest

/-- the line on which depth `d` comes back to zero, the last line if none does -/
def closingLine (d n : Nat) : List Line → Nat
  | [] => n - 1
  | l :: ls =>
    match depthAfter d l with
    | none => n
    | some e => closingLine e (n + 1) ls

/-- The line on which the block opened on line `s` closes: `s` itself if it opens none, the last
line if the block stays open. -/
def blockEnd (lines : List Line) (s : Nat) : Nat :=
  match lines.drop s with
  | [] => s
  | l :: ls =>
    match depthAfter 0 l with
    | none | some 0 => s
    | some d => closingLine d (s + 1) ls

theorem closingLine_bounds (ls : List Line) (d n : Nat) :
    n - 1 ≤ closingLine d n ls ∧ closingLine d n ls ≤ n - 1 + ls.length := by
  induction ls generalizing d n with
  | nil => exact ⟨Nat.le_refl _, Nat.le_refl _⟩
  | cons l ls ih =>
    unfold closingLine
    split
    · simp only [List.length_cons]
      omega
    · next e _ =>
      have := ih e (n + 1)
      simp only [List.length_cons]
      omega

theorem blockEnd_bounds (lines : List Line) (s : Nat) :
    s ≤ blockEnd lines s ∧ blockEnd lines s ≤ max s (lines.length - 1) := by
  unfold blockEnd
  split
  · exact ⟨Nat.le_refl _, Nat.le_max_left _ _⟩
  · next l ls h =>
    have hlen : lines.length - s = ls.length + 1 := by
      rw [← List.length_drop, h, List.length_cons]
    split
    · exact ⟨Nat.le_refl _, Nat.le_max_left _ _⟩
    · exact ⟨Nat.le_refl _, Nat.le_max_left _ _⟩
    · next d _ _ =>
      have := closingLine_bounds ls d (s + 1)
      omega

end LanguageService
