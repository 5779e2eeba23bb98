import LanguageService.Text.CharClass

/-!
# Blank margins

* `trimStart`, `trimEnd`, `trim`   text without the white space at its ends
* `indentWidth`                    how many characters `trimStart` takes away
* `trim_eq_nil_iff`                nothing is left exactly of white space
-/

namespace LanguageService

/-- The characters of one line, or of a whole document. -/
abbrev Line := List Char

def trimStart (l : Line) : Line :=
  l.dropWhile isBlank

def trimEnd (l : Line) : Line :=
  (l.reverse.dropWhile isBlank).reverse

def trim (l : Line) : Line :=
  trimEnd (trimStart l)

/-- the number of white space characters at the start -/
def indentWidth (l : Line) : Nat :=
  (l.takeWhile isBlank).length

/-- is there nothing but white space? -/
def isBlankLine (l : Line) : Bool :=
  l.all isBlank

theorem trimStart_cons (c : Char) (l : Line) :
    trimStart (c :: l) = if isBlank c = true then trimStart l else c :: l := by
  unfold trimStart
  rw [List.dropWhile_cons]

theorem isBlankLine_cons (c : Char) (l : Line) :
    isBlankLine (c :: l) = (isBlank c && isBlankLine l) := rfl

theorem trimStart_eq_drop (l : Line) : trimStart l = l.drop (indentWidth l) := by
  induction l with
  | nil => rfl
  | cons c l ih =>
    unfold indentWidth
    rw [trimStart_cons, List.takeWhile_cons]
    by_cases h : isBlank c = true
    · rw [if_pos h, if_pos h, List.length_cons, List.drop_succ_cons, ih, indentWidth]
    · rw [if_neg h, if_neg h]
      rfl

theorem trimStart_eq_nil_iff (l : Line) : trimStart l = [] ↔ isBlankLine l = true := by
  induction l with
  | nil => exact ⟨fun _ => rfl, fun _ => rfl⟩
  | cons c l ih =>
    rw [trimStart_cons, isBlankLine_cons, Bool.and_eq_true, ← ih]
    by_cases h : isBlank c = true
    · rw [if_pos h]
      exact ⟨fun e => ⟨h, e⟩, fun e => e.2⟩
    · rw [if_neg h]
      exact ⟨fun e => absurd e (List.cons_ne_nil _ _), fun e => absurd e.1 h⟩

theorem trimEnd_eq_nil_iff (l : Line) : trimEnd l = [] ↔ isBlankLine l = true := by
  have h := trimStart_eq_nil_iff l.reverse
  rw [trimEnd, List.reverse_eq_nil_iff]
  rw [trimStart] at h
  rw [h, isBlankLine, isBlankLine, List.all_reverse]

theorem isBlankLine_trimStart (l : Line) : isBlankLine (trimStart l) = isBlankLine l := by
  induction l with
  | nil => rfl
  | cons c l ih =>
    rw [trimStart_cons, isBlankLine_cons]
    by_cases h : isBlank c = true
    · rw [if_pos h, ih, h, Bool.true_and]
    · rw [if_neg h, isBlankLine_cons]

theorem trim_eq_nil_iff (l : Line) : trim l = [] ↔ isBlankLine l = true := by
  rw [trim, trimEnd_eq_nil_iff, isBlankLine_trimStart]

end LanguageService
