import LanguageService.Text.Trim

/-!
# Finding text in text

* `occursIn needle hay`    does `needle` stand somewhere in `hay`?
* `occursIn_iff`           it does exactly when `hay` is `needle` between two other texts
* `indexOf? needle hay`    where it stands first
-/

namespace LanguageService

def occursIn (needle : Line) : Line → Bool
  | [] => needle.isEmpty
  | c :: rest => needle.isPrefixOf (c :: rest) || occursIn needle rest

/-- the place of the first occurrence, counted in characters -/
def indexOf? (needle : Line) : Line → Option Nat
  | [] => if needle.isEmpty then some 0 else none
  | c :: rest =>
    if needle.isPrefixOf (c :: rest) then some 0 else (indexOf? needle rest).map (· + 1)

theorem occursIn_iff (needle hay : Line) :
    occursIn needle hay = true ↔ ∃ before after, hay = before ++ needle ++ after := by
  induction hay with
  | nil =>
    rw [occursIn, List.isEmpty_iff]
    constructor
    · rintro rfl
      exact ⟨[], [], rfl⟩
    · rintro ⟨b, a, h⟩
      simp at h
      exact h.2.1
  | cons c rest ih =>
    rw [occursIn, Bool.or_eq_true, ih, List.isPrefixOf_iff_prefix]
    constructor
    · rintro (⟨a, h⟩ | ⟨b, a, h⟩)
      · exact ⟨[], a, by simp [h]⟩
      · exact ⟨c :: b, a, by simp [h]⟩
    · rintro ⟨b, a, h⟩
      cases b with
      | nil => exact Or.inl ⟨a, by simpa using h.symm⟩
      | cons d b =>
        simp only [List.cons_append, List.cons.injEq] at h
        exact Or.inr ⟨b, a, h.2⟩

end LanguageService
