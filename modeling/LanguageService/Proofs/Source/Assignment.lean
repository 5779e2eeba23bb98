import LanguageService.Source.Problem
import LanguageService.Proofs.Language.Declarations

/-!
# Assignments without declaration

* `AssignedAt`           a name at the start of a line, an equals sign, and a value
* `assigned?_eq_some_iff`   the pattern of such lines finds exactly that name
-/

namespace LanguageService

/-- the name on the left of an assignment without declaration -/
def assigned? (l : Line) : Option Span :=
  (bareAssignment.first? l).map fun m => m.group 1

/-- White space, an equals sign, white space, and a character that is no equals sign. -/
def AssignmentTail (r : Line) : Prop :=
  ∃ g g' c s, r = g ++ '=' :: (g' ++ c :: s) ∧ AllBlank g ∧ AllBlank g' ∧ c ≠ '=' ∧
    isBlank c = false

/-- The line is the white space `g`, the name `nm` and the tail `r`. -/
structure AssignedAt (l g nm r : Line) : Prop where
  line : l = g ++ (nm ++ r)
  blank : AllBlank g
  name : IsName nm
  tail : AssignmentTail r

theorem AssignmentTail.closes {r : Line} (h : AssignmentTail r) :
    r.head?.any isNameChar = false := by
  obtain ⟨g, g', c, s, rfl, hg, -⟩ := h
  exact head?_any_of_blank hg not_isNameChar_eq

theorem AssignedAt.unique {l g nm r g' nm' r' : Line} (h : AssignedAt l g nm r)
    (h' : AssignedAt l g' nm' r') : g = g' ∧ nm = nm' := by
  obtain ⟨hg, hrest⟩ := run_unique h.blank (not_isBlank_of_isName h.name r) h'.blank
    (not_isBlank_of_isName h'.name r') (h.line.symm.trans h'.line)
  exact ⟨hg, (run_unique h.name.isNameChar h.tail.closes h'.name.isNameChar h'.tail.closes hrest).1⟩

namespace Pattern

theorem fits_equals_value {p x y : Line} {gs : List (Nat × Span)} :
    Fits (seq blanks (seq (literal ['=']) (seq blanks (one fun c => c != '=' && !isBlank c))))
      p x y gs ↔ (∃ g g' c, x = g ++ '=' :: (g' ++ [c]) ∧ AllBlank g ∧ AllBlank g' ∧ c ≠ '=' ∧
        isBlank c = false) ∧ gs = [] := by
  have hone : ∀ {p x y gs}, Fits (one fun c => c != '=' && !isBlank c) p x y gs ↔
      ∃ c, (c ≠ '=' ∧ isBlank c = false) ∧ x = [c] ∧ gs = [] := by
    intro p x y gs
    refine exists_congr fun c => and_congr_left fun _ => ?_
    rw [Bool.and_eq_true, bne_iff_ne, Bool.not_eq_true']
  simp only [fits_seq, fits_blanks, fits_literal, hone]
  constructor
  · rintro ⟨g, _, _, _, ⟨hg, rfl⟩, ⟨_, _, _, _, ⟨rfl, rfl⟩, ⟨g', _, _, _, ⟨hg', rfl⟩,
      ⟨c, hc, rfl, rfl⟩, rfl, rfl⟩, rfl, rfl⟩, rfl, rfl⟩
    exact ⟨⟨g, g', c, rfl, hg, hg', hc⟩, rfl⟩
  · rintro ⟨⟨g, g', c, rfl, hg, hg', hc⟩, rfl⟩
    exact ⟨g, _, [], [], ⟨hg, rfl⟩, ⟨['='], _, [], [], ⟨rfl, rfl⟩, ⟨g', [c], [], [], ⟨hg', rfl⟩,
      ⟨c, hc, rfl, rfl⟩, rfl, rfl⟩, rfl, rfl⟩, rfl, rfl⟩

theorem fits_bareAssignment {p x y : Line} {gs : List (Nat × Span)} :
    Fits bareAssignment p x y gs ↔ p = [] ∧ ∃ g nm t, x = g ++ (nm ++ t) ∧ AllBlank g ∧ IsName nm ∧
      (∃ g₁ g₂ c, t = g₁ ++ '=' :: (g₂ ++ [c]) ∧ AllBlank g₁ ∧ AllBlank g₂ ∧ c ≠ '=' ∧
        isBlank c = false) ∧ gs = [(1, ⟨g.length, g.length + nm.length⟩)] := by
  show Fits (seq lineStart (seq blanks (seq (group 1 identifierText) _))) p x y gs ↔ _
  rw [fits_seq]
  constructor
  · rintro ⟨_, x, _, _, ⟨rfl, rfl, rfl⟩, ⟨g, t, _, _, ⟨hg, rfl⟩, ht, rfl, rfl⟩, rfl, rfl⟩
    obtain ⟨nm, t, rfl, hnm, hvalue, rfl⟩ :=
      (fits_group_seq (fun _ _ _ _ => fits_identifierText) fun _ _ _ _ => fits_equals_value).mp ht
    exact ⟨rfl, g, nm, t, rfl, hg, hnm, hvalue, rfl⟩
  · rintro ⟨rfl, g, nm, t, rfl, hg, hnm, ht, rfl⟩
    exact ⟨[], _, [], _, ⟨rfl, rfl, rfl⟩, ⟨g, nm ++ t, [], _, ⟨hg, rfl⟩,
      (fits_group_seq (fun _ _ _ _ => fits_identifierText) fun _ _ _ _ => fits_equals_value).mpr
        ⟨nm, t, rfl, hnm, ht, rfl⟩, rfl, (List.append_nil _).symm⟩, rfl, (List.append_nil _).symm⟩

end Pattern

theorem exists_of_assigned? {l : Line} {s : Span} (h : assigned? l = some s) :
    ∃ g nm r, AssignedAt l g nm r ∧ s = ⟨g.length, g.length + nm.length⟩ := by
  obtain ⟨m, hm, rfl⟩ := Option.map_eq_some_iff.mp h
  obtain ⟨p, b, rfl, hm, -⟩ := (Pattern.first?_eq_some_iff _ _ _).mp hm
  obtain ⟨x, y, gs, rfl, hf, rfl⟩ := Pattern.fits_of_matchAt? hm
  obtain ⟨rfl, g, nm, t, rfl, hg, hnm, ⟨g₁, g₂, c, rfl, hg₁, hg₂, hc⟩, rfl⟩ :=
    Pattern.fits_bareAssignment.mp hf
  refine ⟨g, nm, _, ⟨?_, hg, hnm, g₁, g₂, c, y, rfl, hg₁, hg₂, hc⟩, rfl⟩
  simp only [List.nil_append, List.append_assoc, List.cons_append]

theorem assigned?_eq_none_iff (l : Line) :
    assigned? l = none ↔ ∀ g nm r, ¬ AssignedAt l g nm r := by
  constructor
  · rintro hnone g nm r ⟨rfl, hg, hnm, g₁, g₂, c, s, rfl, hg₁, hg₂, hc⟩
    rw [assigned?, Option.map_eq_none_iff, Pattern.first?_eq_none_iff] at hnone
    refine (Pattern.matchAt?_eq_none_iff _ [] _).mp (hnone [] _ rfl)
      (g ++ (nm ++ (g₁ ++ '=' :: (g₂ ++ [c])))) s _ ?_ (Pattern.fits_bareAssignment.mpr
        ⟨rfl, g, nm, _, rfl, hg, hnm, ⟨g₁, g₂, c, rfl, hg₁, hg₂, hc⟩, rfl⟩)
    simp only [List.append_assoc, List.cons_append, List.nil_append]
    rfl
  · intro hno
    cases h : assigned? l with
    | none => rfl
    | some s =>
      obtain ⟨g, nm, r, hat, -⟩ := exists_of_assigned? h
      exact absurd hat (hno g nm r)

theorem assigned?_eq_some_iff (l : Line) (s : Span) : assigned? l = some s ↔
    ∃ g nm r, AssignedAt l g nm r ∧ s = ⟨g.length, g.length + nm.length⟩ := by
  refine ⟨exists_of_assigned?, ?_⟩
  rintro ⟨g, nm, r, hat, rfl⟩
  cases h : assigned? l with
  | none => exact absurd hat ((assigned?_eq_none_iff l).mp h g nm r)
  | some s =>
    obtain ⟨g', nm', r', hat', rfl⟩ := exists_of_assigned? h
    obtain ⟨rfl, rfl⟩ := hat.unique hat'
    rfl

end LanguageService
