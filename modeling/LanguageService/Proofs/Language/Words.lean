import LanguageService.Language.Shape
import LanguageService.Proofs.Pattern.WordMatches

/-!
# Shapes of whole words

* `IsName`               an ASCII identifier
* `FitsWords a T`        the pattern fits exactly the words of a line that pass the test `T`
* `all_of_fitsWords`     then its matches are these words, from left to right
* `fitsWords_identifier`, `fitsWords_word`   identifiers, and one given name
-/

namespace LanguageService

/-- an ASCII letter or underscore, and then letters, digits and underscores -/
def IsName (w : Line) : Prop :=
  ∃ c r, w = c :: r ∧ isNameStart c = true ∧ ∀ d ∈ r, isNameChar d = true

namespace IsName

variable {w : Line} (hw : IsName w)
include hw

theorem isNameChar : ∀ c ∈ w, isNameChar c = true := by
  obtain ⟨c, r, rfl, hc, hr⟩ := hw
  intro d hd
  rcases List.mem_cons.mp hd with rfl | hd
  · exact isNameChar_of_isNameStart hc
  · exact hr d hd

theorem isWordText : IsWordText w := by
  refine ⟨?_, fun c hc => isWord_of_isNameChar (hw.isNameChar c hc)⟩
  obtain ⟨c, r, rfl, -⟩ := hw
  exact List.cons_ne_nil _ _

end IsName

/-- `IsName` as a test -/
def isNameText : Line → Bool
  | [] => false
  | c :: r => isNameStart c && r.all isNameChar

theorem isNameText_iff (w : Line) : isNameText w = true ↔ IsName w := by
  cases w with
  | nil =>
    refine ⟨fun h => absurd h (by decide), ?_⟩
    rintro ⟨c, r, h, -⟩
    exact absurd h.symm (List.cons_ne_nil _ _)
  | cons c r =>
    rw [isNameText, Bool.and_eq_true, List.all_eq_true]
    constructor
    · exact fun h => ⟨c, r, rfl, h⟩
    · rintro ⟨d, t, h, hd, ht⟩
      obtain ⟨rfl, rfl⟩ := List.cons.inj h
      exact ⟨hd, ht⟩

theorem not_isWord_eq : isWord '=' = false := by decide +kernel

theorem not_isNameChar_of_not_isWord {c : Char} (h : isWord c = false) : isNameChar c = false := by
  by_cases hc : isNameChar c = true
  · rw [isWord_of_isNameChar hc] at h
    exact absurd h (by decide)
  · exact Bool.eq_false_iff.mpr hc

namespace Pattern

/-! ## names and white space -/

theorem fits_nameText {name : String} {p x y : Line} {gs : List (Nat × Span)} :
    Fits (nameText name) p x y gs ↔ x = name.toList ∧ gs = [] :=
  fits_literal _

theorem fits_blanks {p x y : Line} {gs : List (Nat × Span)} :
    Fits blanks p x y gs ↔ AllBlank x ∧ gs = [] := Iff.rfl

theorem fits_blanks1 {p x y : Line} {gs : List (Nat × Span)} :
    Fits blanks1 p x y gs ↔ x ≠ [] ∧ AllBlank x ∧ gs = [] :=
  fits_many1

theorem fits_identifierText {p x y : Line} {gs : List (Nat × Span)} :
    Fits identifierText p x y gs ↔ IsName x ∧ gs = [] := by
  constructor
  · rintro ⟨_, r, _, _, ⟨c, hc, rfl, rfl⟩, ⟨hr, rfl⟩, rfl, rfl⟩
    exact ⟨⟨c, r, rfl, hc, hr⟩, rfl⟩
  · rintro ⟨⟨c, r, rfl, hc, hr⟩, rfl⟩
    exact ⟨[c], r, [], [], ⟨c, hc, rfl, rfl⟩, ⟨hr, rfl⟩, rfl, rfl⟩

/-! ## patterns of whole words -/

/-- The pattern fits exactly the words that pass the test. -/
structure FitsWords (a : Pattern) (T : Line → Bool) : Prop where
  fits_iff : ∀ p x y gs, Fits a p x y gs ↔
    endsInWord p = false ∧ T x = true ∧ startsInWord y = false ∧ gs = []
  isWordText : ∀ x, T x = true → IsWordText x

theorem fitsWords_of_text {a : Pattern} {T : Line → Bool}
    (hfits : ∀ p x y gs, Fits a p x y gs ↔ T x = true ∧ gs = [])
    (hword : ∀ x, T x = true → IsWordText x) : FitsWords (inOrder [wordEdge, a, wordEdge]) T := by
  refine ⟨fun p x y gs => ?_, hword⟩
  show Fits (seq wordEdge (seq a wordEdge)) p x y gs ↔ _
  rw [fits_wordEdge_seq, fits_seq]
  constructor
  · rintro ⟨hp, x, _, g₁, _, ha, ⟨hy, rfl, rfl⟩, rfl, rfl⟩
    obtain ⟨hx, rfl⟩ := (hfits _ _ _ _).mp ha
    have hw := hword x hx
    rw [List.append_nil, hw.startsInWord_append] at hp
    rw [hw.endsInWord_append] at hy
    exact ⟨Bool.eq_false_iff.mpr hp, by rwa [List.append_nil], Bool.eq_false_iff.mpr hy.symm, rfl⟩
  · rintro ⟨hp, hx, hy, rfl⟩
    have hw := hword x hx
    refine ⟨?_, x, [], [], [], (hfits _ _ _ _).mpr ⟨hx, rfl⟩, ⟨?_, rfl, rfl⟩,
      (List.append_nil x).symm, rfl⟩
    · rw [hw.startsInWord_append, hp]
      decide
    · rw [hw.endsInWord_append, hy]
      decide

theorem fitsWords_identifier : FitsWords Shape.identifier isNameText :=
  fitsWords_of_text (fun _ x _ _ => by rw [fits_identifierText, isNameText_iff])
    fun x hx => ((isNameText_iff x).mp hx).isWordText

theorem fitsWords_word {name : String} (hname : IsWordText name.toList) :
    FitsWords (Shape.word name) (· == name.toList) :=
  fitsWords_of_text (fun _ x _ _ => by rw [fits_nameText, beq_iff_eq])
    fun x hx => by rwa [beq_iff_eq.mp hx]

theorem matchAt?_of_fitsWords {a : Pattern} {T : Line → Bool} (h : FitsWords a T) {p w r : Line}
    (hp : endsInWord p = false) (hw : IsWordText w) (hr : startsInWord r = false) :
    a.matchAt? (.between p (w ++ r)) =
      if T w = true then some ⟨⟨p.length, p.length + w.length⟩, []⟩ else none := by
  have hword : ∀ x y, w ++ r = x ++ y → T x = true → startsInWord y = false → x = w := by
    intro x y hxy hx hy
    exact (run_unique hw.isWord hr (h.isWordText x hx).isWord hy hxy).1.symm
  split
  · next ht =>
    refine matchAt?_eq_some_of_unique ((h.fits_iff p w r []).mpr ⟨hp, ht, hr, rfl⟩) ?_
    intro x y gs hxy hf
    obtain ⟨-, hx, hy, rfl⟩ := (h.fits_iff _ _ _ _).mp hf
    exact ⟨hword x y hxy hx hy, rfl⟩
  · next ht =>
    refine (matchAt?_eq_none_iff a p _).mpr ?_
    intro x y gs hxy hf
    obtain ⟨-, hx, hy, -⟩ := (h.fits_iff _ _ _ _).mp hf
    exact ht (hword x y hxy hx hy ▸ hx)

theorem beginsWithWord_of_fitsWords {a : Pattern} {T : Line → Bool} (h : FitsWords a T) :
    BeginsWithWord a (fun w _ => if T w = true then some 0 else none) fun _ => [] where
  word := by
    intro p w r hp hw hr
    rw [matchAt?_of_fitsWords h hp hw hr]
    split <;> rfl
  elsewhere := by
    intro p b hat
    refine (matchAt?_eq_none_iff a p b).mpr ?_
    intro x y gs hb hf
    obtain ⟨hp, hx, -, -⟩ := (h.fits_iff _ _ _ _).mp hf
    have hw := h.isWordText x hx
    rw [hb, hw.startsInWord_append, hp] at hat
    exact absurd hat (by decide)
  gap := by
    intro w r k hk
    split at hk
    · obtain rfl := Option.some.inj hk
      exact ⟨Nat.zero_le _, fun c hc => absurd hc List.not_mem_nil⟩
    · cases hk

/-- The matches of a pattern of whole words are the words that pass its test. -/
theorem all_of_fitsWords {a : Pattern} {T : Line → Bool} (h : FitsWords a T) (l : Line) :
    a.all l = ((wordRuns l).filter fun s => T (s.chars l)).map fun s => ⟨s, []⟩ := by
  rw [all_of_beginsWithWord (beginsWithWord_of_fitsWords h), ← List.filterMap_eq_map,
    List.filterMap_filter]
  congr 1
  funext s
  rw [foundAt]
  split <;> rfl

end Pattern
end LanguageService
