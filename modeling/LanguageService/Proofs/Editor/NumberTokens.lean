import Mathlib.Data.List.Chain
import LanguageService.Editor.Token
import LanguageService.Proofs.Language.Words
import LanguageService.Proofs.Pattern.Preference
import LanguageService.Proofs.Pattern.Successive

/-!
# Numbers

A number is a word that is made of decimal digits only, and a fraction behind it: a point and the
next word, if this follows directly and is made of decimal digits only too.

* `isWord_of_isDecimal`   decimal digits are word characters
* `numbersAmong l words`  the numbers among the words of a line
* `fits_numberText`       what the pattern of a number fits
* `matchAt?_whole`, `matchAt?_fraction`   a number without a fraction, and with one
* `all_numberText`        the numbers of a line are those among its words
-/

namespace LanguageService

/-! ## decimal digits -/

theorem Intervals.increasing_of_isChain {t : Intervals}
    (h : t.IsChain fun a b => a.2 < b.1 ∧ b.1 ≤ b.2) : Increasing t := by
  have htrans : IsTrans (Nat × Nat) fun a b => a.2 < b.1 ∧ b.1 ≤ b.2 := ⟨by intro a b c; omega⟩
  exact (List.isChain_iff_pairwise.mp h).imp fun hab => hab.1

theorem increasing_wordIntervals : Intervals.Increasing wordIntervals :=
  Intervals.increasing_of_isChain (by decide +kernel)

theorem increasing_digitIntervals : Intervals.Increasing digitIntervals :=
  Intervals.increasing_of_isChain (by decide +kernel)

theorem digitIntervals_inside : (digitIntervals.all fun r =>
    wordIntervals.any fun q => q.1.ble r.1 && r.2.ble q.2) = true := by
  decide +kernel

theorem isWord_of_isDecimal {c : Char} (h : isDecimal c = true) : isWord c = true := by
  have hdigits : ∀ r ∈ digitIntervals, r.1 ≤ r.2 := by decide +kernel
  have hwords : ∀ q ∈ wordIntervals, q.1 ≤ q.2 := by decide +kernel
  rw [isDecimal] at h
  rw [isWord]
  by_cases hc : c.toNat < 128
  · rw [if_pos hc] at h ⊢
    rw [isNameChar, h, Bool.or_true]
  · rw [if_neg hc] at h ⊢
    obtain ⟨r, hr, hlo, hhi⟩ := (Intervals.has_iff increasing_digitIntervals hdigits _).mp h
    obtain ⟨q, hq, hin⟩ := List.any_eq_true.mp (List.all_eq_true.mp digitIntervals_inside r hr)
    rw [Bool.and_eq_true, Nat.ble_eq, Nat.ble_eq] at hin
    exact (Intervals.has_iff increasing_wordIntervals hwords _).mpr
      ⟨q, hq, Nat.le_trans hin.1 hlo, Nat.le_trans hhi hin.2⟩

theorem not_isWord_point : isWord '.' = false := by decide +kernel

/-- decimal digits, and at least one -/
structure IsDigits (w : Line) : Prop where
  ne_nil : w ≠ []
  isDecimal : ∀ c ∈ w, isDecimal c = true

theorem IsDigits.isWordText {w : Line} (hw : IsDigits w) : IsWordText w :=
  ⟨hw.ne_nil, fun c hc => isWord_of_isDecimal (hw.isDecimal c hc)⟩

theorem startsInWord_point (y : Line) : startsInWord ('.' :: y) = false := by
  rw [startsInWord_cons, not_isWord_point]

theorem IsDigits.endsInWord_point {v : Line} (hv : IsDigits v) (p : Line) :
    endsInWord (p ++ '.' :: v) = true := by
  rw [← List.singleton_append, ← List.append_assoc, hv.isWordText.endsInWord_append]

/-! ## the numbers among the words -/

/-- the stretch is made of decimal digits only -/
def Span.isDigits (l : Line) (s : Span) : Bool :=
  (s.chars l).all isDecimal

/-- Directly behind the stretch stands a point, and the other stretch begins directly behind this. -/
def Span.pointsTo (l : Line) (s t : Span) : Bool :=
  l[s.stop]? == some '.' && t.start == s.stop + 1

/-- The words of a line that are numbers, each with its fraction; a word that is a fraction is not
looked at again. -/
def numbersAmong (l : Line) : List Span → List Span
  | [] => []
  | [s] => if s.isDigits l then [s] else []
  | s :: t :: words =>
    if s.isDigits l then
      if s.pointsTo l t && t.isDigits l then ⟨s.start, t.stop⟩ :: numbersAmong l words
      else s :: numbersAmong l (t :: words)
    else numbersAmong l (t :: words)

section
variable {l : Line} {s t : Span} {words : List Span}

theorem numbersAmong_other (hs : s.isDigits l = false) :
    numbersAmong l (s :: words) = numbersAmong l words := by
  cases words with
  | nil =>
    rw [numbersAmong, numbersAmong, hs]
    rfl
  | cons t words =>
    rw [numbersAmong, hs]
    rfl

theorem numbersAmong_whole (hs : s.isDigits l = true)
    (hnone : ∀ t, words.head? = some t → s.pointsTo l t = true → t.isDigits l = false) :
    numbersAmong l (s :: words) = s :: numbersAmong l words := by
  cases words with
  | nil => rw [numbersAmong, numbersAmong, if_pos hs]
  | cons t words =>
    have hfraction : ¬ (s.pointsTo l t && t.isDigits l) = true := by
      rw [Bool.and_eq_true]
      rintro ⟨ht, ht'⟩
      rw [hnone t rfl ht] at ht'
      exact absurd ht' (by decide)
    rw [numbersAmong, if_pos hs, if_neg hfraction]

theorem numbersAmong_fraction (hs : s.isDigits l = true) (ht : s.pointsTo l t = true)
    (ht' : t.isDigits l = true) :
    numbersAmong l (s :: t :: words) = ⟨s.start, t.stop⟩ :: numbersAmong l words := by
  rw [numbersAmong, if_pos hs, ht, ht']
  rfl

end

/-! ## the pattern of a number -/

open Pattern

/-- a point and decimal digits -/
def IsFraction (x : Line) : Prop :=
  ∃ v, IsDigits v ∧ x = '.' :: v

/-- the pattern of a fraction -/
def fractionText : Pattern :=
  .seq (.literal ['.']) (.many1 isDecimal)

theorem fits_digits {p x y : Line} {gs : List (Nat × Span)} :
    (many1 isDecimal).Fits p x y gs ↔ IsDigits x ∧ gs = [] := by
  rw [fits_many1]
  constructor
  · rintro ⟨hne, hx, rfl⟩
    exact ⟨⟨hne, hx⟩, rfl⟩
  · rintro ⟨hx, rfl⟩
    exact ⟨hx.ne_nil, hx.isDecimal, rfl⟩

theorem fits_fractionText {p x y : Line} {gs : List (Nat × Span)} :
    fractionText.Fits p x y gs ↔ IsFraction x ∧ gs = [] := by
  simp only [fractionText, fits_seq, fits_literal, fits_digits]
  constructor
  · rintro ⟨_, v, _, _, ⟨rfl, rfl⟩, ⟨hv, rfl⟩, rfl, rfl⟩
    exact ⟨⟨v, hv, rfl⟩, rfl⟩
  · rintro ⟨⟨v, hv, rfl⟩, rfl⟩
    exact ⟨['.'], v, [], [], ⟨rfl, rfl⟩, ⟨hv, rfl⟩, rfl, rfl⟩

/-- a fraction, or nothing, up to the edge of a word -/
theorem fits_numberTail {p x y : Line} {gs : List (Nat × Span)} :
    (seq (.optional fractionText) wordEdge).Fits p x y gs ↔
      (x = [] ∨ IsFraction x) ∧ endsInWord (p ++ x) ≠ startsInWord y ∧ gs = [] := by
  rw [fits_seq]
  constructor
  · rintro ⟨x, _, _, _, hx, ⟨hedge, rfl, rfl⟩, rfl, rfl⟩
    rw [List.append_nil]
    rcases hx with hx | ⟨rfl, rfl⟩
    · obtain ⟨hv, rfl⟩ := fits_fractionText.mp hx
      exact ⟨Or.inr hv, hedge, rfl⟩
    · exact ⟨Or.inl rfl, hedge, rfl⟩
  · rintro ⟨hx, hedge, rfl⟩
    refine ⟨x, [], [], [], ?_, ⟨hedge, rfl, rfl⟩, (List.append_nil x).symm, rfl⟩
    rcases hx with rfl | hx
    · exact Or.inr ⟨rfl, rfl⟩
    · exact Or.inl (fits_fractionText.mpr ⟨hx, rfl⟩)

theorem IsDigits.endsInWord_tail {w t : Line} (hw : IsDigits w) (ht : t = [] ∨ IsFraction t)
    (p : Line) : endsInWord (p ++ w ++ t) = true := by
  rcases ht with rfl | ⟨v, hv, rfl⟩
  · rw [List.append_nil, hw.isWordText.endsInWord_append]
  · exact hv.endsInWord_point _

/-- Digits, and perhaps a fraction, with the edges of words on both sides. -/
theorem fits_numberText {p x y : Line} {gs : List (Nat × Span)} : numberText.Fits p x y gs ↔
    endsInWord p = false ∧ startsInWord y = false ∧
      (∃ w t, IsDigits w ∧ (t = [] ∨ IsFraction t) ∧ x = w ++ t) ∧ gs = [] := by
  show (seq wordEdge (seq (many1 isDecimal) (seq (.optional fractionText) wordEdge))).Fits
    p x y gs ↔ _
  rw [fits_wordEdge_seq, fits_seq]
  simp only [fits_digits, fits_numberTail]
  constructor
  · rintro ⟨hp, w, t, _, _, ⟨hw, rfl⟩, ⟨ht, hy, rfl⟩, rfl, rfl⟩
    rw [List.append_assoc, hw.isWordText.startsInWord_append] at hp
    rw [hw.endsInWord_tail ht] at hy
    exact ⟨Bool.eq_false_iff.mpr hp, Bool.eq_false_iff.mpr hy.symm, ⟨w, t, hw, ht, rfl⟩, rfl⟩
  · rintro ⟨hp, hy, ⟨w, t, hw, ht, rfl⟩, rfl⟩
    rw [List.append_assoc, hw.isWordText.startsInWord_append, hp]
    refine ⟨Bool.false_ne_true, w, t, [], [], ⟨hw, rfl⟩, ⟨ht, ?_, rfl⟩, rfl, rfl⟩
    rw [hw.endsInWord_tail ht, hy]
    exact Bool.false_ne_true.symm

theorem startsInWord_tail {t y : Line} (ht : t = [] ∨ IsFraction t)
    (hy : startsInWord y = false) : startsInWord (t ++ y) = false := by
  rcases ht with rfl | ⟨v, -, rfl⟩
  · exact hy
  · exact startsInWord_point _

/-- the word at which a number begins is all of its digits before a fraction -/
theorem digits_unique {w r v y : Line} (hw : IsWordText w) (hr : startsInWord r = false)
    (hv : IsDigits v) (hy : startsInWord y = false) (h : w ++ r = v ++ y) : v = w ∧ y = r := by
  obtain ⟨rfl, rfl⟩ := run_unique hw.isWord hr hv.isWordText.isWord hy h
  exact ⟨rfl, rfl⟩

section
variable {p w r : Line}

/-- Where a word stands, a number begins only if the word is made of digits. -/
theorem fits_numberText_word {x y : Line} {gs : List (Nat × Span)} (hw : IsWordText w)
    (hr : startsInWord r = false) (hxy : w ++ r = x ++ y) (hf : numberText.Fits p x y gs) :
    IsDigits w ∧ startsInWord y = false ∧ gs = [] ∧
      ∃ t, (t = [] ∨ IsFraction t) ∧ x = w ++ t ∧ r = t ++ y := by
  obtain ⟨-, hy, ⟨v, t, hv, ht, rfl⟩, rfl⟩ := fits_numberText.mp hf
  rw [List.append_assoc] at hxy
  obtain ⟨rfl, hrest⟩ := digits_unique hw hr hv (startsInWord_tail ht hy) hxy
  exact ⟨hv, hy, rfl, t, ht, rfl, hrest.symm⟩

theorem matchAt?_other (hw : IsWordText w) (hr : startsInWord r = false) (hnot : ¬ IsDigits w) :
    numberText.matchAt? (.between p (w ++ r)) = none := by
  refine (matchAt?_eq_none_iff _ _ _).mpr ?_
  intro x y gs hxy hf
  exact hnot (fits_numberText_word hw hr hxy hf).1

theorem matchAt?_whole (hp : endsInWord p = false) (hw : IsDigits w) (hr : startsInWord r = false)
    (hnone : ∀ v y, r = '.' :: (v ++ y) → IsDigits v → startsInWord y = true) :
    numberText.matchAt? (.between p (w ++ r)) =
      some ⟨⟨p.length, p.length + w.length⟩, []⟩ := by
  refine matchAt?_eq_some_of_unique
    (fits_numberText.mpr ⟨hp, hr, ⟨w, [], hw, Or.inl rfl, (List.append_nil w).symm⟩, rfl⟩) ?_
  intro x y gs hxy hf
  obtain ⟨-, hy, rfl, t, ht, rfl, rfl⟩ := fits_numberText_word hw.isWordText hr hxy hf
  rcases ht with rfl | ⟨v, hv, rfl⟩
  · exact ⟨List.append_nil w, rfl⟩
  · rw [hnone v y rfl hv] at hy
    exact absurd hy.symm Bool.false_ne_true

/-! The digits in front of a fraction are a number too; but with the fraction there is more to
read, and this is preferred. -/

theorem matchAt?_fractionText {v : Line} (hv : IsDigits v) (hr : startsInWord r = false) :
    (seq fractionText wordEdge).matchAt? (.between p ('.' :: v ++ r)) =
      some ⟨⟨p.length, p.length + ('.' :: v).length⟩, []⟩ := by
  have hend : endsInWord (p ++ '.' :: v) ≠ startsInWord r := by
    rw [hv.endsInWord_point, hr]
    exact Bool.false_ne_true.symm
  refine matchAt?_eq_some_of_unique (fits_seq.mpr ⟨'.' :: v, [], [], [],
    fits_fractionText.mpr ⟨⟨v, hv, rfl⟩, rfl⟩, ⟨hend, rfl, rfl⟩, (List.append_nil _).symm, rfl⟩) ?_
  intro x y gs hxy hf
  obtain ⟨_, _, _, _, hx, ⟨hy, rfl, rfl⟩, rfl, rfl⟩ := fits_seq.mp hf
  obtain ⟨⟨u, hu, rfl⟩, rfl⟩ := fits_fractionText.mp hx
  rw [hu.endsInWord_point] at hy
  rw [List.append_nil, List.cons_append, List.cons_append] at hxy
  obtain ⟨rfl, -⟩ := digits_unique hv.isWordText hr hu (Bool.eq_false_iff.mpr hy.symm)
    (List.cons.inj hxy).2
  exact ⟨List.append_nil _, rfl⟩

theorem matchAt?_digits_fraction {v : Line} (hw : IsDigits w) (hv : IsDigits v)
    (hr : startsInWord r = false) :
    (seq (many1 isDecimal) (seq (.optional fractionText) wordEdge)).matchAt?
      (.between p (w ++ ('.' :: v ++ r))) =
      some ⟨⟨p.length, p.length + (w ++ '.' :: v).length⟩, []⟩ := by
  have hlen : (p ++ w).length + ('.' :: v).length = p.length + (w ++ '.' :: v).length := by
    rw [List.length_append, List.length_append, Nat.add_assoc]
  refine (matchAt?_seq_of_unique (fits_digits.mpr ⟨hw, rfl⟩) ?_).trans ?_
  · intro x t z _ _ hxy hx ht
    obtain ⟨hdigits, rfl⟩ := fits_digits.mp hx
    obtain ⟨ht, hz, -⟩ := fits_numberTail.mp ht
    rw [hdigits.endsInWord_tail ht] at hz
    have htail : startsInWord (t ++ z) = false :=
      startsInWord_tail ht (Bool.eq_false_iff.mpr hz.symm)
    exact ⟨(digits_unique hw.isWordText (startsInWord_point _) hdigits htail hxy).1, rfl⟩
  · rw [Pattern.optional, matchAt?_seq_alt, matchAt?_fractionText hv hr, hlen]
    rfl

theorem matchAt?_fraction {v : Line} (hp : endsInWord p = false) (hw : IsDigits w)
    (hv : IsDigits v) (hr : startsInWord r = false) :
    numberText.matchAt? (.between p (w ++ '.' :: (v ++ r))) =
      some ⟨⟨p.length, p.length + (w ++ '.' :: v).length⟩, []⟩ := by
  have hstart : endsInWord p ≠ startsInWord (w ++ '.' :: (v ++ r)) := by
    rw [hp, hw.isWordText.startsInWord_append]
    exact Bool.false_ne_true
  refine (matchAt?_seq_of_unique (a := wordEdge) (x := []) ⟨hstart, rfl, rfl⟩
    fun _ _ _ _ _ _ h _ => h.2).trans ?_
  rw [List.append_nil]
  exact congrArg (Option.map _) (matchAt?_digits_fraction hw hv hr)

end

/-! ## the numbers of a line -/

theorem atWordStarts_numberText : AtWordStarts numberText where
  neverEmpty := neverEmpty_of_consumes rfl
  elsewhere := by
    intro p b hat
    refine (matchAt?_eq_none_iff _ p b).mpr ?_
    intro x y gs hb hf
    obtain ⟨hp, -, ⟨w, t, hw, -, rfl⟩, -⟩ := fits_numberText.mp hf
    rw [hp, hb, List.append_assoc, hw.isWordText.startsInWord_append] at hat
    exact absurd hat (by decide)

theorem isDigits_between (p w r : Line) :
    Span.isDigits (p ++ (w ++ r)) ⟨p.length, p.length + w.length⟩ = w.all isDecimal := by
  rw [Span.isDigits, Span.chars_between]

theorem pointsTo_between (p w r : Line) (t : Span) :
    Span.pointsTo (p ++ (w ++ r)) ⟨p.length, p.length + w.length⟩ t = true ↔
      r.head? = some '.' ∧ t.start = p.length + w.length + 1 := by
  have hbehind : (p ++ (w ++ r))[p.length + w.length]? = r.head? := by
    rw [← List.append_assoc, ← List.length_append, getElem?_behind]
  rw [Span.pointsTo, Bool.and_eq_true, beq_iff_eq, beq_iff_eq, hbehind]

theorem exists_of_pointsTo {p w r : Line} {t : Span}
    (hmem : t ∈ wordRunsFrom (p.length + w.length) false r)
    (ht : Span.pointsTo (p ++ (w ++ r)) ⟨p.length, p.length + w.length⟩ t = true) :
    ∃ v y, r = '.' :: (v ++ y) ∧ v ≠ [] ∧ startsInWord y = false ∧
      t = ⟨p.length + w.length + 1, p.length + w.length + 1 + v.length⟩ := by
  obtain ⟨hpoint, hstart⟩ := (pointsTo_between p w r t).mp ht
  rw [wordRunsFrom_eq_scanFrom] at hmem
  obtain ⟨a, v, y, rfl, -, hv, -, hy, rfl⟩ := exists_of_mem_scanFrom _ _ t hmem
  have hlen : a.length = 1 := by
    have hsum : p.length + w.length + a.length = p.length + w.length + 1 := hstart
    omega
  obtain ⟨c, rfl⟩ := List.length_eq_one_iff.mp hlen
  obtain rfl : c = '.' := Option.some.inj hpoint
  exact ⟨v, y, rfl, hv, hy, rfl⟩

theorem isDigits_point (p w v y : Line) : Span.isDigits (p ++ (w ++ '.' :: (v ++ y)))
    ⟨p.length + w.length + 1, p.length + w.length + 1 + v.length⟩ = v.all isDecimal := by
  have hbetween := isDigits_between (p ++ (w ++ ['.'])) v y
  have hlen : (p ++ (w ++ ['.'])).length = p.length + w.length + 1 := by
    rw [List.length_append, List.length_append, List.length_singleton, Nat.add_assoc]
  rw [hlen, List.append_assoc, List.append_assoc, List.singleton_append] at hbetween
  exact hbetween

/-- The numbers that are found in `b`, before which `p` stands, are those among its words. -/
def NumbersFound (p b : Line) : Prop :=
  numberText.matchesBehind p b =
    (numbersAmong (p ++ b) (wordRunsFrom p.length false b)).map fun s => ⟨s, []⟩

section
variable {p w r : Line}

theorem numbersFound_gap {c : Char} (hc : isWord c = false) (h : NumbersFound (p ++ [c]) r) :
    NumbersFound p (c :: r) := by
  have hgap := atWordStarts_numberText.matchesBehind_gap (List.forall_mem_singleton.mpr hc) r p
  rw [NumbersFound, List.append_assoc, List.length_append] at h
  rw [NumbersFound, wordRunsFrom_gap hc, ← List.singleton_append, hgap, h]
  rfl

theorem numbersFound_other (hw : IsWordText w) (hr : startsInWord r = false)
    (hnot : ¬ IsDigits w) (h : NumbersFound (p ++ w) r) : NumbersFound p (w ++ r) := by
  have hs : Span.isDigits (p ++ (w ++ r)) ⟨p.length, p.length + w.length⟩ = false := by
    rw [isDigits_between]
    exact Bool.eq_false_iff.mpr fun hall => hnot ⟨hw.ne_nil, List.all_eq_true.mp hall⟩
  rw [NumbersFound, List.append_assoc, List.length_append] at h
  rw [NumbersFound, wordRunsFrom_word hw hr, numbersAmong_other hs, ← h]
  exact atWordStarts_numberText.matchesBehind_unmatched hw (matchAt?_other hw hr hnot)

variable (hp : endsInWord p = false) (hw : IsDigits w)
include hp hw

theorem numbersFound_whole (hr : startsInWord r = false)
    (hnone : ∀ v y, r = '.' :: (v ++ y) → IsDigits v → startsInWord y = true)
    (h : NumbersFound (p ++ w) r) : NumbersFound p (w ++ r) := by
  have hs : Span.isDigits (p ++ (w ++ r)) ⟨p.length, p.length + w.length⟩ = true := by
    rw [isDigits_between]
    exact List.all_eq_true.mpr hw.isDecimal
  have hmatch := matchesBehind_match atWordStarts_numberText.neverEmpty hw.ne_nil
    (matchAt?_whole hp hw hr hnone)
  rw [NumbersFound, List.append_assoc, List.length_append] at h
  rw [NumbersFound, wordRunsFrom_word hw.isWordText hr, hmatch, h, numbersAmong_whole hs ?_,
    List.map_cons]
  intro t ht hpoint
  obtain ⟨v, y, rfl, hv, hy, rfl⟩ := exists_of_pointsTo (List.mem_of_head? ht) hpoint
  rw [isDigits_point]
  refine Bool.eq_false_iff.mpr fun hall => ?_
  rw [hnone v y rfl ⟨hv, List.all_eq_true.mp hall⟩] at hy
  exact absurd hy (by decide)

theorem numbersFound_fraction {v : Line} (hv : IsDigits v) (hr : startsInWord r = false)
    (h : NumbersFound (p ++ (w ++ '.' :: v)) r) : NumbersFound p (w ++ '.' :: (v ++ r)) := by
  have hs : Span.isDigits (p ++ (w ++ '.' :: (v ++ r))) ⟨p.length, p.length + w.length⟩ = true := by
    rw [isDigits_between]
    exact List.all_eq_true.mpr hw.isDecimal
  have ht : Span.isDigits (p ++ (w ++ '.' :: (v ++ r)))
      ⟨p.length + w.length + 1, p.length + w.length + 1 + v.length⟩ = true := by
    rw [isDigits_point]
    exact List.all_eq_true.mpr hv.isDecimal
  have hpoint := (pointsTo_between p w ('.' :: (v ++ r))
    ⟨p.length + w.length + 1, p.length + w.length + 1 + v.length⟩).mpr ⟨rfl, rfl⟩
  have hsplit : w ++ '.' :: (v ++ r) = w ++ '.' :: v ++ r := by
    rw [List.append_assoc, List.cons_append]
  have hstop : p.length + (w ++ '.' :: v).length = p.length + w.length + 1 + v.length := by
    rw [List.length_append, List.length_cons]
    omega
  have hmatch := matchAt?_fraction hp hw hv hr
  rw [hsplit] at hmatch
  have hfound := matchesBehind_match atWordStarts_numberText.neverEmpty
    (List.append_ne_nil_of_left_ne_nil hw.ne_nil _) hmatch
  rw [← hsplit, hstop] at hfound
  rw [NumbersFound, List.append_assoc, ← hsplit, List.length_append, hstop] at h
  rw [NumbersFound, wordRunsFrom_word hw.isWordText (startsInWord_point _),
    wordRunsFrom_gap not_isWord_point, wordRunsFrom_word hv.isWordText hr,
    numbersAmong_fraction hs hpoint ht, hfound, h]
  rfl

end

/-- Each number is found at its first word, and the search goes on behind its last. -/
theorem numbersFound (b p : Line) (hedge : endsInWord p = false ∨ startsInWord b = false) :
    NumbersFound p b := by
  induction hn : b.length using Nat.strongRecOn generalizing b p with
  | ind n ih =>
    have hshorter {y : Line} (q : Line) (hlt : y.length < b.length)
        (hedge : endsInWord q = false ∨ startsInWord y = false) : NumbersFound q y :=
      ih y.length (hn ▸ hlt) y q hedge rfl
    cases b using word_induction with
    | nil =>
      rw [NumbersFound, matchesBehind, matchesFrom_nil atWordStarts_numberText.neverEmpty,
        atWordStarts_numberText.elsewhere p [] (Or.inr rfl)]
      rfl
    | gap c b hc _ =>
      have hgap : endsInWord (p ++ [c]) = false := by rw [endsInWord_concat, hc]
      exact numbersFound_gap hc (hshorter _ (Nat.lt_succ_self _) (Or.inl hgap))
    | word w r hw hr _ =>
      have hp := hw.edge_before hedge
      have hpos : 0 < w.length := List.length_pos_iff.mpr hw.ne_nil
      have hrest : NumbersFound (p ++ w) r := by
        refine hshorter _ ?_ (Or.inr hr)
        rw [List.length_append]
        omega
      by_cases hdigits : IsDigits w
      · by_cases hfraction : ∃ v y, r = '.' :: (v ++ y) ∧ IsDigits v ∧ startsInWord y = false
        · obtain ⟨v, y, rfl, hv, hy⟩ := hfraction
          refine numbersFound_fraction hp hdigits hv hy (hshorter _ ?_ (Or.inr hy))
          simp only [List.length_append, List.length_cons]
          omega
        · refine numbersFound_whole hp hdigits hr ?_ hrest
          exact fun v y hr hv => (Bool.not_eq_false _).mp fun hy => hfraction ⟨v, y, hr, hv, hy⟩
      · exact numbersFound_other hw hr hdigits hrest

/-- the numbers of a line, from left to right -/
theorem all_numberText (l : Line) :
    numberText.all l = (numbersAmong l (wordRuns l)).map fun s => ⟨s, []⟩ :=
  numbersFound l [] (Or.inl endsInWord_nil)

end LanguageService
