import Mathlib.Algebra.Order.Field.Basic
import Mathlib.Algebra.Order.Ring.Abs
import Mathlib.Data.Rat.Cast.Order
import Mathlib.Tactic.FieldSimp
import Mathlib.Tactic.Positivity
import Mathlib.Tactic.Ring
import LanguageService.Number.Binary

/-!
# Correct rounding

A fraction is rounded to the number of a format that is nearest to it, and halfway between two to
the one with the even mantissa.  Numbers with a smaller shift than the one that is chosen are no
candidates: all of them lie below a number with the chosen shift that the fraction reaches.

* `roundDiv_nearest`   the whole number nearest to a fraction
* `Nearest f x m k`    the number of the format that `x` is rounded to
* `nearest_of_round?`  rounding finds this number
-/

namespace LanguageService

/-! ## whole numbers -/

/-- the distance of `a` from `n` times `b` -/
def gap (a b n : Nat) : Nat :=
  ((a : Int) - (b * n : Nat)).natAbs

/-- No whole number is nearer to `a / b`, and an odd one is not met halfway. -/
theorem roundDiv_nearest (a : Nat) {b : Nat} (hb : 0 < b) (n : Nat) :
    gap a b (roundDiv a b) ≤ gap a b n ∧
      (gap a b n = gap a b (roundDiv a b) → n = roundDiv a b ∨ roundDiv a b % 2 = 0) := by
  have hsplit := Nat.div_add_mod a b
  have hrest := Nat.mod_lt a hb
  have hnext : b * (a / b + 1) = b * (a / b) + b := Nat.mul_succ _ _
  have hbelow : n < a / b → b * n + b ≤ b * (a / b) := fun h => Nat.mul_le_mul_left b h
  have habove : a / b + 1 < n → b * (a / b) + b + b ≤ b * n := fun h => by
    rw [← hnext]
    exact Nat.mul_le_mul_left b h
  have hcases : n < a / b ∨ n = a / b ∨ n = a / b + 1 ∨ a / b + 1 < n := by omega
  unfold roundDiv gap
  split
  · next hup =>
    rcases hcases with h | rfl | rfl | h
    · have := hbelow h
      omega
    · omega
    · omega
    · have := habove h
      omega
  · next hdown =>
    rcases hcases with h | rfl | rfl | h
    · have := hbelow h
      omega
    · omega
    · omega
    · have := habove h
      omega

theorem roundDiv_cases (a b : Nat) : roundDiv a b = a / b ∨ roundDiv a b = a / b + 1 := by
  unfold roundDiv
  split
  · exact Or.inr rfl
  · exact Or.inl rfl

/-! ## numbers of a format -/

namespace BinaryFormat

variable {f : BinaryFormat} {a b m k : Nat}

/-- the number with a mantissa and a shift -/
def value (f : BinaryFormat) (m k : Nat) : ℚ :=
  m * 2 ^ k / 2 ^ f.places

/-- A fraction is rounded to this number: it has the least shift with which its mantissa fits, no
number of the format is nearer, and if another one is as near, then its mantissa is even. -/
structure Nearest (f : BinaryFormat) (x : ℚ) (m k : Nat) : Prop where
  fits : m < 2 ^ f.precision
  least : k = 0 ∨ 2 ^ (f.precision - 1) ≤ m
  nearest : ∀ m' k', m' < 2 ^ f.precision → |f.value m k - x| ≤ |f.value m' k' - x|
  even : ∀ m' k', m' < 2 ^ f.precision → |f.value m' k' - x| = |f.value m k - x| →
    f.value m' k' = f.value m k ∨ m % 2 = 0

/-- the distance of a number from a fraction, in units of the format -/
theorem abs_value_sub (f : BinaryFormat) (a m k : Nat) (hb : 0 < b) :
    |f.value m k - a / b| = gap (a * 2 ^ f.places) b (m * 2 ^ k) / (b * 2 ^ f.places) := by
  have hbq : (0 : ℚ) < b := Nat.cast_pos.mpr hb
  have hplaces : (0 : ℚ) < 2 ^ f.places := by positivity
  have hdiff : f.value m k - a / b =
      -(((a * 2 ^ f.places : Nat) : ℚ) - (b * (m * 2 ^ k) : Nat)) / (b * 2 ^ f.places) := by
    rw [value]
    push_cast
    field_simp
    ring
  have hgap : ((gap (a * 2 ^ f.places) b (m * 2 ^ k) : Nat) : ℚ) =
      |((a * 2 ^ f.places : Nat) : ℚ) - (b * (m * 2 ^ k) : Nat)| := by
    rw [gap, Nat.cast_natAbs, Int.cast_abs, Int.cast_sub, Int.cast_natCast, Int.cast_natCast]
  rw [hdiff, abs_div, abs_neg, ← hgap, abs_of_pos (mul_pos hbq hplaces)]

theorem shiftFor_bounds (hp : 0 < f.precision) (a b : Nat) :
    a * 2 ^ f.places / b < 2 ^ (f.precision + f.shiftFor a b) ∧
      (f.shiftFor a b = 0 ∨
        2 ^ (f.precision - 1 + f.shiftFor a b) ≤ a * 2 ^ f.places / b) := by
  have hlt := Nat.lt_log2_self (n := a * 2 ^ f.places / b)
  have hshift : f.shiftFor a b = Nat.log2 (a * 2 ^ f.places / b) + 1 - f.precision := rfl
  refine ⟨Nat.lt_of_lt_of_le hlt (Nat.pow_le_pow_right (by decide) (by omega)), ?_⟩
  rcases Nat.eq_zero_or_pos (f.shiftFor a b) with h0 | hpos
  · exact Or.inl h0
  · have hlog : f.precision - 1 + f.shiftFor a b = Nat.log2 (a * 2 ^ f.places / b) := by omega
    have hne : a * 2 ^ f.places / b ≠ 0 := by
      intro h0
      rw [hshift, h0, Nat.log2_zero] at hpos
      omega
    rw [hlog]
    exact Or.inr (Nat.log2_self_le hne)

/-- Rounding to a multiple of the shift may reach the next power of two; the mantissa is halved
then. -/
theorem round?_cases (h : f.round? a b = some (m, k)) :
    let n := roundDiv (a * 2 ^ f.places) (b * 2 ^ f.shiftFor a b)
    n = 2 ^ f.precision ∧ m = 2 ^ (f.precision - 1) ∧ k = f.shiftFor a b + 1 ∨
      n ≠ 2 ^ f.precision ∧ m = n ∧ k = f.shiftFor a b := by
  simp only [round?, Nat.pow_eq] at h
  obtain ⟨-, hmk⟩ := Option.ite_none_right_eq_some.mp h
  obtain ⟨rfl, rfl⟩ := Prod.mk.inj (Option.some.inj hmk)
  split
  · next hcarry => exact Or.inl ⟨hcarry, rfl, rfl⟩
  · next hcarry => exact Or.inr ⟨hcarry, rfl, rfl⟩

theorem exists_of_round? (hp : 1 < f.precision) (h : f.round? a b = some (m, k)) :
    ∃ n, n = roundDiv (a * 2 ^ f.places) (b * 2 ^ f.shiftFor a b) ∧
      m * 2 ^ k = n * 2 ^ f.shiftFor a b ∧ (n % 2 = 0 → m % 2 = 0) ∧
      m < 2 ^ f.precision ∧ (k = 0 ∨ 2 ^ (f.precision - 1) ≤ m) := by
  have hpow : 2 ^ f.precision = 2 * 2 ^ (f.precision - 1) := by
    rw [← Nat.pow_succ', Nat.succ_eq_add_one, Nat.sub_add_cancel (Nat.le_of_lt hp)]
  rcases round?_cases h with ⟨hn, rfl, rfl⟩ | ⟨hn, rfl, rfl⟩
  · have heven : 2 ^ (f.precision - 1) % 2 = 0 := by
      obtain ⟨e, he⟩ := Nat.exists_eq_add_of_lt hp
      rw [he, Nat.add_sub_cancel, Nat.add_comm, Nat.pow_succ, Nat.mul_mod_left]
    have hpos : 0 < 2 ^ (f.precision - 1) := Nat.two_pow_pos _
    refine ⟨_, rfl, ?_, fun _ => heven, by omega, Or.inr (Nat.le_refl _)⟩
    rw [hn, hpow, Nat.pow_succ]
    ring
  · obtain ⟨hfits, hleast⟩ := f.shiftFor_bounds (Nat.lt_of_succ_lt hp) a b
    have hshift : 0 < 2 ^ f.shiftFor a b := Nat.two_pow_pos _
    rw [Nat.pow_add, ← Nat.div_lt_iff_lt_mul hshift, Nat.div_div_eq_div_mul] at hfits
    rw [Nat.pow_add, ← Nat.le_div_iff_mul_le hshift, Nat.div_div_eq_div_mul] at hleast
    have hcases := roundDiv_cases (a * 2 ^ f.places) (b * 2 ^ f.shiftFor a b)
    exact ⟨_, rfl, rfl, id, by omega, by omega⟩

theorem gap_mul (a b n c : Nat) : gap a b (n * c) = gap a (b * c) n := by
  rw [gap, gap, Nat.mul_comm n, Nat.mul_assoc]

/-- Another number of the format is a multiple of the shift, or such a multiple is nearer. -/
theorem exists_multiple (hp : 0 < f.precision) (hb : 0 < b) (hm : m < 2 ^ f.precision) (k : Nat) :
    ∃ n, m * 2 ^ k = n * 2 ^ f.shiftFor a b ∨
      gap (a * 2 ^ f.places) b (n * 2 ^ f.shiftFor a b) <
        gap (a * 2 ^ f.places) b (m * 2 ^ k) := by
  rcases Nat.lt_or_ge k (f.shiftFor a b) with hk | hk
  · -- the least number with the shift, which the fraction reaches
    refine ⟨2 ^ (f.precision - 1), Or.inr ?_⟩
    have hreach := (f.shiftFor_bounds hp a b).2.resolve_left (Nat.ne_zero_of_lt hk)
    rw [Nat.le_div_iff_mul_le hb, Nat.pow_add, Nat.mul_comm _ b] at hreach
    have hbelow : m * 2 ^ k < 2 ^ (f.precision - 1) * 2 ^ f.shiftFor a b := by
      calc m * 2 ^ k < 2 ^ f.precision * 2 ^ k := Nat.mul_lt_mul_of_pos_right hm (Nat.two_pow_pos k)
        _ = 2 ^ (f.precision + k) := (Nat.pow_add ..).symm
        _ ≤ 2 ^ (f.precision - 1 + f.shiftFor a b) := Nat.pow_le_pow_right (by decide) (by omega)
        _ = 2 ^ (f.precision - 1) * 2 ^ f.shiftFor a b := Nat.pow_add ..
    have hscaled := Nat.mul_lt_mul_of_pos_left hbelow hb
    unfold gap
    omega
  · refine ⟨m * 2 ^ (k - f.shiftFor a b), Or.inl ?_⟩
    rw [Nat.mul_assoc, ← Nat.pow_add, Nat.sub_add_cancel hk]

/-- **Correct rounding.** -/
theorem nearest_of_round? (hp : 1 < f.precision) (hb : 0 < b) (h : f.round? a b = some (m, k)) :
    f.Nearest (a / b) m k := by
  obtain ⟨n, hn, hvalue, heven, hfits, hleast⟩ := exists_of_round? hp h
  have hscale : 0 < b * 2 ^ f.shiftFor a b := Nat.mul_pos hb (Nat.two_pow_pos _)
  have hunit : (0 : ℚ) < b * 2 ^ f.places := mul_pos (Nat.cast_pos.mpr hb) (by positivity)
  have hgap (j : Nat) := roundDiv_nearest (a * 2 ^ f.places) hscale j
  rw [← hn] at hgap
  have hsame {m' k' : Nat} (he : m' * 2 ^ k' = m * 2 ^ k) : f.value m' k' = f.value m k := by
    have hcast := congrArg (Nat.cast (R := ℚ)) he
    push_cast at hcast
    rw [value, value, hcast]
  refine ⟨hfits, hleast, fun m' k' hm' => ?_, fun m' k' hm' heq => ?_⟩
  · rw [abs_value_sub f a m k hb, abs_value_sub f a m' k' hb, div_le_div_iff_of_pos_right hunit,
      Nat.cast_le, hvalue]
    obtain ⟨j, hj | hj⟩ := exists_multiple (a := a) (Nat.lt_of_succ_lt hp) hb hm' k'
    · rw [hj, gap_mul, gap_mul]
      exact (hgap j).1
    · rw [gap_mul] at hj ⊢
      exact Nat.le_trans (hgap j).1 (Nat.le_of_lt hj)
  · rw [abs_value_sub f a m k hb, abs_value_sub f a m' k' hb, div_left_inj' (ne_of_gt hunit),
      Nat.cast_inj, hvalue] at heq
    obtain ⟨j, hj | hj⟩ := exists_multiple (a := a) (Nat.lt_of_succ_lt hp) hb hm' k'
    · rw [hj, gap_mul, gap_mul] at heq
      rcases (hgap j).2 heq with rfl | hn
      · exact Or.inl (hsame (hj.trans hvalue.symm))
      · exact Or.inr (heven hn)
    · rw [heq, gap_mul, gap_mul] at hj
      exact absurd (hgap j).1 (Nat.not_le_of_gt hj)

end BinaryFormat
end LanguageService
