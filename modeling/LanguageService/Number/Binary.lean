/-!
# Rounding to a binary format

A binary floating point format holds the multiples of `2 ^ -places` whose leading digits fit into
its precision.  A fraction is rounded to the nearest of them, and halfway to the even one.

* `roundDiv a b`          the whole number nearest to `a / b`
* `BinaryFormat.round?`   a fraction rounded to a format, none if it is too large
-/

namespace LanguageService

/-- the whole number nearest to a fraction; halfway between two, the even one -/
def roundDiv (a b : Nat) : Nat :=
  if b < 2 * (a % b) ∨ (2 * (a % b) = b ∧ a / b % 2 = 1) then a / b + 1 else a / b

/-- A format whose numbers are `mantissa · 2 ^ shift / 2 ^ places`, with a mantissa of at most
`precision` binary digits and a shift of at most `maxShift`. -/
structure BinaryFormat where
  precision : Nat
  places : Nat
  maxShift : Nat

namespace BinaryFormat

/-- single precision -/
def single : BinaryFormat := ⟨24, 149, 253⟩

/-- double precision -/
def double : BinaryFormat := ⟨53, 1074, 2045⟩

/-- the least shift at which the whole part of `a / b`, in units of the format, fits -/
def shiftFor (f : BinaryFormat) (a b : Nat) : Nat :=
  Nat.log2 (a * Nat.pow 2 f.places / b) + 1 - f.precision

/-- Mantissa and shift of the number of the format nearest to `a / b`. -/
def round? (f : BinaryFormat) (a b : Nat) : Option (Nat × Nat) :=
  let k := f.shiftFor a b
  let m := roundDiv (a * Nat.pow 2 f.places) (b * Nat.pow 2 k)
  let (m, k) := if m = Nat.pow 2 f.precision then (Nat.pow 2 (f.precision - 1), k + 1) else (m, k)
  if k ≤ f.maxShift then some (m, k) else none

end BinaryFormat

end LanguageService
