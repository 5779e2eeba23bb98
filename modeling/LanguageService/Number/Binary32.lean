import LanguageService.Number.Binary

/-!
# Single precision numbers

* `Binary32`              a single precision number, an infinity, or no number
* `Binary32.ofRatio`      the number nearest to a fraction
* `Binary32.lt`, `Binary32.clamp`, `Binary32.times`, `Binary32.toByte`   the operations on it
* `ofRatio_div_byte`      a byte divided by 255 is found again
-/

namespace LanguageService

/-- A finite number is `mantissa · 2 ^ shift / 2 ^ 149`, with the least shift for which the
mantissa has at most 24 binary digits. -/
inductive Binary32 where
  | nan
  | infinite (negative : Bool)
  | finite (negative : Bool) (mantissa shift : Nat)
deriving DecidableEq, Repr

namespace Binary32

/-- the number nearest to `± a / b` -/
def ofRatio (negative : Bool) (a b : Nat) : Binary32 :=
  match BinaryFormat.single.round? a b with
  | some (m, k) => finite negative m k
  | none => infinite negative

/-- The number nearest to that double precision number which is nearest to `± a / b`. -/
def ofRatioByDouble (negative : Bool) (a b : Nat) : Binary32 :=
  match BinaryFormat.double.round? a b with
  | some (m, k) => ofRatio negative (m * Nat.pow 2 k) (Nat.pow 2 BinaryFormat.double.places)
  | none => infinite negative

def zero : Binary32 := finite false 0 0

def one : Binary32 := ofRatio false 1 1

/-- the size of a finite number in units of `2 ^ -149` -/
def magnitude (m k : Nat) : Int :=
  (m * Nat.pow 2 k : Nat)

/-- Strictly less; no comparison with what is no number holds. -/
def lt : Binary32 → Binary32 → Bool
  | nan, _ | _, nan => false
  | infinite n, infinite n' => n && !n'
  | infinite n, finite .. => n
  | finite .., infinite n => !n
  | finite n m k, finite n' m' k' =>
    let a := if n then -magnitude m k else magnitude m k
    let b := if n' then -magnitude m' k' else magnitude m' k'
    a < b

/-- the nearest value between two bounds -/
def clamp (x lo hi : Binary32) : Binary32 :=
  if x.lt lo then lo else if hi.lt x then hi else x

/-- the product with a whole number other than zero -/
def times (x : Binary32) (n : Nat) : Binary32 :=
  match x with
  | finite s m k => ofRatio s (m * Nat.pow 2 k * n) (Nat.pow 2 BinaryFormat.single.places)
  | x => x

/-- the nearest whole number to a number that is not negative, halves going up; zero for a negative
number and for what is no number, 255 for all above -/
def toByteRounded : Binary32 → Nat
  | nan => 0
  | infinite n => if n then 0 else 255
  | finite true _ _ => 0
  | finite false m k => min 255 ((2 * (m * Nat.pow 2 k) + Nat.pow 2 149) / Nat.pow 2 150)

/-- a channel between zero and one as a byte -/
def toByte (x : Binary32) : Nat :=
  ((x.clamp zero one).times 255).toByteRounded

/-- a byte as a channel between zero and one -/
def ofByte (n : Nat) : Binary32 :=
  ofRatio false n 255

theorem toByte_ofByte : ∀ n < 256, toByte (ofByte n) = n := by
  decide +kernel

end Binary32
end LanguageService
