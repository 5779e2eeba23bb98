import LanguageService.Number.Binary32
import LanguageService.Text.Trim

/-!
# Written numbers

* `Binary32.toText x`     the shortest positional decimal that is read as `x`
* `Binary32.parse? l`     the number nearest to a written decimal
* `decimalNat`            the value of a list of digits
-/

namespace LanguageService

/-- the value of ASCII digits -/
def decimalNat (digits : Line) : Nat :=
  digits.foldl (fun n c => n * 10 + (c.toNat - '0'.toNat)) 0

/-- the digits of a whole number -/
def decimalDigits (n : Nat) : Line :=
  Nat.toDigits 10 n

/-- `c · 10 ^ -p` written out; the digits after the point are as many as `p` -/
def pointed (c p : Nat) : Line :=
  if p = 0 then decimalDigits c
  else
    let digits := decimalDigits c
    let padded := List.replicate (p + 1 - digits.length) '0' ++ digits
    padded.take (padded.length - p) ++ ['.'] ++ padded.drop (padded.length - p)

namespace Binary32

/-- A step of a decimal grid: `10 ^ exponent` as a fraction. -/
structure GridStep where
  num : Nat
  den : Nat

def gridStep (exponent : Int) : GridStep :=
  match exponent with
  | .ofNat p => ⟨Nat.pow 10 p, 1⟩
  | .negSucc p => ⟨1, Nat.pow 10 (p + 1)⟩

/-- The reals that are rounded to a number, in quarters of its last place: from `below` quarters
under it to two quarters above it. -/
def quartersBelow (m k : Nat) : Nat :=
  if m = Nat.pow 2 23 ∧ 0 < k then 1 else 2

/-- is `c` steps of the grid a decimal that is rounded to `m · 2 ^ k / 2 ^ 149`? -/
def readsBack (m k : Nat) (g : GridStep) (c : Nat) : Bool :=
  let point := c * g.num * Nat.pow 2 151
  let value := 4 * m * Nat.pow 2 k * g.den
  let low := value - quartersBelow m k * Nat.pow 2 k * g.den
  let high := value + 2 * Nat.pow 2 k * g.den
  if m % 2 = 0 then low ≤ point && point ≤ high else low < point && point < high

/-- The multiple of the grid step next to the value that reads back, the nearer one if both do. -/
def onGrid? (m k : Nat) (g : GridStep) : Option Nat :=
  let a := m * Nat.pow 2 k * g.den
  let b := g.num * Nat.pow 2 149
  let c := a / b
  let lower := readsBack m k g c
  let upper := readsBack m k g (c + 1)
  if lower && (!upper || 2 * (a % b) ≤ b) then some c
  else if upper then some (c + 1) else none

/-- the coarsest of the grids `10 ^ top`, `10 ^ (top - 1)`, … on which a decimal reads back -/
def coarsest? (m k : Nat) (top : Int) : Nat → Option (Nat × Int)
  | 0 => none
  | n + 1 =>
    match onGrid? m k (gridStep top) with
    | some c => some (c, top)
    | none => coarsest? m k (top - 1) n

/-- the digits of a positive number, and the exponent of ten that goes with them -/
def shortestDecimal (m k : Nat) : Nat × Int :=
  (coarsest? m k 38 100).getD (0, 0)

def toText : Binary32 → String
  | nan => "NaN"
  | infinite negative => if negative then "-inf" else "inf"
  | finite negative m k =>
    let (c, e) := if m = 0 then (0, 0) else shortestDecimal m k
    let digits := match e with
      | .ofNat p => decimalDigits (c * Nat.pow 10 p)
      | .negSucc p => pointed c (p + 1)
    String.ofList (if negative then '-' :: digits else digits)

/-- The number nearest to `± n · 10 ^ e`; beyond the powers of ten that the format reaches, the
result is infinite or zero. -/
def ofDecimal (negative : Bool) (n : Nat) (e : Int) : Binary32 :=
  let size := (decimalDigits n).length + e
  if n = 0 ∨ size < -60 then finite negative 0 0
  else if 60 < size then infinite negative
  else match e with
    | .ofNat p => ofRatio negative (n * Nat.pow 10 p) 1
    | .negSucc p => ofRatio negative n (Nat.pow 10 (p + 1))

/-- an exponent, perhaps with a sign; digits only, and at least one -/
def exponent? (l : Line) : Option Int :=
  let (negative, digits) := match l with
    | '-' :: rest => (true, rest)
    | '+' :: rest => (false, rest)
    | l => (false, l)
  if !digits.isEmpty && digits.all isAsciiDigit then
    some (if negative then -(decimalNat digits : Int) else decimalNat digits)
  else none

/-- Digits with at most one point among them and perhaps an exponent behind them. -/
def unsigned? (negative : Bool) (l : Line) : Option Binary32 :=
  let isMark := fun c => c == 'e' || c == 'E'
  let number := l.takeWhile fun c => !isMark c
  let whole := number.takeWhile (· != '.')
  let fraction := (number.dropWhile (· != '.')).drop 1
  if (whole ++ fraction).isEmpty || !(whole ++ fraction).all isAsciiDigit then none
  else
    let e := match l.dropWhile fun c => !isMark c with
      | [] => some 0
      | _ :: rest => exponent? rest
    e.map fun e => ofDecimal negative (decimalNat (whole ++ fraction)) (e - fraction.length)

/-- Reads a decimal, or the words for infinity and for what is no number in any case of letters. -/
def parse? (l : Line) : Option Binary32 :=
  let (negative, body) := match l with
    | '-' :: rest => (true, rest)
    | '+' :: rest => (false, rest)
    | l => (false, l)
  let word := String.ofList (body.map Char.toLower)
  if word = "inf" ∨ word = "infinity" then some (infinite negative)
  else if word = "nan" then some nan
  else unsigned? negative body

end Binary32
end LanguageService
