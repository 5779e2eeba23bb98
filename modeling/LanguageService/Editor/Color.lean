import LanguageService.Number.Numeral
import LanguageService.Source.CodeLine
import LanguageService.Language.Shape
import LanguageService.Text.Edit

/-!
# Colors

Colors are written `#RGB`, `#RRGGBB`, `rgb(r, g, b)` or `rgba(r, g, b, a)`.

* `Color`                    four channels
* `documentColors lines`     the colors written in a document, those of each line together, the
                             hexadecimal ones first
* `colorLabels c`            the ways in which a color can be written
-/

namespace LanguageService

structure Color where
  red : Binary32
  green : Binary32
  blue : Binary32
  alpha : Binary32
deriving DecidableEq, Repr

structure DocumentColor where
  range : Range
  color : Color
deriving DecidableEq, Repr

/-- six or three hexadecimal digits behind a hash, up to the end of a word -/
def hexColorText : Pattern :=
  .inOrder [.literal ['#'],
    .group 1 (.alt (.times 6 (.one isHexDigit)) (.times 3 (.one isHexDigit))), .wordEdge]

/-- one to three digits -/
def channelText : Pattern :=
  .seq (.one isDecimal) (.optional (.seq (.one isDecimal) (.optional (.one isDecimal))))

/-- digits, perhaps with a point before the last of them -/
def alphaText : Pattern :=
  .inOrder [.many isDecimal, .optional (.literal ['.']), .many1 isDecimal]

/-- a comma with any white space around it -/
def separator : Pattern :=
  .inOrder [blanks, .literal [','], blanks]

/-- `rgb(r, g, b)` and `rgba(r, g, b, a)`, either with three or four channels -/
def rgbColorText : Pattern :=
  .inOrder [.wordEdge, .literal "rgb".toList, .optional (.literal ['a']), .literal ['('], blanks,
    .group 1 channelText, separator, .group 2 channelText, separator, .group 3 channelText, blanks,
    .optional (.inOrder [.literal [','], blanks, .group 4 alphaText, blanks]), .literal [')']]

/-- the value of a hexadecimal digit -/
def hexValue (c : Char) : Nat :=
  if isAsciiDigit c then c.toNat - '0'.toNat
  else if 'a' ≤ c then c.toNat - 'a'.toNat + 10
  else c.toNat - 'A'.toNat + 10

/-- The color of three pairs of digits; a short form doubles each of its three. -/
def hexColor? : Line → Option Color
  | [r, g, b] => some (ofPairs r r g g b b)
  | [r, r', g, g', b, b'] => some (ofPairs r r' g g' b b')
  | _ => none
where
  ofPairs (r r' g g' b b' : Char) : Color :=
    let channel := fun x y => Binary32.ofByte (hexValue x * 16 + hexValue y)
    ⟨channel r r', channel g g', channel b b', .one⟩

/-- A channel that is written in ASCII digits; more than 255 counts as 255. -/
def rgbChannel? (digits : Line) : Option Binary32 :=
  if digits.all isAsciiDigit then some (Binary32.ofByte (min (decimalNat digits) 255)) else none

/-- the opacity between zero and one; what cannot be read is opaque -/
def alphaChannel (text : Line) : Binary32 :=
  match Binary32.parse? text with
  | some a => a.clamp .zero .one
  | none => .one

def rgbColor? (m : Match) (l : Line) : Option Color :=
  let channel := fun i => rgbChannel? ((m.group i).chars l)
  match channel 1, channel 2, channel 3 with
  | some r, some g, some b =>
    some ⟨r, g, b, (m.group? 4).elim .one fun s => alphaChannel (s.chars l)⟩
  | _, _, _ => none

/-- the colors on a line -/
def colorsOnLine (l : NumberedLine) : List DocumentColor :=
  let found := fun (m : Match) (c : Option Color) =>
    c.map fun c => (⟨m.span.range l.number l.text, c⟩ : DocumentColor)
  (hexColorText.all l.text).filterMap (fun m => found m (hexColor? ((m.group 1).chars l.text))) ++
    (rgbColorText.all l.text).filterMap fun m => found m (rgbColor? m l.text)

def documentColors (lines : List Line) : List DocumentColor :=
  (numberLines lines).flatMap colorsOnLine

/-- a capital hexadecimal digit -/
def hexDigit (n : Nat) : Char :=
  if n < 10 then Char.ofNat ('0'.toNat + n) else Char.ofNat ('A'.toNat + (n - 10))

/-- a byte as two hexadecimal digits -/
def hexByte (n : Nat) : Line :=
  [hexDigit (n / 16), hexDigit (n % 16)]

def hexLabel (r g b : Nat) : String :=
  String.ofList ('#' :: (hexByte r ++ hexByte g ++ hexByte b))

def rgbLabel (r g b : Nat) : String :=
  "rgb(" ++ toString r ++ ", " ++ toString g ++ ", " ++ toString b ++ ")"

def rgbaLabel (r g b : Nat) (alpha : Binary32) : String :=
  "rgba(" ++ toString r ++ ", " ++ toString g ++ ", " ++ toString b ++ ", " ++ alpha.toText ++ ")"

/-- The ways in which a color can be written; the one with an opacity only if it is not opaque. -/
def colorLabels (c : Color) : List String :=
  let r := c.red.toByte
  let g := c.green.toByte
  let b := c.blue.toByte
  [hexLabel r g b, rgbLabel r g b] ++
    if c.alpha.lt .one then [rgbaLabel r g b c.alpha] else []

end LanguageService
