import LanguageService.Language.Signature
import LanguageService.Source.CodeLine
import LanguageService.Language.Shape

/-!
# Inlay hints

* `literalType? rhs`        the type of a value that is written as a literal
* `typeHint? l`             the type of the variable that a line declares
* `parameterHints l`        the names of the parameters in front of the arguments of known functions
* `inlayHints lines r`      the hints of the code lines that a range touches
-/

namespace LanguageService

inductive HintKind where
  | type
  | parameter
deriving DecidableEq, Repr

structure InlayHint where
  position : Position
  label : String
  kind : HintKind
deriving DecidableEq, Repr

/-- one or more ASCII digits -/
def isDigits (l : Line) : Bool :=
  !l.isEmpty && l.all isAsciiDigit

/-- the text before the first `//`, without blank margins -/
def valueText (rhs : Line) : Line :=
  trim (rhs.take ((indexOf? lineComment rhs).getD rhs.length))

/-- digits, or digits with a fraction -/
def numberType? (l : Line) : Option String :=
  let whole := l.takeWhile (· != '.')
  match l.dropWhile (· != '.') with
  | [] => if isDigits whole then some "int" else none
  | _ :: fraction => if isDigits whole && isDigits fraction then some "float" else none

/-- does the text begin with the word `func`? -/
def beginsFunction (l : Line) : Bool :=
  functionKeyword.toList.isPrefixOf l &&
    !(l.drop functionKeyword.toList.length).head?.any isNameChar

/-- the type of a value from the way it begins, or from the whole of it -/
def literalType? (rhs : Line) : Option String :=
  let value := valueText rhs
  match value with
  | [] => none
  | c :: rest =>
    if c = '"' ∨ c = '\'' then some "string"
    else if c = '[' then some "array"
    else if c = '{' then some "map"
    else if value = "true".toList ∨ value = "false".toList then some "bool"
    else if beginsFunction value then some "function"
    else if c = '-' then numberType? rest
    else numberType? value

def typeHint? (l : NumberedLine) : Option InlayHint :=
  match Shape.anyVariable.first? l.text with
  | none => none
  | some m =>
    (literalType? (l.text.drop m.span.stop)).map fun ty =>
      ⟨⟨l.number, column l.text (m.group 1).stop⟩, ": " ++ ty, .type⟩

/-- the pieces of a text between commas -/
def splitAtCommas : Line → List Line
  | [] => [[]]
  | c :: rest =>
    if c = ',' then [] :: splitAtCommas rest
    else match splitAtCommas rest with
      | [] => [[c]]
      | l :: ls => (c :: l) :: ls

/-- The places where the arguments begin that are not blank, each with its parameter; `k` is the
place of the first argument. -/
def argumentPlaces (k : Nat) : List Line → List String → List (Nat × String)
  | arg :: args, param :: params =>
    (if isBlankLine arg then [] else [(k + indentWidth arg, param)]) ++
      argumentPlaces (k + arg.length + 1) args params
  | _, _ => []

/-- the hints of one call -/
def callHints (l : NumberedLine) (m : Match) : List InlayHint :=
  let name := (m.group 1).text l.text
  if hintedBuiltins.contains name then
    match signature? name with
    | none => []
    | some s =>
      let args := (l.text.drop m.span.stop).takeWhile (· != ')')
      (argumentPlaces m.span.stop (splitAtCommas args) s.parameters).map fun a =>
        ⟨⟨l.number, column l.text a.1⟩, a.2 ++ ":", .parameter⟩
  else []

def parameterHints (l : NumberedLine) : List InlayHint :=
  (Shape.anyCall.all l.text).flatMap (callHints l)

def inlayHints (lines : List Line) (r : Range) : List InlayHint :=
  ((codeLines lines).filter fun l => r.start.line ≤ l.number && l.number ≤ r.stop.line).flatMap
    fun l => (typeHint? l).toList ++ parameterHints l

end LanguageService
