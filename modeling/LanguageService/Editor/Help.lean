import LanguageService.Language.Manual
import LanguageService.Language.Signature
import LanguageService.Source.Word

/-!
# Help at the cursor

* `hoverAt? lines p`        the page of the manual on the word under the cursor
* `OpenCall`, `openCall? l` the innermost call that is open at the end of a text
* `signatureAt? lines p`    its signature, and which argument the cursor is in
-/

namespace LanguageService

structure Hover where
  page : String
  range : Range
deriving DecidableEq, Repr

def hoverAt? (lines : List Line) (p : Position) : Option Hover :=
  (wordAt lines p).bind fun w => (manualPage? w.word).map fun page => ⟨page, w.range⟩

/-- Searches a text backwards for the parenthesis that is open at its end.  The text is read from
its end, past `depth` unmatched closing parentheses and the text `args`; what comes back is the
text before the parenthesis, still backwards, and the text behind it. -/
def openParen? (depth : Nat) (args : Line) : Line → Option (Line × Line)
  | [] => none
  | c :: rest =>
    if c = ')' then openParen? (depth + 1) (c :: args) rest
    else if c = '(' then
      match depth with
      | 0 => some (rest, args)
      | d + 1 => openParen? d (c :: args) rest
    else openParen? depth (c :: args) rest

/-- A call under way: the called name and the arguments written so far. -/
structure OpenCall where
  name : String
  args : Line
deriving DecidableEq, Repr

/-- The innermost call open at the end of a text; a parenthesis behind no name opens none. -/
def openCall? (l : Line) : Option OpenCall :=
  match openParen? 0 [] l.reverse with
  | none => none
  | some (before, args) =>
    let name := ((before.dropWhile isBlank).takeWhile isNameChar).reverse
    if name.isEmpty then none else some ⟨String.ofList name, args⟩

structure SignatureHelp where
  signature : Signature
  activeParameter : Nat
deriving DecidableEq, Repr

def signatureAt? (lines : List Line) (p : Position) : Option SignatureHelp :=
  match lines[p.line]? with
  | none => none
  | some l =>
    (openCall? (l.take (place l p.character))).bind fun c =>
      (signature? c.name).map fun s => ⟨s, c.args.count ','⟩

end LanguageService
