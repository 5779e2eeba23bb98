import LanguageService.Source.Symbol
import LanguageService.Source.Word
import LanguageService.Text.Edit

/-!
# From a name to its places

All look-ups are searches over the lines of the document, comments included.

* `occurrences lines name`    every place where the name stands as a whole word
* `declarationOf? lines name` the place where it is declared first
* `definitionAt?`, `referencesAt`, `usesAt`, `highlightsAt`   the same for the word under the cursor
* `renameTarget?`, `rename?`  renaming the word under the cursor; reserved words are refused
-/

namespace LanguageService

/-- the places in document order -/
def occurrences (lines : List Line) (name : String) : List Range :=
  (numberLines lines).flatMap fun l =>
    ((Shape.word name).all l.text).map fun m => m.span.range l.number l.text

/-- the name in a declaration of it on one line -/
def declaredSpan? (name : String) (l : Line) : Option Span :=
  ((Shape.declaration name).first? l).bind fun m => (m.group? 1).or (m.group? 2)

/-- the name in the first line that declares it -/
def declarationOf? (lines : List Line) (name : String) : Option Range :=
  (numberLines lines).findSome? fun l =>
    (declaredSpan? name l.text).map fun s => s.range l.number l.text

def definitionAt? (lines : List Line) (p : Position) : Option Range :=
  (wordAt lines p).bind fun w => declarationOf? lines w.word

/-- every occurrence of the word under the cursor -/
def referencesAt (lines : List Line) (p : Position) : List Range :=
  match wordAt lines p with
  | none => []
  | some w => occurrences lines w.word

/-- every occurrence of the word under the cursor but its declaration -/
def usesAt (lines : List Line) (p : Position) : List Range :=
  match wordAt lines p with
  | none => []
  | some w =>
    let declared := declarationOf? lines w.word
    (occurrences lines w.word).filter fun r => some r != declared

inductive Access where
  | read
  | write
deriving DecidableEq, Repr

structure Highlight where
  range : Range
  access : Access
deriving DecidableEq, Repr

/-- The occurrences of the word under the cursor; its declaration is the one that writes. -/
def highlightsAt (lines : List Line) (p : Position) : List Highlight :=
  match wordAt lines p with
  | none => []
  | some w =>
    let declared := declarationOf? lines w.word
    (occurrences lines w.word).map fun r => ⟨r, if some r = declared then .write else .read⟩

/-- an ASCII letter or underscore followed by letters, digits and underscores -/
def isIdentifier (name : String) : Bool :=
  match name.toList with
  | [] => false
  | c :: rest => isNameStart c && rest.all isNameChar

/-- the word under the cursor, if it may be renamed -/
def renameTarget? (lines : List Line) (p : Position) : Option WordSite :=
  (wordAt lines p).filter fun w => !isReserved w.word

/-- The edits that rename the word under the cursor; none if it is reserved or the new name is no
identifier. -/
def rename? (lines : List Line) (p : Position) (newName : String) : Option (List TextEdit) :=
  match renameTarget? lines p with
  | none => none
  | some w =>
    if isIdentifier newName then
      some ((occurrences lines w.word).map fun r => ⟨r, newName.toList⟩)
    else none

end LanguageService
