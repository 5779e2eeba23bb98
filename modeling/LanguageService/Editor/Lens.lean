import LanguageService.Source.CodeLine
import LanguageService.Language.Shape

/-!
# Reference counts

Above every function declaration an editor shows how many other lines call the function.  All
lines are searched, comments included.

* `ReferenceLens`          a declared name and the number of other lines that call it
* `referenceLenses lines`  one for each line that declares a function
-/

namespace LanguageService

structure ReferenceLens where
  range : Range
  count : Nat
deriving DecidableEq, Repr

def ReferenceLens.title (l : ReferenceLens) : String :=
  toString l.count ++ " reference" ++ if l.count = 1 then "" else "s"

/-- the number of lines other than line `n` that call a name -/
def callingLines (lines : List Line) (name : String) (n : Nat) : Nat :=
  ((numberLines lines).filter fun l => l.number != n && (Shape.call name).occurs l.text).length

def referenceLens? (lines : List Line) (l : NumberedLine) : Option ReferenceLens :=
  (Shape.anyFunction.first? l.text).map fun m =>
    ⟨(m.group 1).range l.number l.text, callingLines lines ((m.group 1).text l.text) l.number⟩

def referenceLenses (lines : List Line) : List ReferenceLens :=
  (numberLines lines).filterMap (referenceLens? lines)

end LanguageService
