import LanguageService.Text.Position

/-!
# The word under the cursor

* `wordSpan l k`        the run of name characters that touches place `k` of a line
* `wordAt lines p`      the word that touches a position, with its range
-/

namespace LanguageService

/-- the name characters on both sides of a place -/
def wordSpan (l : Line) (k : Nat) : Span :=
  ⟨k - ((l.take k).reverse.takeWhile isNameChar).length,
    k + ((l.drop k).takeWhile isNameChar).length⟩

/-- A word of the document and where it stands. -/
structure WordSite where
  word : String
  range : Range
deriving DecidableEq, Repr

def wordAt (lines : List Line) (p : Position) : Option WordSite :=
  match lines[p.line]? with
  | none => none
  | some l =>
    let s := wordSpan l (place l p.character)
    if s.start = s.stop then none else some ⟨s.text l, s.range p.line l⟩

end LanguageService
