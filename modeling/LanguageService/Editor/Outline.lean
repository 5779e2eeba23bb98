import LanguageService.Source.Symbol
import LanguageService.Text.Lowercase
import LanguageService.Text.Search

/-!
# Outlines

* `OutlineEntry`              a declaration with the line it stands on
* `outline lines`             every declaration of a document, comments included
* `findSymbols docs query`    the declarations of several documents whose name contains a text,
                              in any case of letters
-/

namespace LanguageService

structure OutlineEntry where
  name : String
  kind : SymbolKind
  detail : Line
  range : Range
  nameRange : Range
deriving DecidableEq, Repr

def outlineOfLine (l : NumberedLine) : List OutlineEntry :=
  (Declaration.onLine l.text).map fun d =>
    ⟨d.name, d.kind, trim l.text, Range.ofLine l.number l.text, d.span.range l.number l.text⟩

def outline (lines : List Line) : List OutlineEntry :=
  (numberLines lines).flatMap outlineOfLine

/-- does the name contain the query, in any case of letters? -/
def matchesQuery (query : Line) (name : String) : Bool :=
  occursIn (lowercase query) (lowercase name.toList)

/-- An outline entry and the document it belongs to. -/
structure FoundSymbol where
  uri : String
  entry : OutlineEntry
deriving DecidableEq, Repr

def findSymbols (docs : List (String × List Line)) (query : Line) : List FoundSymbol :=
  docs.flatMap fun d =>
    ((outline d.2).filter fun e => matchesQuery query e.name).map fun e => ⟨d.1, e⟩

end LanguageService
