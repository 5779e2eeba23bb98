import LanguageService.Source.Analysis
import LanguageService.Text.Break

/-!
# Documents under edit

* `Change`                 a new text for a range, or for the whole of a document
* `Change.apply`           a text after a change
* `Document`               a text with its version, and always with its own analysis
-/

namespace LanguageService

/-- Without a range, the whole text is replaced. -/
structure Change where
  range : Option Range
  text : Line
deriving DecidableEq, Repr

/-- A range that ends before it starts is empty at its start. -/
def Change.apply (c : Change) (text : Line) : Line :=
  match c.range with
  | none => c.text
  | some r =>
    let a := charOffset text r.start
    let b := max a (charOffset text r.stop)
    text.take a ++ c.text ++ text.drop b

/-- the text after several changes, one after the other -/
def applyChanges (text : Line) (changes : List Change) : Line :=
  changes.foldl (fun t c => c.apply t) text

structure Document where
  uri : String
  version : Int
  text : Line
  analysis : Analysis := Analysis.of text
  analysis_eq : analysis = Analysis.of text := by rfl

namespace Document

/-- the document of a text -/
def new (uri : String) (text : Line) (version : Int) : Document where
  uri := uri
  version := version
  text := text

def lines (d : Document) : List Line :=
  d.analysis.lines

end Document
end LanguageService
