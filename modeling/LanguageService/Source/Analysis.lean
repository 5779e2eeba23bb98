import LanguageService.Source.Problem

/-!
# The analysis of a document

* `Analysis`          the lines of a text with what is known about them
* `Analysis.of text`  the analysis of a text
-/

namespace LanguageService

structure Analysis where
  lines : List Line
  symbols : SymbolTable
  findings : List Finding
  ending : LineEnding
deriving DecidableEq, Repr

namespace Analysis

def of (text : Line) : Analysis :=
  let lines := splitLines text
  let symbols := indexSymbols lines
  ⟨lines, symbols, LanguageService.findings lines symbols, LineEnding.of text⟩

def diagnostics (a : Analysis) : List Diagnostic :=
  a.findings.map Finding.diagnostic

/-- the whole of the document -/
def range (a : Analysis) : Range :=
  Range.ofLines a.lines

end Analysis
end LanguageService
