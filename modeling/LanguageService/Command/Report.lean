import LanguageService.Source.Analysis

/-!
# Reports on the command line

* `Diagnostic.render`       a diagnostic on one line, with line and column counted from one
* `errorCount`              the number of diagnostics that are errors
-/

namespace LanguageService

/-- the word for a severity; one that is missing or unknown is a hint -/
def Severity.word : Option Severity → String
  | some .error => "error"
  | some .warning => "warning"
  | some .information => "info"
  | _ => "hint"

def DiagnosticCode.render : DiagnosticCode → String
  | number n => "[" ++ toString n ++ "]"
  | text s => "[" ++ s ++ "]"

def Diagnostic.render (path : String) (d : Diagnostic) : String :=
  path ++ ":" ++ toString (d.range.start.line + 1) ++ ":" ++
    toString (d.range.start.character + 1) ++ ": " ++ Severity.word d.severity ++
    ((d.code.map DiagnosticCode.render).getD "") ++ ": " ++ d.message

def errorCount (ds : List Diagnostic) : Nat :=
  ds.countP fun d => d.severity = some .error

end LanguageService
