import LanguageService.Source.Problem
import LanguageService.Text.Edit

/-!
# Quick fixes

* `Remedy`                     an edit of the document, or a page of the manual to open
* `QuickFix`                   a remedy for a diagnostic
* `quickFix? lines d`          the remedy for a diagnostic, which is known by its code
* `quickFixes lines ds`        the remedies for several
-/

namespace LanguageService

inductive Remedy where
  | edit (e : TextEdit)
  | openManual (page : String)
deriving DecidableEq, Repr

structure QuickFix where
  title : String
  diagnostic : Diagnostic
  remedy : Remedy

/-- The position up to which a line is deleted: the start of the next line, or the end of the line
itself if it is the last one. -/
def lineDeletionEnd (lines : List Line) (n : Nat) : Position :=
  if n + 1 < lines.length then ⟨n + 1, 0⟩ else ⟨n, (lines[n]?.map width).getD 0⟩

/-- the name in the data of a diagnostic -/
def symbolName (d : Diagnostic) : String :=
  ((d.data.bind (Json.field? "symbol")).bind Json.string?).getD "symbol"

def declareFix (d : Diagnostic) : QuickFix where
  title := "Add '" ++ declarationKeyword ++ "' declaration"
  diagnostic := d
  remedy := .edit ⟨⟨d.range.start, d.range.start⟩, declarationKeyword.toList ++ [' ']⟩

def removeFix (lines : List Line) (d : Diagnostic) : QuickFix where
  title := "Remove unused '" ++ symbolName d ++ "'"
  diagnostic := d
  remedy := .edit ⟨⟨⟨d.range.start.line, 0⟩, lineDeletionEnd lines d.range.start.line⟩, []⟩

def manualFix (d : Diagnostic) : QuickFix where
  title := "Open function syntax documentation"
  diagnostic := d
  remedy := .openManual "functions"

def quickFix? (lines : List Line) (d : Diagnostic) : Option QuickFix :=
  match d.rule? with
  | some "missing-let" => some (declareFix d)
  | some "unused-symbol" => some (removeFix lines d)
  | some "invalid-function-syntax" => some (manualFix d)
  | _ => none

def quickFixes (lines : List Line) (ds : List Diagnostic) : List QuickFix :=
  ds.filterMap (quickFix? lines)

end LanguageService
