import LanguageService.Protocol.Json
import LanguageService.Text.Position

/-!
# Diagnostics

A diagnostic is a remark on a range of a document, in the form in which editors exchange them.

* `Severity`, `DiagnosticCode`   how grave a remark is, and what names its rule
* `Diagnostic`                   a remark
* `Diagnostic.rule?`             its code, if the code is a text
-/

namespace LanguageService

inductive Severity where
  | error
  | warning
  | information
  | hint
  /-- a severity that no rule of this library uses -/
  | other (code : Int)
deriving DecidableEq, Repr

namespace Severity

def code : Severity → Int
  | error => 1
  | warning => 2
  | information => 3
  | hint => 4
  | other n => n

def ofCode (n : Int) : Severity :=
  if n = 1 then error else if n = 2 then warning else if n = 3 then information
  else if n = 4 then hint else other n

end Severity

inductive DiagnosticCode where
  | number (n : Int)
  | text (s : String)
deriving DecidableEq, Repr

/-- A range of some document. -/
structure Location where
  uri : String
  range : Range
deriving DecidableEq, Repr

/-- A further place that a diagnostic refers to. -/
structure RelatedInformation where
  location : Location
  message : String
deriving DecidableEq, Repr

structure Diagnostic where
  range : Range
  severity : Option Severity
  code : Option DiagnosticCode
  /-- the address of a text on the code -/
  codeDescription : Option String
  source : Option String
  message : String
  relatedInformation : Option (List RelatedInformation)
  /-- 1 marks unnecessary code, 2 deprecated code -/
  tags : Option (List Int)
  data : Option Json

/-- the code of a diagnostic, if it is a text -/
def Diagnostic.rule? (d : Diagnostic) : Option String :=
  match d.code with
  | some (.text s) => some s
  | _ => none

end LanguageService
