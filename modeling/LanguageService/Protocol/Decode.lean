import LanguageService.Editor.Color
import LanguageService.Editor.Completion
import LanguageService.Source.Diagnostic
import LanguageService.Workspace.Document

/-!
# What an editor sends

Every value that an editor sends is read by a function `ofJson?`, which gives nothing where a field
is missing or of the wrong type.  Fields of no importance are passed over.

* `Json.need`, `Json.mayHave`, `Json.listOf?`   reading fields and lists
* `Diagnostic.ofJson?`, `CompletionItem.ofJson?`, `Change.ofJson?`, …   reading values
-/

namespace LanguageService

namespace Json

/-- a field that has to be there -/
def need {α : Type} (j : Json) (name : String) (read : Json → Option α) : Option α :=
  (j.field? name).bind read

/-- a field that may be absent -/
def mayHave {α : Type} (j : Json) (name : String) (read : Json → Option α) : Option (Option α) :=
  match j.field? name with
  | none => some none
  | some v => (read v).map some

/-- a list, every item of which can be read -/
def listOf? {α : Type} (read : Json → Option α) (j : Json) : Option (List α) :=
  j.array?.bind fun items => items.mapM read

/-- a whole number from zero to `2 ^ 32 - 1` -/
def unsigned? : Json → Option Nat
  | int n => if 0 ≤ n ∧ n < 4294967296 then some n.toNat else none
  | _ => none

/-- a whole number from `-2 ^ 31` to `2 ^ 31 - 1` -/
def signed? : Json → Option Int
  | int n => if -2147483648 ≤ n ∧ n < 2147483648 then some n else none
  | _ => none

def text? (j : Json) : Option Line :=
  j.string?.map String.toList

end Json

def Position.ofJson? (j : Json) : Option Position := do
  let line ← j.need "line" Json.unsigned?
  let character ← j.need "character" Json.unsigned?
  return ⟨line, character⟩

def Range.ofJson? (j : Json) : Option Range := do
  let start ← j.need "start" Position.ofJson?
  let stop ← j.need "end" Position.ofJson?
  return ⟨start, stop⟩

def Location.ofJson? (j : Json) : Option Location := do
  let uri ← j.need "uri" Json.string?
  let range ← j.need "range" Range.ofJson?
  return ⟨uri, range⟩

def DiagnosticCode.ofJson? : Json → Option DiagnosticCode
  | .string s => some (.text s)
  | j => j.signed?.map .number

def RelatedInformation.ofJson? (j : Json) : Option RelatedInformation := do
  let location ← j.need "location" Location.ofJson?
  let message ← j.need "message" Json.string?
  return ⟨location, message⟩

def Diagnostic.ofJson? (j : Json) : Option Diagnostic := do
  let range ← j.need "range" Range.ofJson?
  let severity ← j.mayHave "severity" Json.signed?
  let code ← j.mayHave "code" DiagnosticCode.ofJson?
  let codeDescription ← j.mayHave "codeDescription" fun d => d.need "href" Json.string?
  let source ← j.mayHave "source" Json.string?
  let message ← j.need "message" Json.string?
  let relatedInformation ←
    j.mayHave "relatedInformation" (Json.listOf? RelatedInformation.ofJson?)
  let tags ← j.mayHave "tags" (Json.listOf? Json.signed?)
  return ⟨range, severity.map Severity.ofCode, code, codeDescription, source, message,
    relatedInformation, tags, j.field? "data"⟩

def Documentation.ofJson? : Json → Option Documentation
  | .string s => some (.plain s)
  | j => do
    let kind ← j.need "kind" Json.string?
    let value ← j.need "value" Json.string?
    return .markup kind value

namespace CompletionItem

/-- fields of an item that are kept as they are -/
def keptFields : List String :=
  ["labelDetails", "deprecated", "preselect", "sortText", "filterText", "insertTextMode",
    "textEdit", "additionalTextEdits", "command", "commitCharacters", "tags"]

def ofJson? (j : Json) : Option CompletionItem := do
  let label ← j.need "label" Json.string?
  let kind ← j.mayHave "kind" Json.signed?
  let detail ← j.mayHave "detail" Json.string?
  let documentation ← j.mayHave "documentation" Documentation.ofJson?
  let insertText ← j.mayHave "insertText" Json.string?
  let insertTextFormat ← j.mayHave "insertTextFormat" Json.signed?
  let further := keptFields.filterMap fun f => (j.field? f).map fun v => (f, v)
  return ⟨label, kind, detail, documentation, insertText, insertTextFormat, j.field? "data",
    further⟩

end CompletionItem

/-- A number is rounded to single precision; one with decimal places by way of double precision. -/
def Binary32.ofJson? : Json → Option Binary32
  | .int n => some (.ofRatio (n < 0) n.natAbs 1)
  | .real d => some (.ofRatioByDouble (d.mantissa < 0) d.mantissa.natAbs (Nat.pow 10 d.places))
  | _ => none

def Color.ofJson? (j : Json) : Option Color := do
  let red ← j.need "red" Binary32.ofJson?
  let green ← j.need "green" Binary32.ofJson?
  let blue ← j.need "blue" Binary32.ofJson?
  let alpha ← j.need "alpha" Binary32.ofJson?
  return ⟨red, green, blue, alpha⟩

def Change.ofJson? (j : Json) : Option Change := do
  let range ← j.mayHave "range" Range.ofJson?
  let text ← j.need "text" Json.text?
  return ⟨range, text⟩

end LanguageService
