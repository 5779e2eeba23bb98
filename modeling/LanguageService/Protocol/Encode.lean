import LanguageService.Editor.Call
import LanguageService.Editor.Color
import LanguageService.Editor.Completion
import LanguageService.Editor.Folding
import LanguageService.Editor.Help
import LanguageService.Editor.InlayHint
import LanguageService.Editor.Lens
import LanguageService.Editor.Navigation
import LanguageService.Editor.Outline
import LanguageService.Editor.QuickFix
import LanguageService.Editor.Token
import LanguageService.Protocol.Json

/-!
# What is sent to an editor

Every result has a JSON form, `x.json`, in the terms of the Language Server Protocol.  Fields
without a value are left out.
-/

namespace LanguageService

namespace Json

def line (l : Line) : Json :=
  string (String.ofList l)

def list {α : Type} (f : α → Json) (items : List α) : Json :=
  array (items.map f)

end Json

def Position.json (p : Position) : Json :=
  .object [("line", .nat p.line), ("character", .nat p.character)]

def Range.json (r : Range) : Json :=
  .object [("start", r.start.json), ("end", r.stop.json)]

def Location.json (l : Location) : Json :=
  .object [("uri", .string l.uri), ("range", l.range.json)]

def TextEdit.json (e : TextEdit) : Json :=
  .object [("range", e.range.json), ("newText", .line e.newText)]

/-- edits of one document -/
def workspaceEdit (uri : String) (edits : List TextEdit) : Json :=
  .object [("changes", .object [(uri, .list TextEdit.json edits)])]

def DiagnosticCode.json : DiagnosticCode → Json
  | number n => .int n
  | text s => .string s

def RelatedInformation.json (r : RelatedInformation) : Json :=
  .object [("location", r.location.json), ("message", .string r.message)]

def Diagnostic.json (d : Diagnostic) : Json :=
  .record [("range", some d.range.json),
    ("severity", d.severity.map fun s => .int s.code),
    ("code", d.code.map DiagnosticCode.json),
    ("codeDescription", d.codeDescription.map fun h => .object [("href", .string h)]),
    ("source", d.source.map .string),
    ("message", some (.string d.message)),
    ("relatedInformation", d.relatedInformation.map (.list RelatedInformation.json)),
    ("tags", d.tags.map (.list .int)),
    ("data", d.data)]

/-- the number of a kind of symbol -/
def SymbolKind.code : SymbolKind → Nat
  | function => 12
  | var => 13
  | imported => 2

def OutlineEntry.json (e : OutlineEntry) : Json :=
  .object [("name", .string e.name), ("detail", .line e.detail), ("kind", .nat e.kind.code),
    ("range", e.range.json), ("selectionRange", e.nameRange.json)]

def FoundSymbol.json (s : FoundSymbol) : Json :=
  .object [("name", .string s.entry.name), ("kind", .nat s.entry.kind.code),
    ("location", (⟨s.uri, s.entry.range⟩ : Location).json)]

def FoldKind.label : FoldKind → String
  | region => "region"
  | comment => "comment"

def Fold.json (f : Fold) : Json :=
  .object [("startLine", .nat f.start), ("endLine", .nat f.stop), ("kind", .string f.kind.label)]

/-- the shortest decimal of a number; infinities and what is no number have none -/
def Binary32.json : Binary32 → Json
  | nan => .null
  | infinite _ => .null
  | finite negative m k =>
    let (c, e) := if m = 0 then (0, 0) else shortestDecimal m k
    let sign : Int := if negative then -1 else 1
    match e with
    | .ofNat p => .real ⟨sign * (c * Nat.pow 10 p : Nat), 0⟩
    | .negSucc p => .real ⟨sign * c, p + 1⟩

def Color.json (c : Color) : Json :=
  .object [("red", c.red.json), ("green", c.green.json), ("blue", c.blue.json),
    ("alpha", c.alpha.json)]

def DocumentColor.json (c : DocumentColor) : Json :=
  .object [("range", c.range.json), ("color", c.color.json)]

/-- a way to write a color, as an edit of the range where it is written now -/
def colorPresentation (r : Range) (label : String) : Json :=
  .object [("label", .string label), ("textEdit", (⟨r, label.toList⟩ : TextEdit).json)]

def command (title name : String) (arguments : List Json) : Json :=
  .object [("title", .string title), ("command", .string name), ("arguments", .array arguments)]

def ReferenceLens.json (uri : String) (l : ReferenceLens) : Json :=
  .object [("range", l.range.json),
    ("command", command l.title "vintlang.showReferences" [.string uri, l.range.start.json])]

def QuickFix.json (uri : String) (f : QuickFix) : Json :=
  let head := [("title", Json.string f.title), ("kind", .string "quickfix"),
    ("diagnostics", .array [f.diagnostic.json])]
  match f.remedy with
  | .edit e => .object (head ++ [("edit", workspaceEdit uri [e]), ("isPreferred", .bool true)])
  | .openManual page =>
    .object (head ++
      [("command", command "Open documentation" "vintlang.openDocumentation" [.string page])])

def InlayHint.json (h : InlayHint) : Json :=
  let head := [("position", h.position.json), ("label", Json.string h.label)]
  match h.kind with
  | .type => .object (head ++ [("kind", .nat 1)])
  | .parameter => .object (head ++ [("kind", .nat 2), ("paddingRight", .bool true)])

/-- five numbers for each token -/
def TokenDelta.numbers (t : TokenDelta) : List Nat :=
  [t.deltaLine, t.deltaStart, t.length, t.kind, t.modifiers]

def Documentation.json : Documentation → Json
  | plain text => .string text
  | markup kind text => .object [("kind", .string kind), ("value", .string text)]

def CompletionItem.json (i : CompletionItem) : Json :=
  match Json.record [("label", some (.string i.label)), ("kind", i.kind.map .int),
    ("detail", i.detail.map .string), ("documentation", i.documentation.map Documentation.json),
    ("insertText", i.insertText.map .string), ("insertTextFormat", i.insertTextFormat.map .int),
    ("data", i.data)] with
  | .object fields => .object (fields ++ i.further)
  | j => j

/-- a page of the manual -/
def markdown (page : String) : Json :=
  (Documentation.markup "markdown" page).json

def Hover.json (h : Hover) : Json :=
  .object [("contents", markdown h.page), ("range", h.range.json)]

def SignatureHelp.json (h : SignatureHelp) : Json :=
  let parameter := fun name => Json.object [("label", .string name)]
  .object [
    ("signatures", .array [.object [("label", .string h.signature.label),
      ("documentation", .string h.signature.description),
      ("parameters", .list parameter h.signature.parameters),
      ("activeParameter", .nat h.activeParameter)]]),
    ("activeSignature", .nat 0), ("activeParameter", .nat h.activeParameter)]

def Access.code : Access → Nat
  | read => 2
  | write => 3

def Highlight.json (h : Highlight) : Json :=
  .object [("range", h.range.json), ("kind", .nat h.access.code)]

/-- a word that may be renamed -/
def WordSite.renameJson (w : WordSite) : Json :=
  .object [("range", w.range.json), ("placeholder", .string w.word)]

def FunctionSite.json (uri : String) (f : FunctionSite) : Json :=
  .object [("name", .string f.name), ("kind", .nat 12), ("detail", .line (trim f.text)),
    ("uri", .string uri), ("range", (Range.ofLine f.line f.text).json),
    ("selectionRange", f.nameRange.json)]

def Caller.json (uri : String) (lines : List Line) : Caller → Json
  | function f => f.json uri
  | document =>
    .object [("name", .string documentCaller), ("kind", .nat 1), ("uri", .string uri),
      ("range", (document.range lines).json), ("selectionRange", document.nameRange.json)]

def incomingCall (uri : String) (lines : List Line) (g : CallGroup Caller) : Json :=
  .object [("from", g.party.json uri lines), ("fromRanges", .list Range.json g.ranges)]

def outgoingCall (uri : String) (g : CallGroup FunctionSite) : Json :=
  .object [("to", g.party.json uri), ("fromRanges", .list Range.json g.ranges)]

end LanguageService
