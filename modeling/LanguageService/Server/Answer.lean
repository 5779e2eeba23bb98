import LanguageService.Editor.Layout
import LanguageService.Protocol.Encode
import LanguageService.Server.Message
import LanguageService.Workspace.Store

/-!
# Answers of the server

* `Query.answer d`         what is answered about an open document
* `Query.unopened`         what is answered about a document that is not open
* `Store.answer s uri q`   one or the other
* `capabilities`           what the server tells about itself
-/

namespace LanguageService

/-- a list, or null if it is empty -/
def listOrNull {α : Type} (f : α → Json) (items : List α) : Json :=
  if items.isEmpty then .null else .list f items

/-- a value, or null -/
def valueOrNull {α : Type} (f : α → Json) : Option α → Json
  | none => .null
  | some v => f v

/-- a full report of diagnostics -/
def diagnosticReport (ds : List Diagnostic) : Json :=
  .object [("kind", .string "full"), ("items", .list Diagnostic.json ds)]

/-- tokens as one list of numbers, five for each -/
def tokenReport (ts : List TokenDelta) : Json :=
  .object [("data", .list Json.nat (ts.flatMap TokenDelta.numbers))]

def Query.answer (d : Document) : Query → Json
  | completion => .list CompletionItem.json (completions d.analysis.symbols)
  | hover p => valueOrNull Hover.json (hoverAt? d.lines p)
  | signatureHelp p => valueOrNull SignatureHelp.json (signatureAt? d.lines p)
  | definition p => valueOrNull (fun r => (⟨d.uri, r⟩ : Location).json) (definitionAt? d.lines p)
  | references p withDeclaration =>
    listOrNull (fun r => (⟨d.uri, r⟩ : Location).json)
      (if withDeclaration then referencesAt d.lines p else usesAt d.lines p)
  | highlights p => listOrNull Highlight.json (highlightsAt d.lines p)
  | prepareRename p => valueOrNull WordSite.renameJson (renameTarget? d.lines p)
  | rename p newName => valueOrNull (workspaceEdit d.uri) (rename? d.lines p newName)
  | outline => .list OutlineEntry.json (LanguageService.outline d.lines)
  | folds => listOrNull Fold.json (LanguageService.folds d.lines)
  | format => listOrNull TextEdit.json (formatEdits d.analysis)
  | formatRange r => listOrNull TextEdit.json (formatRangeEdits d.analysis r)
  | quickFixes ds => listOrNull (QuickFix.json d.uri) (LanguageService.quickFixes d.lines ds)
  | tokens => tokenReport (encodeTokens (LanguageService.tokens d.lines))
  | inlayHints r => listOrNull InlayHint.json (LanguageService.inlayHints d.lines r)
  | prepareCalls p => valueOrNull (fun f => .array [f.json d.uri]) (functionAt? d.lines p)
  | incomingCalls name =>
    listOrNull (incomingCall d.uri d.lines) (LanguageService.incomingCalls d.lines name)
  | outgoingCalls name => listOrNull (outgoingCall d.uri) (LanguageService.outgoingCalls d.lines name)
  | lenses => listOrNull (ReferenceLens.json d.uri) (referenceLenses d.lines)
  | colors => .list DocumentColor.json (documentColors d.lines)
  | diagnostics => diagnosticReport d.analysis.diagnostics

def Query.unopened : Query → Json
  | colors => .array []
  | diagnostics => diagnosticReport []
  | _ => .null

def Store.answer (s : Store) (uri : String) (q : Query) : Json :=
  match s.get? uri with
  | some d => q.answer d
  | none => q.unopened

/-- the symbols of all open documents, in the order of their addresses -/
def Store.findSymbols (s : Store) (query : Line) : List FoundSymbol :=
  LanguageService.findSymbols (s.documents.map fun d => (d.uri, d.lines)) query

/-- the version of this library -/
def version : String := "0.1.0"

/-- what the server can do -/
def capabilities : Json :=
  let yes := Json.bool true
  let no := Json.bool false
  let strings := Json.list Json.string
  .object [
    ("textDocumentSync", .nat 2),
    ("completionProvider", .object [("triggerCharacters", strings [".", "(", "\x7b", "["]),
      ("resolveProvider", yes)]),
    ("hoverProvider", yes),
    ("signatureHelpProvider", .object [("triggerCharacters", strings ["(", ","])]),
    ("definitionProvider", yes),
    ("referencesProvider", yes),
    ("documentHighlightProvider", yes),
    ("renameProvider", .object [("prepareProvider", yes)]),
    ("documentSymbolProvider", yes),
    ("workspaceSymbolProvider", yes),
    ("foldingRangeProvider", yes),
    ("documentFormattingProvider", yes),
    ("documentRangeFormattingProvider", yes),
    ("codeActionProvider", yes),
    ("semanticTokensProvider", .object [
      ("legend", .object [("tokenTypes", strings (TokenKind.all.map TokenKind.label)),
        ("tokenModifiers", strings (TokenModifier.all.map TokenModifier.label))]),
      ("full", yes)]),
    ("inlayHintProvider", yes),
    ("callHierarchyProvider", yes),
    ("codeLensProvider", .object [("resolveProvider", no)]),
    ("colorProvider", yes),
    ("diagnosticProvider", .object [("identifier", .string diagnosticSource),
      ("interFileDependencies", no), ("workspaceDiagnostics", no)])]

/-- the answer to an editor that introduces itself -/
def introduction : Json :=
  .object [("capabilities", capabilities),
    ("serverInfo", .object [("name", .string "vintlang-lsp"), ("version", .string version)])]

end LanguageService
