import LanguageService.Protocol.Decode

/-!
# Messages from an editor

A message has to have all the fields that its method asks for, those without a use here included;
fields that may be absent and have no use are not looked at.  The notification that ends the program
is none of these messages, as nothing is handled behind it.  URIs are compared as they are written:
they are taken to come in their canonical form.

* `Query`            a question about one open document
* `Request`          a message that is answered
* `Notification`     a message that is not
* `Request.read?`, `Notification.read?`   messages by the names of their methods
* `Fault`            why a request is refused
-/

namespace LanguageService

/-- A question about one document. -/
inductive Query where
  | completion
  | hover (p : Position)
  | signatureHelp (p : Position)
  | definition (p : Position)
  | references (p : Position) (withDeclaration : Bool)
  | highlights (p : Position)
  | prepareRename (p : Position)
  | rename (p : Position) (newName : String)
  | outline
  | folds
  | format
  | formatRange (r : Range)
  | quickFixes (ds : List Diagnostic)
  | tokens
  | inlayHints (r : Range)
  | prepareCalls (p : Position)
  | incomingCalls (name : String)
  | outgoingCalls (name : String)
  | lenses
  | colors
  | diagnostics

inductive Request where
  | introduce
  | shutdown
  | explain (item : CompletionItem)
  | findSymbols (query : Line)
  | presentColor (c : Color) (r : Range)
  | about (uri : String) (q : Query)

inductive Notification where
  | initialized
  | shutdown
  | opened (uri : String) (text : Line) (version : Int)
  | changed (uri : String) (changes : List Change) (version : Int)
  | closed (uri : String)

/-- Why a request is refused. -/
inductive Fault where
  /-- it comes before the server is initialized -/
  | notInitialized
  /-- it comes at the wrong time, or is no request -/
  | invalidRequest
  | methodNotFound
  | invalidParams
deriving DecidableEq, Repr

/-- the number under which a fault is reported -/
def Fault.code : Fault → Int
  | notInitialized => -32002
  | invalidRequest => -32600
  | methodNotFound => -32601
  | invalidParams => -32602

/-- the document that a message is about, by its URI as it is written -/
def documentUri? (params : Json) : Option String :=
  params.need "textDocument" fun d => d.need "uri" Json.string?

namespace Query

/-- a query about a document -/
def about? (params : Json) (q : Option Query) : Option Request := do
  return .about (← documentUri? params) (← q)

/-- a query about a position in a document -/
def atPosition? (params : Json) (q : Position → Option Query) : Option Request :=
  about? params ((params.need "position" Position.ofJson?).bind q)

/-- a query about a range of a document -/
def onRange? (params : Json) (q : Range → Option Query) : Option Request :=
  about? params ((params.need "range" Range.ofJson?).bind q)

/-- a query about an item of the call hierarchy -/
def onItem? (params : Json) (q : String → Query) : Option Request :=
  params.need "item" fun item => do
    let _ ← item.need "kind" Json.signed?
    let _ ← item.need "range" Range.ofJson?
    let _ ← item.need "selectionRange" Range.ofJson?
    return .about (← item.need "uri" Json.string?) (q (← item.need "name" Json.string?))

/-- a query for a layout; the options have to be there and change nothing -/
def withOptions? (params : Json) (q : Query) : Option Query :=
  params.need "options" fun options => do
    let _ ← options.need "tabSize" Json.unsigned?
    let _ ← options.need "insertSpaces" Json.bool?
    return q

/-- a query on a document, by its method; the outer option says whether the method is known, the
inner one whether its parameters can be read -/
def read? (method : String) (params : Json) : Option (Option Request) :=
  match method with
  | "textDocument/completion" => some (atPosition? params fun _ => some completion)
  | "textDocument/hover" => some (atPosition? params fun p => some (hover p))
  | "textDocument/signatureHelp" => some (atPosition? params fun p => some (signatureHelp p))
  | "textDocument/definition" => some (atPosition? params fun p => some (definition p))
  | "textDocument/references" => some (atPosition? params fun p =>
      (params.need "context" fun c => c.need "includeDeclaration" Json.bool?).map (references p))
  | "textDocument/documentHighlight" => some (atPosition? params fun p => some (highlights p))
  | "textDocument/prepareRename" => some (atPosition? params fun p => some (prepareRename p))
  | "textDocument/rename" => some (atPosition? params fun p =>
      (params.need "newName" Json.string?).map (rename p))
  | "textDocument/documentSymbol" => some (about? params (some outline))
  | "textDocument/foldingRange" => some (about? params (some folds))
  | "textDocument/formatting" => some (about? params (withOptions? params format))
  | "textDocument/rangeFormatting" => some (onRange? params fun r =>
      withOptions? params (formatRange r))
  | "textDocument/codeAction" => some (onRange? params fun _ =>
      (params.need "context" fun c => c.need "diagnostics" (Json.listOf? Diagnostic.ofJson?)).map
        quickFixes)
  | "textDocument/semanticTokens/full" => some (about? params (some tokens))
  | "textDocument/inlayHint" => some (onRange? params fun r => some (inlayHints r))
  | "textDocument/prepareCallHierarchy" => some (atPosition? params fun p => some (prepareCalls p))
  | "callHierarchy/incomingCalls" => some (onItem? params incomingCalls)
  | "callHierarchy/outgoingCalls" => some (onItem? params outgoingCalls)
  | "textDocument/codeLens" => some (about? params (some lenses))
  | "textDocument/documentColor" => some (about? params (some colors))
  | "textDocument/diagnostic" => some (about? params (some diagnostics))
  | _ => none

end Query

/-- A request by its method; the outer option says whether the method is known, the inner one
whether its parameters can be read. -/
def Request.read? (method : String) (params : Json) : Option (Option Request) :=
  match method with
  | "initialize" => some ((params.field? "capabilities").map fun _ => introduce)
  | "shutdown" => some (some shutdown)
  | "completionItem/resolve" => some ((CompletionItem.ofJson? params).map explain)
  | "workspace/symbol" => some ((params.need "query" Json.text?).map findSymbols)
  | "textDocument/colorPresentation" => some (do
      let _ ← documentUri? params
      return presentColor (← params.need "color" Color.ofJson?) (← params.need "range" Range.ofJson?))
  | _ => Query.read? method params

/-- A notification by its method, in the same way. -/
def Notification.read? (method : String) (params : Json) : Option (Option Notification) :=
  match method with
  | "initialized" => some (match params with
      | .object _ => some initialized
      | _ => none)
  | "shutdown" => some (some shutdown)
  | "textDocument/didOpen" => some (params.need "textDocument" fun d => do
      let _ ← d.need "languageId" Json.string?
      return opened (← d.need "uri" Json.string?) (← d.need "text" Json.text?)
        (← d.need "version" Json.signed?))
  | "textDocument/didChange" => some (do
      let changes ← params.need "contentChanges" (Json.listOf? Change.ofJson?)
      let version ← params.need "textDocument" fun d => d.need "version" Json.signed?
      return changed (← documentUri? params) changes version)
  | "textDocument/didClose" => some ((documentUri? params).map closed)
  | _ => none

end LanguageService
