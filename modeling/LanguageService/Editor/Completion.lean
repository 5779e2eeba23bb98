import LanguageService.Language.Manual
import LanguageService.Language.Signature
import LanguageService.Protocol.Json
import LanguageService.Source.Problem

/-!
# Completion

The words of the catalogs are offered first and then the symbols of the document that are in no
catalog.  An item names its catalog in its data, so that detail and documentation can be attached
later, when the item is looked at.

* `CompletionItem`          an offer
* `completions symbols`     the offers for a document
* `CompletionItem.resolve`  an offer with detail and documentation
* `resolve_resolve`         a second look changes nothing
-/

namespace LanguageService

/-- Where an offer comes from. -/
inductive CompletionCategory where
  | word (k : WordKind)
  | symbol
deriving DecidableEq, Repr

namespace CompletionCategory

def label : CompletionCategory → String
  | word .keyword => "keyword"
  | word .builtin => "builtin"
  | word .module => "module"
  | symbol => "symbol"

def ofLabel? (s : String) : Option CompletionCategory :=
  [word .keyword, word .builtin, word .module, symbol].find? fun c => c.label == s

/-- A category is written as its label, or as an object whose only field is the label and holds
nothing. -/
def ofName? : Json → Option CompletionCategory
  | .string s => ofLabel? s
  | .object [(s, .null)] => ofLabel? s
  | _ => none

/-- the data of an item -/
def data (c : CompletionCategory) : Json :=
  .object [("category", .string c.label)]

/-- The category in the data of an item: an object that names it, or a list of the name alone. -/
def ofData? : Json → Option CompletionCategory
  | .object fields => (fields.lookup "category").bind ofName?
  | .array [c] => ofName? c
  | _ => none

end CompletionCategory

inductive Documentation where
  | plain (text : String)
  | markup (kind text : String)
deriving DecidableEq, Repr

structure CompletionItem where
  label : String
  kind : Option Int
  detail : Option String
  documentation : Option Documentation
  insertText : Option String
  insertTextFormat : Option Int
  data : Option Json
  /-- further fields, of no importance to this library -/
  further : List (String × Json)

namespace CompletionItem

/-- an item without detail or documentation -/
def plain (label : String) (kind : Int) (c : CompletionCategory) : CompletionItem :=
  ⟨label, some kind, none, none, none, none, some c.data, []⟩

/-- an item that is inserted as a call, with the cursor between the parentheses -/
def asCall (i : CompletionItem) : CompletionItem :=
  { i with insertText := some (i.label ++ "($1)"), insertTextFormat := some 2 }

def ofKeyword (w : String) : CompletionItem :=
  plain w 14 (.word .keyword)

def ofBuiltin (w : String) : CompletionItem :=
  (plain w 3 (.word .builtin)).asCall

def ofModule (w : String) : CompletionItem :=
  plain w 9 (.word .module)

def ofSymbol (s : Symbol) : CompletionItem :=
  let item := fun kind : Int =>
    { plain s.name kind .symbol with
      detail := some (s.kind.label ++ " declared on line " ++ toString (s.line + 1)) }
  match s.kind with
  | .function => (item 3).asCall
  | .var => item 6
  | .imported => item 9

/-- the page of the manual on a word, or else a plain text -/
def documentationOr (word text : String) : Documentation :=
  match manualPage? word with
  | some page => .markup "markdown" page
  | none => .plain text

/-- what the catalogs know about a word: detail and documentation -/
def explain (label : String) : WordKind → String × Documentation
  | .keyword =>
    ("VintLang keyword", documentationOr label ("The '" ++ label ++ "' keyword in VintLang"))
  | .builtin =>
    match signature? label with
    | some s => (s.label, documentationOr label s.description)
    | none => ("VintLang built-in function",
        documentationOr label ("Built-in function: " ++ label ++ "()"))
  | .module => ("VintLang module", documentationOr label ("VintLang module: " ++ label))

/-- the category named in the data of an item, or else the catalog of its label -/
def category? (i : CompletionItem) : Option CompletionCategory :=
  (i.data.bind CompletionCategory.ofData?).or ((WordKind.of? i.label).map .word)

/-- an item with what a catalog knows about its label -/
def explained (i : CompletionItem) (k : WordKind) : CompletionItem :=
  { i with detail := some (explain i.label k).1, documentation := some (explain i.label k).2 }

/-- Words of a catalog are explained, symbols of the document stay as they are. -/
def resolve (i : CompletionItem) : CompletionItem :=
  match i.category? with
  | some (.word k) => i.explained k
  | _ => i

theorem category?_explained (i : CompletionItem) (k : WordKind) :
    (i.explained k).category? = i.category? := rfl

/-- a second look changes nothing -/
theorem resolve_resolve (i : CompletionItem) : i.resolve.resolve = i.resolve := by
  unfold resolve
  cases h : i.category? with
  | none => simp only [h]
  | some c =>
    cases c with
    | word k => simp only [category?_explained, h]; rfl
    | symbol => simp only [h]

end CompletionItem

/-- The offers for a document: the catalogs, and the symbols that are in none of them. -/
def completions (symbols : SymbolTable) : List CompletionItem :=
  keywords.map .ofKeyword ++ builtins.map .ofBuiltin ++ modules.map .ofModule ++
    (symbols.symbols.filter fun s => (WordKind.of? s.name).isNone).map .ofSymbol

end LanguageService
