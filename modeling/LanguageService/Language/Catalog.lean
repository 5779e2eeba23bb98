/-!
# The words of the language

Four catalogs of words with a fixed meaning.  Keywords and built-in functions are reserved: no
declaration can introduce them as symbols, although the text may try to.

* `keywords`, `builtins`, `modules`, `declaratives`   the catalogs
* `isKeyword`, `isBuiltin`, `isModule`, `isReserved`  membership
* `WordKind`, `WordKind.of?`                          the catalog a word belongs to
* `keywords_disjoint_builtins` and its siblings       no word is in two of the first three catalogs
-/

namespace LanguageService

/-- language keywords -/
def keywords : List String :=
  ["if", "else", "elif", "while", "for", "in", "switch", "case", "default", "break", "continue",
   "func", "return", "let", "declare", "defer", "import", "package", "include", "true", "false",
   "null", "try", "catch", "throw", "finally"]

/-- functions available without an import -/
def builtins : List String :=
  ["print", "println", "write", "type", "convert", "has_key", "len", "range", "split", "join",
   "replace", "contains", "startsWith", "endsWith", "trim", "upper", "lower", "push", "pop",
   "shift", "unshift", "slice", "splice", "sort", "reverse", "abs", "ceil", "floor", "round",
   "max", "min", "sqrt", "pow", "random", "now", "format", "add", "subtract", "isLeapYear",
   "exec", "env", "args", "exit"]

/-- modules of the standard library -/
def modules : List String :=
  ["time", "net", "os", "json", "csv", "regex", "crypto", "encoding", "colors", "term"]

/-- words that begin a declarative statement, such as `todo "later"` -/
def declaratives : List String :=
  ["todo", "warn", "error", "info", "debug", "note", "success"]

/-- keywords that stand for a value -/
def literalKeywords : List String :=
  ["true", "false", "null"]

/-- the keyword that introduces a declaration -/
def declarationKeyword : String := "let"

/-- the keyword that introduces a function literal -/
def functionKeyword : String := "func"

/-- built-in functions whose calls carry parameter hints -/
def hintedBuiltins : List String :=
  ["convert", "has_key", "range", "split", "join", "replace", "slice", "pow", "format", "add",
   "subtract"]

def isKeyword (word : String) : Bool :=
  keywords.contains word

def isBuiltin (word : String) : Bool :=
  builtins.contains word

def isModule (word : String) : Bool :=
  modules.contains word

/-- keywords and built-in functions never name a symbol of a document -/
def isReserved (word : String) : Bool :=
  isKeyword word || isBuiltin word

/-- The catalogs that are offered for completion. -/
inductive WordKind where
  | keyword
  | builtin
  | module
deriving DecidableEq, Repr

/-- the catalog of a word -/
def WordKind.of? (word : String) : Option WordKind :=
  if isKeyword word then some keyword
  else if isBuiltin word then some builtin
  else if isModule word then some module
  else none

theorem keywords_disjoint_builtins : ∀ w ∈ keywords, w ∉ builtins := by
  decide +kernel

theorem keywords_disjoint_modules : ∀ w ∈ keywords, w ∉ modules := by
  decide +kernel

theorem builtins_disjoint_modules : ∀ w ∈ builtins, w ∉ modules := by
  decide +kernel

theorem catalog_nodup : (keywords ++ builtins ++ modules).Nodup := by
  decide +kernel

end LanguageService
