import LanguageService.Source.Diagnostic
import LanguageService.Source.Symbol

/-!
# Problems

The rules by which a document is checked.  All but the last look at one code line at a time.

* `Problem`                     what can be wrong, or merely doubtful
* `Problem.message`, `Problem.rule`, `Problem.severity`   how it is reported
* `Finding`                     a problem at a range; `Finding.diagnostic` is its report
* `problemsOnLine`              the problems of one code line
* `findings lines symbols`      the problems of a document, those of the lines first
-/

namespace LanguageService

inductive Problem where
  /-- more closing than opening braces on a line -/
  | unmatchedBrace
  /-- parentheses that do not balance on a line without an opening brace -/
  | unmatchedParen (opening closing : Nat)
  /-- a function that is not declared in the canonical form -/
  | invalidFunction
  /-- an assignment to a name that is declared nowhere -/
  | missingLet (name : String)
  /-- a function or variable without a reference -/
  | unusedSymbol (name : String) (kind : SymbolKind)
deriving DecidableEq, Repr

def SymbolKind.label : SymbolKind → String
  | function => "function"
  | var => "variable"
  | imported => "import"

/-- the label with a capital -/
def SymbolKind.title : SymbolKind → String
  | function => "Function"
  | var => "Variable"
  | imported => "Import"

namespace Problem

/-- the code under which a rule is reported -/
def rule : Problem → String
  | unmatchedBrace => "unmatched-brace"
  | unmatchedParen .. => "unmatched-paren"
  | invalidFunction => "invalid-function-syntax"
  | missingLet _ => "missing-let"
  | unusedSymbol .. => "unused-symbol"

def severity : Problem → Severity
  | unmatchedBrace | invalidFunction => .error
  | unmatchedParen .. | missingLet _ => .warning
  | unusedSymbol .. => .hint

def message : Problem → String
  | unmatchedBrace => "Unmatched closing brace '\x7d'"
  | unmatchedParen opening closing =>
    "Unmatched parentheses: " ++ toString opening ++ " '(' and " ++ toString closing ++ " ')'"
  | invalidFunction => "Function should be declared as 'let name = func(params) \x7b ... \x7d'"
  | missingLet v => "Consider using 'let' to declare variable '" ++ v ++ "'"
  | unusedSymbol name kind => kind.title ++ " '" ++ name ++ "' is declared but never used"

def tags : Problem → Option (List Int)
  | unusedSymbol .. => some [1]
  | _ => none

/-- what a quick fix needs to know -/
def data : Problem → Option Json
  | missingLet v => some (.object [("variable", .string v)])
  | unusedSymbol name kind =>
    some (.object [("symbol", .string name), ("kind", .string kind.label)])
  | _ => none

end Problem

/-- the name under which diagnostics are reported -/
def diagnosticSource : String := "vintlang"

structure Finding where
  problem : Problem
  range : Range
deriving DecidableEq, Repr

def Finding.diagnostic (f : Finding) : Diagnostic where
  range := f.range
  severity := some f.problem.severity
  code := some (.text f.problem.rule)
  codeDescription := none
  source := some diagnosticSource
  message := f.problem.message
  relatedInformation := none
  tags := f.problem.tags
  data := f.problem.data

/-- a value and an equals sign that is not the first of two, as a whole line begins -/
def bareAssignment : Pattern :=
  .inOrder [.lineStart, blanks, .group 1 identifierText, blanks, .literal ['='], blanks,
    .one fun c => c != '=' && !isBlank c]

/-- does the line hold the word, as a whole? -/
def mentionsWord (word : String) (l : Line) : Bool :=
  (Shape.identifier.all l).any fun m => m.span.text l == word

def braceProblem? (l : NumberedLine) : Option Finding :=
  if l.text.count '{' < l.text.count '}' then
    some ⟨.unmatchedBrace, Range.ofTrimmed l.number l.text⟩
  else none

def parenProblem? (l : NumberedLine) : Option Finding :=
  let opening := l.text.count '('
  let closing := l.text.count ')'
  if opening ≠ closing ∧ l.text.count '{' = 0 then
    some ⟨.unmatchedParen opening closing, Range.ofTrimmed l.number l.text⟩
  else none

def functionProblem? (l : NumberedLine) : Option Finding :=
  if mentionsWord functionKeyword l.text && !Shape.anyFunction.occurs l.text then
    some ⟨.invalidFunction, Range.ofTrimmed l.number l.text⟩
  else none

def assignmentProblem? (symbols : SymbolTable) (l : NumberedLine) : Option Finding :=
  match bareAssignment.first? l.text with
  | none => none
  | some m =>
    let name := (m.group 1).text l.text
    if mentionsWord declarationKeyword l.text || isKeyword name || symbols.contains name then none
    else some ⟨.missingLet name, (m.group 1).range l.number l.text⟩

/-- the problems of one code line, at most one of each kind -/
def problemsOnLine (symbols : SymbolTable) (l : NumberedLine) : List Finding :=
  (braceProblem? l).toList ++ (parenProblem? l).toList ++ (functionProblem? l).toList ++
    (assignmentProblem? symbols l).toList

/-- imports count as used -/
def unusedProblem? (s : Symbol) : Option Finding :=
  if s.kind = .imported || s.used then none
  else some ⟨.unusedSymbol s.name s.kind, s.nameRange⟩

def findings (lines : List Line) (symbols : SymbolTable) : List Finding :=
  (codeLines lines).flatMap (problemsOnLine symbols) ++ symbols.symbols.filterMap unusedProblem?

end LanguageService
