import LanguageService.Source.CodeLine
import LanguageService.Language.Shape

/-!
# Tokens for highlighting

Every line is classified by a fixed sequence of passes.  Passes may overlap, as a keyword inside a
comment; all their tokens are kept, and a later pass is drawn over an earlier one.

* `Token`                   a classified stretch of a line
* `tokens lines`            the tokens of a document, line by line and pass by pass
* `encodeTokens ts`         tokens in document order, each relative to the one before it
* `decodeTokens ds`         what an encoding says
* `decode_deltas`           an encoding gives back the tokens, once they are in order
-/

namespace LanguageService

inductive TokenKind where
  | keyword
  | function
  | module
  | name
  | string
  | number
  | comment
  | operator
  | declarative
deriving DecidableEq, Repr

namespace TokenKind

/-- the kinds in the order in which they are numbered -/
def all : List TokenKind :=
  [keyword, function, module, name, string, number, comment, operator, declarative]

/-- the number of a kind -/
def index (k : TokenKind) : Nat :=
  all.idxOf k

/-- the standard name of a kind -/
def label : TokenKind → String
  | keyword => "keyword"
  | function => "function"
  | module => "namespace"
  | name => "variable"
  | string => "string"
  | number => "number"
  | comment => "comment"
  | operator => "operator"
  | declarative => "macro"

end TokenKind

inductive TokenModifier where
  | declaration
  | defaultLibrary
  | readonly
deriving DecidableEq, Repr

namespace TokenModifier

def all : List TokenModifier :=
  [declaration, defaultLibrary, readonly]

/-- the bit of a modifier -/
def bit (m : TokenModifier) : Nat :=
  Nat.pow 2 (all.idxOf m)

def label : TokenModifier → String
  | declaration => "declaration"
  | defaultLibrary => "defaultLibrary"
  | readonly => "readonly"

end TokenModifier

/-- A stretch of a line in UTF-16 columns, with the number of its kind and the bits of its
modifiers. -/
structure Token where
  line : Nat
  start : Nat
  length : Nat
  kind : Nat
  modifiers : Nat
deriving DecidableEq, Repr

/-- one of some words, as a whole word -/
def wordAmong (words : List String) : Pattern :=
  .inOrder [.wordEdge, .anyOf (words.map nameText), .wordEdge]

/-- a text between two equal quotes; a backslash takes the character behind it along -/
def quoted (quote : Char) : Pattern :=
  .inOrder [.literal [quote],
    .star (.alt (.one fun c => c != quote && c != '\\')
      (.seq (.literal ['\\']) (.one fun c => c != '\n'))),
    .literal [quote]]

def stringText : Pattern :=
  .alt (quoted '"') (quoted '\'')

/-- digits, perhaps with a fraction, as a whole word -/
def numberText : Pattern :=
  .inOrder [.wordEdge, .many1 isDecimal, .optional (.seq (.literal ['.']) (.many1 isDecimal)),
    .wordEdge]

def commentText : Pattern :=
  .inOrder [.literal lineComment, .many fun c => c != '\n', .lineEnd]

def isOperator (c : Char) : Bool :=
  ['+', '-', '*', '/', '%', '=', '<', '>', '!', '&', '|'].contains c

def operatorText : Pattern :=
  .many1 isOperator

/-- the word that begins a declarative statement, in group 1 -/
def declarativeText : Pattern :=
  .inOrder [.lineStart, blanks, .group 1 (.anyOf (declaratives.map nameText)), .wordEdge]

/-- a stretch of a line as a token -/
def Span.token (s : Span) (l : NumberedLine) (kind : TokenKind) (modifiers : List TokenModifier) :
    Token :=
  let start := column l.text s.start
  ⟨l.number, start, column l.text s.stop - start, kind.index,
    modifiers.foldr (fun m bits => m.bit + bits) 0⟩

/-- every match of a pattern as a token -/
def matchTokens (a : Pattern) (kind : TokenKind) (modifiers : List TokenModifier)
    (l : NumberedLine) : List Token :=
  (a.all l.text).map fun m => m.span.token l kind modifiers

/-- group 1 of the first match of a pattern as a token -/
def groupToken? (a : Pattern) (kind : TokenKind) (modifiers : List TokenModifier)
    (l : NumberedLine) : Option Token :=
  (a.first? l.text).map fun m => (m.group 1).token l kind modifiers

/-- the name that a line declares -/
def declarationToken? (l : NumberedLine) : Option Token :=
  (groupToken? Shape.anyFunction .function [.declaration] l).or
    (groupToken? Shape.anyVariable .name [.declaration] l)

def tokensOnLine (l : NumberedLine) : List Token :=
  matchTokens (wordAmong keywords) .keyword [] l ++
  matchTokens (wordAmong builtins) .function [.defaultLibrary] l ++
  matchTokens (wordAmong modules) .module [.defaultLibrary] l ++
  (declarationToken? l).toList ++
  matchTokens stringText .string [] l ++
  matchTokens numberText .number [] l ++
  matchTokens commentText .comment [] l ++
  matchTokens operatorText .operator [] l ++
  matchTokens (wordAmong literalKeywords) .keyword [.readonly] l ++
  (groupToken? declarativeText .declarative [] l).toList

def tokens (lines : List Line) : List Token :=
  (numberLines lines).flatMap tokensOnLine

/-- A token relative to the one before it: the lines between them, and the columns between them or,
on another line, its column. -/
structure TokenDelta where
  deltaLine : Nat
  deltaStart : Nat
  length : Nat
  kind : Nat
  modifiers : Nat
deriving DecidableEq, Repr

/-- document order -/
def Token.le (a b : Token) : Bool :=
  a.line < b.line || (a.line == b.line && a.start ≤ b.start)

/-- tokens relative to each other, the first to a token at the given line and column -/
def deltas (line start : Nat) : List Token → List TokenDelta
  | [] => []
  | t :: ts =>
    ⟨t.line - line, if t.line - line = 0 then t.start - start else t.start, t.length, t.kind,
      t.modifiers⟩ :: deltas t.line t.start ts

/-- Tokens with the same start keep their order. -/
def encodeTokens (ts : List Token) : List TokenDelta :=
  deltas 0 0 (ts.mergeSort Token.le)

/-- the tokens that an encoding describes, from the given line and column on -/
def decodeFrom (line start : Nat) : List TokenDelta → List Token
  | [] => []
  | d :: ds =>
    let l := line + d.deltaLine
    let s := if d.deltaLine = 0 then start + d.deltaStart else d.deltaStart
    ⟨l, s, d.length, d.kind, d.modifiers⟩ :: decodeFrom l s ds

def decodeTokens (ds : List TokenDelta) : List Token :=
  decodeFrom 0 0 ds

/-- tokens in document order are found again from their encoding -/
theorem decode_deltas (ts : List Token) (line start : Nat)
    (h : (⟨line, start, 0, 0, 0⟩ :: ts : List Token).Pairwise fun a b => a.le b = true) :
    decodeFrom line start (deltas line start ts) = ts := by
  induction ts generalizing line start with
  | nil => rfl
  | cons t ts ih =>
    obtain ⟨h1, h2⟩ := List.pairwise_cons.mp h
    have ht := h1 t List.mem_cons_self
    simp only [Token.le, Bool.or_eq_true, Bool.and_eq_true, decide_eq_true_eq, beq_iff_eq] at ht
    have hrest : decodeFrom t.line t.start (deltas t.line t.start ts) = ts := by
      refine ih t.line t.start ?_
      obtain ⟨h3, h4⟩ := List.pairwise_cons.mp h2
      exact List.pairwise_cons.mpr ⟨fun b hb => h3 b hb, h4⟩
    have hline : line + (t.line - line) = t.line := by omega
    have hstart : (if t.line - line = 0 then
        start + (if t.line - line = 0 then t.start - start else t.start)
        else (if t.line - line = 0 then t.start - start else t.start)) = t.start := by
      split <;> omega
    simp only [deltas, decodeFrom, hline, hstart, hrest]

end LanguageService
