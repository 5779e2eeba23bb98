import LanguageService.Pattern.Match
import LanguageService.Language.Catalog

/-!
# Shapes of the language

The patterns by which declarations, calls and words are recognised.  Each shape of a declaration
or call is a pattern of the name that it introduces or calls; it is used with any identifier and
with one given name.

Every name makes a pattern here.  A matcher that limits the size of its patterns may refuse a very
long name, and then nothing is found; names are taken to stay below such a limit.

* `identifierText`           an ASCII identifier
* `Shape.identifier`         an identifier that is a whole word
* `Shape.functionOf`         `let name = func`
* `Shape.variableOf`         `let name =`
* `Shape.importOf`           `import name`
* `Shape.callOf`             `name (`
* `Shape.word`, `Shape.function`, `Shape.declaration`, `Shape.call`   the same for one given name
-/

namespace LanguageService

/-- an ASCII letter or underscore, and then letters, digits and underscores -/
def identifierText : Pattern :=
  .seq (.one isNameStart) (.many isNameChar)

/-- exactly the given name -/
def nameText (name : String) : Pattern :=
  .literal name.toList

/-- any white space, and at least one -/
def blanks1 : Pattern :=
  .many1 isBlank

/-- any white space, or none -/
def blanks : Pattern :=
  .many isBlank

namespace Shape

/-- an identifier that is a whole word -/
def identifier : Pattern :=
  .inOrder [.wordEdge, identifierText, .wordEdge]

/-- `let name = func`; the name is group 1 -/
def functionOf (name : Pattern) : Pattern :=
  .inOrder [.wordEdge, nameText declarationKeyword, blanks1, .group 1 name, blanks,
    .literal ['='], blanks, nameText functionKeyword, .wordEdge]

/-- `let name =`; the name is the given group -/
def variableOf (group : Nat) (name : Pattern) : Pattern :=
  .inOrder [.wordEdge, nameText declarationKeyword, blanks1, .group group name, blanks,
    .literal ['=']]

/-- `import name`; the name is the given group -/
def importOf (group : Nat) (name : Pattern) : Pattern :=
  .inOrder [.wordEdge, nameText "import", blanks1, .group group name]

/-- `name (` with any white space between; the name is group 1 -/
def callOf (name : Pattern) : Pattern :=
  .inOrder [.wordEdge, .group 1 name, blanks, .literal ['(']]

/-- a function declaration of any identifier -/
def anyFunction : Pattern := functionOf identifierText

/-- a declaration of any identifier as a variable, function declarations included -/
def anyVariable : Pattern := variableOf 1 identifierText

/-- an import of any identifier -/
def anyImport : Pattern := importOf 1 identifierText

/-- a call of any identifier -/
def anyCall : Pattern := callOf identifierText

/-- one given name as a whole word -/
def word (name : String) : Pattern :=
  .inOrder [.wordEdge, nameText name, .wordEdge]

/-- a call of one given name -/
def call (name : String) : Pattern :=
  .inOrder [.wordEdge, nameText name, blanks, .literal ['(']]

/-- a declaration of one given name: as a variable or function in group 1, by an import in group 2 -/
def declaration (name : String) : Pattern :=
  .alt (variableOf 1 (nameText name)) (.seq (importOf 2 (nameText name)) .wordEdge)

/-- a function declaration of one given name -/
def function (name : String) : Pattern := functionOf (nameText name)

end Shape
end LanguageService
