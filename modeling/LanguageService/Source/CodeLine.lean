import LanguageService.Text.Lines

/-!
# Lines that carry code

Blank lines, lines of a `//` comment and lines of a block comment carry no code.  A block comment
is only seen where it begins a line, and it ends with the line that closes it.

* `NumberedLine`, `numberLines`   lines with their numbers
* `codeLines lines`               the lines that carry code, in order
* `sublist_codeLines`             they are lines of the document
-/

namespace LanguageService

structure NumberedLine where
  number : Nat
  text : Line
deriving DecidableEq, Repr

/-- the lines numbered from `n` on -/
def numberFrom (n : Nat) : List Line → List NumberedLine
  | [] => []
  | l :: ls => ⟨n, l⟩ :: numberFrom (n + 1) ls

def numberLines (lines : List Line) : List NumberedLine :=
  numberFrom 0 lines

/-- What one line is to the search for code. -/
inductive LineRole where
  /-- neither code nor the start of a block comment that stays open -/
  | skipped
  /-- the first line of a block comment that stays open -/
  | opensComment
  | code
deriving DecidableEq, Repr

def opensBlock : Line := ['/', '*']
def closesBlock : Line := ['*', '/']
def lineComment : Line := ['/', '/']

/-- the role of a line that no block comment reaches -/
def LineRole.of (l : Line) : LineRole :=
  let t := trim l
  if t.isEmpty || lineComment.isPrefixOf t then skipped
  else if opensBlock.isPrefixOf t then
    if occursIn closesBlock t then skipped else opensComment
  else code

/-- The code lines of a stretch of a document; `inComment` says that a block comment reaches it. -/
def codeLinesFrom (inComment : Bool) : List NumberedLine → List NumberedLine
  | [] => []
  | l :: ls =>
    if inComment then codeLinesFrom (!occursIn closesBlock (trim l.text)) ls
    else match LineRole.of l.text with
      | .skipped => codeLinesFrom false ls
      | .opensComment => codeLinesFrom true ls
      | .code => l :: codeLinesFrom false ls

def codeLines (lines : List Line) : List NumberedLine :=
  codeLinesFrom false (numberLines lines)

theorem codeLinesFrom_sublist (ls : List NumberedLine) (inComment : Bool) :
    (codeLinesFrom inComment ls).Sublist ls := by
  induction ls generalizing inComment with
  | nil => exact List.Sublist.slnil
  | cons l ls ih =>
    unfold codeLinesFrom
    split
    · exact (ih _).cons _
    · split
      · exact (ih _).cons _
      · exact (ih _).cons _
      · exact (ih _).cons_cons _

/-- code lines are lines of the document, in its order -/
theorem sublist_codeLines (lines : List Line) : (codeLines lines).Sublist (numberLines lines) :=
  codeLinesFrom_sublist _ _

theorem getElem?_numberFrom (lines : List Line) (n i : Nat) :
    (numberFrom n lines)[i]? = lines[i]?.map fun l => ⟨n + i, l⟩ := by
  induction lines generalizing n i with
  | nil => rfl
  | cons l lines ih =>
    cases i with
    | zero => rfl
    | succ i =>
      rw [numberFrom, List.getElem?_cons_succ, List.getElem?_cons_succ, ih, Nat.add_assoc,
        Nat.add_comm 1 i]

end LanguageService
