import LanguageService.Text.Lines
import LanguageService.Text.Position

/-!
# Text edits

An edit replaces a range of a document by a text.  Positions are resolved against the lines of the
document: a column beyond the end of its line means the end of the line, and a line beyond the last
one means the end of the document.

* `TextEdit`            a range and the text that takes its place
* `textOffset text p`   the number of characters before a position
* `applyEdit`, `applyEdits`   the text after one edit, and after several that do not overlap and
                        are listed in document order
-/

namespace LanguageService

structure TextEdit where
  range : Range
  newText : Line
deriving DecidableEq, Repr

/-- the number of characters before a position of a text that is given by the pieces between its
line feeds -/
def offsetInPieces : List Line → Nat → Nat → Nat
  | [], _, _ => 0
  | l :: _, 0, col => place (dropReturn l) col
  | l :: ls, n + 1, col => if ls.isEmpty then l.length else l.length + 1 + offsetInPieces ls n col

def textOffset (text : Line) (p : Position) : Nat :=
  offsetInPieces (splitAtFeeds text) p.line p.character

/-- The text after an edit; a range that ends before it starts is empty at its start. -/
def applyEdit (text : Line) (e : TextEdit) : Line :=
  let a := textOffset text e.range.start
  let b := max a (textOffset text e.range.stop)
  text.take a ++ e.newText ++ text.drop b

/-- Later edits are made first, so that they do not move the places of earlier ones. -/
def applyEdits (text : Line) (edits : List TextEdit) : Line :=
  edits.foldr (fun e t => applyEdit t e) text

/-- characters of some pieces, with the line feeds between them -/
def piecesLength : List Line → Nat
  | [] => 0
  | [l] => l.length
  | l :: ls => l.length + 1 + piecesLength ls

theorem piecesLength_splitAtFeeds (text : Line) :
    piecesLength (splitAtFeeds text) = text.length := by
  induction text with
  | nil => rfl
  | cons c rest ih =>
    unfold splitAtFeeds
    have hne := splitAtFeeds_ne_nil rest
    split
    · cases hs : splitAtFeeds rest with
      | nil => exact absurd hs hne
      | cons l ls =>
        rw [hs] at ih
        rw [piecesLength, ih, List.length_cons, List.length_nil]
        · omega
        · exact List.cons_ne_nil _ _
    · split
      · next hs => exact absurd hs hne
      · next l ls hs =>
        rw [hs] at ih
        cases ls with
        | nil =>
          rw [piecesLength] at ih ⊢
          rw [List.length_cons, List.length_cons, ih]
        | cons k ks =>
          rw [piecesLength] at ih ⊢
          · rw [List.length_cons, List.length_cons, ← ih]
            omega
          · exact List.cons_ne_nil _ _
          · exact List.cons_ne_nil _ _

theorem length_dropReturn_le (l : Line) : (dropReturn l).length ≤ l.length := by
  unfold dropReturn
  split
  · rw [List.length_dropLast]
    exact Nat.sub_le _ _
  · exact Nat.le_refl _

end LanguageService
