import LanguageService.Source.Analysis
import LanguageService.Text.Edit

/-!
# Layout

Lines are indented by brace depth alone.  A line that begins with a closing brace stands one level
further out, a line that ends with an opening brace moves the lines behind it one level further in,
and the depth never falls below zero.  Blank lines are emptied.

* `layout d lines`      the lines laid out from depth `d` on
* `formatText text`     a text laid out
* `formatEdits a`       the edit that lays out a document, none if it is laid out already
* `formatRangeEdits`    the same for the lines of a range
* `length_layout`       layout keeps the number of lines
-/

namespace LanguageService

/-- spaces for each level -/
def indentWidthOfLevel : Nat := 4

/-- the depth at which a trimmed line stands when `d` is the depth before it -/
def lineDepth (d : Nat) (t : Line) : Nat :=
  if t.head? = some '}' then d - 1 else d

/-- the depth behind a trimmed line -/
def depthBehind (d : Nat) (t : Line) : Nat :=
  if t.getLast? = some '{' then lineDepth d t + 1 else lineDepth d t

/-- a trimmed line at its place -/
def indented (d : Nat) (t : Line) : Line :=
  if t.isEmpty then [] else List.replicate (lineDepth d t * indentWidthOfLevel) ' ' ++ t

def layout (d : Nat) : List Line → List Line
  | [] => []
  | l :: ls => indented d (trim l) :: layout (depthBehind d (trim l)) ls

/-- the depth behind a stretch of lines -/
def layoutDepth (d : Nat) : List Line → Nat
  | [] => d
  | l :: ls => layoutDepth (depthBehind d (trim l)) ls

def formatText (text : Line) : Line :=
  joinLines (LineEnding.of text) (layout 0 (splitLines text))

def formatEdits (a : Analysis) : List TextEdit :=
  let lines := layout 0 a.lines
  if lines = a.lines then [] else [⟨a.range, joinLines a.ending lines⟩]

/-- The lines from `first` to `last` laid out as in the whole document. -/
def formatLinesEdits (a : Analysis) (first last : Nat) : List TextEdit :=
  let old := (a.lines.take (last + 1)).drop first
  let new := layout (layoutDepth 0 (a.lines.take first)) old
  if new = old then []
  else [⟨⟨⟨first, 0⟩, ⟨last, (a.lines[last]?.map width).getD 0⟩⟩, joinLines a.ending new⟩]

/-- The lines that a range touches; a range beyond the end touches the last line. -/
def formatRangeEdits (a : Analysis) (r : Range) : List TextEdit :=
  let last := a.lines.length - 1
  let first := min r.start.line last
  formatLinesEdits a first (max first (min r.stop.line last))

theorem length_layout (d : Nat) (lines : List Line) : (layout d lines).length = lines.length := by
  induction lines generalizing d with
  | nil => rfl
  | cons l ls ih => rw [layout, List.length_cons, List.length_cons, ih]

end LanguageService
