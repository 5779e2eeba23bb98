import LanguageService.Text.Search

/-!
# Lines of a document

A line ends at a line feed; a carriage return directly before the line feed, or at the end of the
text, is no part of the line.  A text that ends with a line feed has an empty last line, so that
line numbers agree with those of an editor.

* `splitLines text`      the lines, never none
* `LineEnding.of text`   the terminator with which lines are written back
* `joinLines e lines`    one text of the lines
* `splitLines_ne_nil`, `splitAtFeeds_no_feed`   there is a line, and no line holds a line feed
-/

namespace LanguageService

/-- the pieces between line feeds -/
def splitAtFeeds : Line → List Line
  | [] => [[]]
  | c :: rest =>
    if c = '\n' then [] :: splitAtFeeds rest
    else match splitAtFeeds rest with
      | [] => [[c]]
      | l :: ls => (c :: l) :: ls

/-- a line without the carriage return at its end, at most one -/
def dropReturn (l : Line) : Line :=
  if l.getLast? = some '\r' then l.dropLast else l

def splitLines (text : Line) : List Line :=
  (splitAtFeeds text).map dropReturn

/-- The two line terminators that are written. -/
inductive LineEnding where
  | lf
  | crlf
deriving DecidableEq, Repr

namespace LineEnding

def chars : LineEnding → Line
  | lf => ['\n']
  | crlf => ['\r', '\n']

/-- A text that holds one CR LF anywhere is written back with CR LF throughout. -/
def of (text : Line) : LineEnding :=
  if occursIn ['\r', '\n'] text then crlf else lf

end LineEnding

def joinLines (e : LineEnding) (lines : List Line) : Line :=
  e.chars.intercalate lines

theorem splitAtFeeds_ne_nil (text : Line) : splitAtFeeds text ≠ [] := by
  cases text with
  | nil => exact List.cons_ne_nil _ _
  | cons c rest =>
    unfold splitAtFeeds
    split
    · exact List.cons_ne_nil _ _
    · split <;> exact List.cons_ne_nil _ _

theorem splitLines_ne_nil (text : Line) : splitLines text ≠ [] := by
  rw [splitLines, ne_eq, List.map_eq_nil_iff]
  exact splitAtFeeds_ne_nil text

theorem splitAtFeeds_no_feed (text : Line) : ∀ l ∈ splitAtFeeds text, '\n' ∉ l := by
  induction text with
  | nil => simp [splitAtFeeds]
  | cons c rest ih =>
    unfold splitAtFeeds
    split
    · intro l hl
      rcases List.mem_cons.mp hl with rfl | hl
      · exact List.not_mem_nil
      · exact ih l hl
    · next hc =>
      split
      · simpa using fun e => hc e.symm
      · next l ls hs =>
        rw [hs] at ih
        intro k hk
        rcases List.mem_cons.mp hk with rfl | hk
        · simpa [hc] using ⟨fun e => hc e.symm, ih l List.mem_cons_self⟩
        · exact ih k (List.mem_cons_of_mem _ hk)

end LanguageService
