import LanguageService.Text.CaseTable
import LanguageService.Text.LowerTable
import LanguageService.Text.Trim

/-!
# Lower case

The full lower-case form of a text.  Each character has its own small letter (one character
becomes two), except that a capital sigma at the end of a word takes its final form.

* `lowerChar c`     the lower-case form of a character that stands alone
* `isFinalSigma`    does a sigma between these two texts end a word?
* `lowercase l`     the lower-case form of a text
* `lowercase_eq_flatMap`   without a capital sigma, characters are mapped one by one
-/

namespace LanguageService

/-- the small letter of a capital beyond ASCII -/
def lowerCodePoint (n : Nat) : Nat :=
  (capitalRuns.findSome? fun r => r.lower? n).getD n

def lowerChar (c : Char) : List Char :=
  let n := c.toNat
  if n < 128 then [if 'A' ≤ c ∧ c ≤ 'Z' then Char.ofNat (n + 32) else c]
  else if n = 0x130 then ['i', Char.ofNat 0x307]
  else [Char.ofNat (lowerCodePoint n)]

/-- Is the first character that matters to letter case a cased letter? -/
def beginsCased (l : Line) : Bool :=
  match l.dropWhile fun c => caseIgnorableIntervals.has c.toNat with
  | [] => false
  | c :: _ => casedIntervals.has c.toNat

/-- `before` is read backwards from the sigma, `after` forwards. -/
def isFinalSigma (before after : Line) : Bool :=
  beginsCased before && !beginsCased after

def capitalSigma : Char := Char.ofNat 0x3a3

def lowercaseFrom (before : Line) : Line → Line
  | [] => []
  | c :: rest =>
    (if c = capitalSigma then [Char.ofNat (if isFinalSigma before rest then 0x3c2 else 0x3c3)]
      else lowerChar c) ++ lowercaseFrom (c :: before) rest

def lowercase (l : Line) : Line :=
  lowercaseFrom [] l

theorem lowercase_eq_flatMap (l : Line) (h : capitalSigma ∉ l) :
    lowercase l = l.flatMap lowerChar := by
  have key : ∀ before, lowercaseFrom before l = l.flatMap lowerChar := by
    induction l with
    | nil => exact fun _ => rfl
    | cons c rest ih =>
      intro before
      obtain ⟨hc, hrest⟩ := not_or.mp (fun hm => h (List.mem_cons.mpr hm))
      rw [lowercaseFrom, if_neg fun e => hc e.symm, ih hrest, List.flatMap_cons]
  exact key []

end LanguageService
