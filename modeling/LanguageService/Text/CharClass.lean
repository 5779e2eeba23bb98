import LanguageService.Text.WordTable
import LanguageService.Text.DigitTable

/-!
# Character classes

The classes that the language's patterns and the editor's notion of a word are built from.

* `isNameStart`, `isNameChar`   the ASCII characters of an identifier
* `isWord`                      a word character of the Unicode standard; word edges lie between
                                a word character and another one
* `isBlank`                     white space of the Unicode standard
* `isDecimal`                   a decimal digit of any script
* `isWord_of_isNameChar`, `not_isWord_of_isBlank`   how the classes lie to each other
-/

namespace LanguageService

/-- ASCII letters and the underscore -/
def isNameStart (c : Char) : Bool :=
  ('a' ≤ c && c ≤ 'z') || ('A' ≤ c && c ≤ 'Z') || c == '_'

/-- the ASCII digits -/
def isAsciiDigit (c : Char) : Bool :=
  '0' ≤ c && c ≤ '9'

/-- ASCII letters, digits and the underscore -/
def isNameChar (c : Char) : Bool :=
  isNameStart c || isAsciiDigit c

/-- hexadecimal digits of either case -/
def isHexDigit (c : Char) : Bool :=
  isAsciiDigit c || ('a' ≤ c && c ≤ 'f') || ('A' ≤ c && c ≤ 'F')

def isWord (c : Char) : Bool :=
  if c.toNat < 128 then isNameChar c else wordIntervals.has c.toNat

def isDecimal (c : Char) : Bool :=
  if c.toNat < 128 then isAsciiDigit c else digitIntervals.has c.toNat

/-- White space: tabs, line breaks, the space and the spaces of other scripts; neither the zero
width space nor the byte order mark is among them. -/
def isBlank (c : Char) : Bool :=
  let n := c.toNat
  if n < 128 then (9 ≤ n && n ≤ 13) || n == 32
  else n == 0x85 || n == 0xa0 || n == 0x1680 || (0x2000 ≤ n && n ≤ 0x200a) || n == 0x2028 ||
    n == 0x2029 || n == 0x202f || n == 0x205f || n == 0x3000

theorem isNameChar_of_isNameStart {c : Char} (h : isNameStart c = true) : isNameChar c = true := by
  simp [isNameChar, h]

theorem toNat_lt_of_isNameChar {c : Char} (h : isNameChar c = true) : c.toNat < 128 := by
  simp only [isNameChar, isNameStart, isAsciiDigit, Bool.or_eq_true, Bool.and_eq_true,
    decide_eq_true_eq, beq_iff_eq, Char.le_def, UInt32.le_iff_toNat_le] at h
  have hz : 'z'.val.toNat = 122 := rfl
  have hZ : 'Z'.val.toNat = 90 := rfl
  have h9 : '9'.val.toNat = 57 := rfl
  rcases h with ((⟨_, h⟩ | ⟨_, h⟩) | rfl) | ⟨_, h⟩
  · show c.val.toNat < 128
    omega
  · show c.val.toNat < 128
    omega
  · decide
  · show c.val.toNat < 128
    omega

theorem isWord_of_isNameChar {c : Char} (h : isNameChar c = true) : isWord c = true := by
  rw [isWord, if_pos (toNat_lt_of_isNameChar h)]
  exact h

theorem toNat_of_isBlank {c : Char} (h : isBlank c = true) :
    c.toNat ∈ [9, 10, 11, 12, 13, 32, 0x85, 0xa0, 0x1680, 0x2000, 0x2001, 0x2002, 0x2003, 0x2004,
      0x2005, 0x2006, 0x2007, 0x2008, 0x2009, 0x200a, 0x2028, 0x2029, 0x202f, 0x205f, 0x3000] := by
  simp only [isBlank] at h
  simp only [List.mem_cons, List.not_mem_nil, or_false]
  split at h
  · simp only [Bool.or_eq_true, Bool.and_eq_true, decide_eq_true_eq, beq_iff_eq] at h
    omega
  · simp only [Bool.or_eq_true, Bool.and_eq_true, decide_eq_true_eq, beq_iff_eq] at h
    omega

theorem not_isWord_of_isBlank {c : Char} (h : isBlank c = true) : isWord c = false := by
  have key : ∀ n ∈ [9, 10, 11, 12, 13, 32, 0x85, 0xa0, 0x1680, 0x2000, 0x2001, 0x2002, 0x2003,
      0x2004, 0x2005, 0x2006, 0x2007, 0x2008, 0x2009, 0x200a, 0x2028, 0x2029, 0x202f, 0x205f,
      0x3000], isWord (Char.ofNat n) = false := by decide +kernel
  have := key c.toNat (toNat_of_isBlank h)
  rwa [Char.ofNat_toNat] at this

end LanguageService
