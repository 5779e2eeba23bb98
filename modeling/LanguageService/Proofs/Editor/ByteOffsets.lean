import LanguageService.Editor.Call
import LanguageService.Editor.Color
import LanguageService.Editor.Token
import LanguageService.Proofs.Language.Declarations
import LanguageService.Proofs.Pattern.Spans
import LanguageService.Proofs.Text.Cuts
import LanguageService.Proofs.Text.Margins

/-!
# Ranges, tokens and colors by byte offsets

A match is found with its byte offsets, and other offsets are computed from them: the margins of a
line by subtraction, the end of a called name by adding its length, the length of a token by
subtraction, the digits of a color by counting.  Here these offsets are checked wherever a line is
cut, and no check ever fails.

* `trimmedRangeInBytes?_eq`   margins
* `callRangeInBytes?_eq`      called names
* `tokenInBytes?_eq`          tokens
* `hexColorInBytes?_eq`       the digits of a color
-/

namespace LanguageService

/-! ## margins -/

/-- `Range.ofTrimmed`, computed with byte offsets -/
def trimmedRangeInBytes? (n : Nat) (l : Line) : Option Range :=
  (difference? (byteWidth l) (byteWidth (trimStart l))).bind fun i =>
    byteRange? n l i (max (byteWidth (trimEnd l)) i)

theorem byteOffset_max (l : Line) (j k : Nat) :
    max (byteOffset l j) (byteOffset l k) = byteOffset l (max j k) := by
  rcases Nat.le_total j k with h | h
  · rw [Nat.max_eq_right h, Nat.max_eq_right (byteOffset_mono l h)]
  · rw [Nat.max_eq_left h, Nat.max_eq_left (byteOffset_mono l h)]

theorem byteOffset_trimEnd (l : Line) : byteOffset l (trimEnd l).length = byteWidth (trimEnd l) := by
  obtain ⟨h, -, heq⟩ := exists_append_trimEnd l
  have hoffset := byteOffset_append (trimEnd l) h
  rwa [← heq] at hoffset

theorem difference?_trimStart (l : Line) :
    difference? (byteWidth l) (byteWidth (trimStart l)) = some (byteOffset l (indentWidth l)) := by
  have hsplit := congrArg byteWidth (List.take_append_drop (indentWidth l) l)
  rw [byteWidth_append, ← trimStart_eq_drop] at hsplit
  rw [difference?_of_le (by omega), byteOffset]
  congr 1
  omega

/-- The offsets of the margins are places to cut at, and no difference is negative. -/
theorem trimmedRangeInBytes?_eq (n : Nat) (l : Line) :
    trimmedRangeInBytes? n l = some (Range.ofTrimmed n l) := by
  rw [trimmedRangeInBytes?, difference?_trimStart, Option.bind_some, ← byteOffset_trimEnd,
    byteOffset_max]
  exact byteRange?_byteOffset n l ⟨indentWidth l, max (trimEnd l).length (indentWidth l)⟩

/-! ## called names -/

/-- the range of the name in a call of it: from the start of the call over the bytes of the name -/
def callRangeInBytes? (name : String) (l : NumberedLine) (m : Match) : Option Range :=
  let start := byteOffset l.text m.span.start
  byteRange? l.number l.text start (start + byteWidth name.toList)

theorem exists_name_of_call {name : String} {l : Line} {m : Match}
    (h : (Shape.call name).Finds l m) :
    ∃ p r, l = p ++ (name.toList ++ r) ∧ m.span.start = p.length := by
  obtain ⟨⟨p, x, y, gs, rfl, hf, hspan⟩, -⟩ := Pattern.reads_of_finds h
  obtain ⟨-, hf⟩ := Pattern.fits_wordEdge_seq.mp hf
  obtain ⟨x₁, x₂, g₁, g₂, hname, -, rfl, -⟩ := Pattern.fits_seq.mp hf
  obtain ⟨rfl, -⟩ := Pattern.fits_nameText.mp hname
  refine ⟨p, x₂ ++ y, by rw [List.append_assoc], by rw [hspan]⟩

theorem callRangeInBytes?_eq {name : String} {l : NumberedLine} {m : Match}
    (h : (Shape.call name).Finds l.text m) : callRangeInBytes? name l m =
      some (Span.range ⟨m.span.start, m.span.start + name.length⟩ l.number l.text) := by
  obtain ⟨p, r, hl, hstart⟩ := exists_name_of_call h
  rw [callRangeInBytes?, hstart, hl, ← String.length_toList, byteOffset_append,
    byteRange?_between]

/-! ## tokens -/

/-- `Span.token`, computed with byte offsets -/
def Span.tokenInBytes? (s : Span) (l : NumberedLine) (kind : TokenKind)
    (modifiers : List TokenModifier) : Option Token :=
  (utf16Column? l.text (byteOffset l.text s.start)).bind fun start =>
    (utf16Column? l.text (byteOffset l.text s.stop)).bind fun stop =>
      (difference? stop start).map fun length =>
        ⟨l.number, start, length, kind.index, modifiers.foldr (fun m bits => m.bit + bits) 0⟩

theorem Span.tokenInBytes?_eq {s : Span} {l : NumberedLine} (h : s.start ≤ s.stop)
    (kind : TokenKind) (modifiers : List TokenModifier) :
    s.tokenInBytes? l kind modifiers = some (s.token l kind modifiers) := by
  rw [tokenInBytes?, utf16Column?_byteOffset, utf16Column?_byteOffset, Option.bind_some,
    Option.bind_some, difference?_of_le (column_mono l.text h)]
  rfl

/-! ## the digits of a color -/

/-- the channel that is written in the two digits behind byte offset `i` -/
def hexChannelInBytes? (digits : Line) (i : Nat) : Option (Option Binary32) :=
  (slice? digits i (i + 2)).map fun pair =>
    match pair with
    | [x, y] => some (Binary32.ofByte (hexValue x * 16 + hexValue y))
    | _ => none

/-- the color that is written in six digits -/
def hexPairsInBytes? (digits : Line) : Option (Option Color) :=
  (hexChannelInBytes? digits 0).bind fun red => (hexChannelInBytes? digits 2).bind fun green =>
    (hexChannelInBytes? digits 4).map fun blue =>
      red.bind fun r => green.bind fun g => blue.map fun b => ⟨r, g, b, .one⟩

/-- `hexColor?`, computed with byte offsets -/
def hexColorInBytes? (digits : Line) : Option (Option Color) :=
  match byteWidth digits with
  | 3 => hexPairsInBytes? (digits.flatMap fun c => [c, c])
  | 6 => hexPairsInBytes? digits
  | _ => some none

theorem isNameChar_of_isHexDigit {c : Char} (h : isHexDigit c = true) : isNameChar c = true := by
  simp only [isHexDigit, isNameChar, isNameStart, isAsciiDigit, Bool.or_eq_true, Bool.and_eq_true,
    decide_eq_true_eq] at h ⊢
  rcases h with (h | ⟨ha, hf⟩) | ⟨ha, hf⟩
  · exact Or.inr h
  · exact Or.inl (Or.inl (Or.inl ⟨ha, Char.le_trans hf (by decide)⟩))
  · exact Or.inl (Or.inl (Or.inr ⟨ha, Char.le_trans hf (by decide)⟩))

theorem utf8Size_of_isHexDigit {c : Char} (h : isHexDigit c = true) : c.utf8Size = 1 :=
  Char.utf8Size_eq_one_iff.mpr
    (Nat.le_of_lt_succ (toNat_lt_of_isNameChar (isNameChar_of_isHexDigit h)))

theorem byteWidth_of_isHexDigit {d : Line} (h : ∀ c ∈ d, isHexDigit c = true) :
    byteWidth d = d.length := by
  induction d with
  | nil => rfl
  | cons c d ih =>
    rw [byteWidth, utf8Size_of_isHexDigit (h c List.mem_cons_self),
      ih fun c hc => h c (List.mem_cons_of_mem _ hc), List.length_cons, Nat.add_comm]

theorem hexChannelInBytes?_between (before : Line) (x y : Char) (after : Line)
    (h : ∀ c ∈ before ++ ([x, y] ++ after), isHexDigit c = true) :
    hexChannelInBytes? (before ++ ([x, y] ++ after)) before.length =
      some (some (Binary32.ofByte (hexValue x * 16 + hexValue y))) := by
  have hbefore := byteWidth_of_isHexDigit fun c hc => h c (List.mem_append_left _ hc)
  have hpair := byteWidth_of_isHexDigit fun c hc =>
    h c (List.mem_append_right _ (List.mem_append_left _ hc))
  have hslice := slice?_between before [x, y] after
  rw [hbefore, hpair] at hslice
  show (slice? _ before.length (before.length + [x, y].length)).map _ = _
  rw [hslice]
  rfl

theorem hexPairsInBytes?_eq {r r' g g' b b' : Char}
    (h : ∀ c ∈ [r, r', g, g', b, b'], isHexDigit c = true) :
    hexPairsInBytes? [r, r', g, g', b, b'] = some (some (hexColor?.ofPairs r r' g g' b b')) := by
  have hred : hexChannelInBytes? [r, r', g, g', b, b'] 0 = _ :=
    hexChannelInBytes?_between [] r r' [g, g', b, b'] h
  have hgreen : hexChannelInBytes? [r, r', g, g', b, b'] 2 = _ :=
    hexChannelInBytes?_between [r, r'] g g' [b, b'] h
  have hblue : hexChannelInBytes? [r, r', g, g', b, b'] 4 = _ :=
    hexChannelInBytes?_between [r, r', g, g'] b b' [] h
  rw [hexPairsInBytes?, hred, hgreen, hblue]
  rfl

/-- The digits of a color are cut between two of them. -/
theorem hexColorInBytes?_eq {digits : Line} (h : ∀ c ∈ digits, isHexDigit c = true) :
    hexColorInBytes? digits = some (hexColor? digits) := by
  rw [hexColorInBytes?, byteWidth_of_isHexDigit h]
  match digits, h with
  | [r, g, b], h =>
    refine hexPairsInBytes?_eq fun c hc => h c ?_
    simpa using hc
  | [r, r', g, g', b, b'], h => exact hexPairsInBytes?_eq h
  | [], _ => rfl
  | [_], _ => rfl
  | [_, _], _ => rfl
  | [_, _, _, _], _ => rfl
  | [_, _, _, _, _], _ => rfl
  | _ :: _ :: _ :: _ :: _ :: _ :: _ :: _, _ => rfl

theorem isHexDigit_of_finds {l : Line} {m : Match} (h : hexColorText.Finds l m) :
    ∀ c ∈ (m.group 1).chars l, isHexDigit c = true := by
  obtain ⟨p, b, rfl, hm⟩ := h
  obtain ⟨x, y, gs, rfl, hf, rfl⟩ := Pattern.fits_of_matchAt? hm
  obtain ⟨h₁, x, g₁, g₂, hhash, ⟨d, e, g₃, g₄, ⟨g, hd, rfl⟩, ⟨-, rfl, rfl⟩, rfl, rfl⟩, rfl, rfl⟩ := hf
  obtain ⟨rfl, rfl⟩ := (Pattern.fits_literal _).mp hhash
  have hdigits : ∀ c ∈ d, isHexDigit c = true := by
    rcases hd with hd | hd
    · exact (Pattern.fits_times.mp hd).2.1
    · exact (Pattern.fits_times.mp hd).2.1
  have hline : p ++ (['#'] ++ (d ++ []) ++ y) = (p ++ ['#']) ++ (d ++ y) := by simp
  show ∀ c ∈ (Span.mk (p ++ ['#']).length ((p ++ ['#']).length + d.length)).chars _, _
  rw [hline, Span.chars_between]
  exact hdigits

end LanguageService
