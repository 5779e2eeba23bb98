import LanguageService.Proofs.Editor.RgbColors
import LanguageService.Proofs.Number.Rounding
import LanguageService.Proofs.Text.Lines

/-!
# Ways of writing a color

A color of a document has bytes as channels, and its first two labels write these bytes down.  Each
label is read back as one color with the same bytes: the text of a label is a literal that the
pattern reads in one way only, part by part.

* `IsByteChannel n x`     `x` is the byte `n` divided by 255, correctly rounded
* `exists_bytes_of_mem_documentColors`   the channels of a color are bytes
* `documentColors_hexLabel`, `documentColors_rgbLabel`   the colors in a label
* `colorLabels_roundTrip`    labels are read back
-/

namespace LanguageService

/-! ## bytes as channels -/

/-- a byte divided by 255, correctly rounded -/
def IsByteChannel (n : Nat) (x : Binary32) : Prop :=
  n < 256 ∧ ∃ m k, x = .finite false m k ∧ BinaryFormat.single.Nearest ((n : ℚ) / 255) m k

theorem isByteChannel_ofByte {n : Nat} (hn : n < 256) : IsByteChannel n (.ofByte n) := by
  have hfinite : ∀ n < 256, ((BinaryFormat.single.round? n 255).map fun x =>
      Binary32.finite false x.1 x.2) = some (.ofByte n) := by decide +kernel
  obtain ⟨⟨m, k⟩, hround, hvalue⟩ := Option.map_eq_some_iff.mp (hfinite n hn)
  exact ⟨hn, m, k, hvalue.symm, BinaryFormat.nearest_of_round? (by decide) (by decide) hround⟩

/-- the color of three bytes -/
def bytesColor (r g b : Nat) : Color :=
  ⟨.ofByte r, .ofByte g, .ofByte b, .one⟩

/-! ## hexadecimal digits of a byte -/

theorem hexDigit_hexValue {c : Char} (h : isHexDigit c = true) :
    hexValue c < 16 ∧ hexDigit (hexValue c) = c.toUpper := by
  have hascii : ∀ n < 128, isHexDigit (Char.ofNat n) = true → hexValue (Char.ofNat n) < 16 ∧
      hexDigit (hexValue (Char.ofNat n)) = (Char.ofNat n).toUpper := by decide +kernel
  have hc := hascii c.toNat (toNat_lt_of_isNameChar (isNameChar_of_isHexDigit h))
  rw [Char.ofNat_toNat] at hc
  exact hc h

theorem hexValue_hexDigit : ∀ n < 16, hexDigit n ∈ "0123456789ABCDEF".toList ∧
    isHexDigit (hexDigit n) = true ∧ hexValue (hexDigit n) = n := by
  decide +kernel

/-- the digits of three bytes -/
def hexBytes (r g b : Nat) : Line :=
  hexByte r ++ hexByte g ++ hexByte b

theorem mem_hexByte {n : Nat} (hn : n < 256) : ∀ c ∈ hexByte n,
    c ∈ "0123456789ABCDEF".toList ∧ isHexDigit c = true := by
  intro c hc
  have hhigh := hexValue_hexDigit (n / 16) (Nat.div_lt_of_lt_mul hn)
  have hlow := hexValue_hexDigit (n % 16) (Nat.mod_lt n (by decide))
  rcases List.mem_pair.mp hc with rfl | rfl
  · exact ⟨hhigh.1, hhigh.2.1⟩
  · exact ⟨hlow.1, hlow.2.1⟩

theorem ofByte_hexByte {n : Nat} (hn : n < 256) :
    Binary32.ofByte (hexValue (hexDigit (n / 16)) * 16 + hexValue (hexDigit (n % 16))) =
      .ofByte n := by
  rw [(hexValue_hexDigit (n / 16) (Nat.div_lt_of_lt_mul hn)).2.2,
    (hexValue_hexDigit (n % 16) (Nat.mod_lt n (by decide))).2.2, Nat.mul_comm, Nat.div_add_mod]

section
variable {r g b : Nat} (hr : r < 256) (hg : g < 256) (hb : b < 256)
include hr hg hb

theorem mem_hexBytes : ∀ c ∈ hexBytes r g b,
    c ∈ "0123456789ABCDEF".toList ∧ isHexDigit c = true := by
  intro c hc
  rcases List.mem_append.mp hc with hc | hc
  · rcases List.mem_append.mp hc with hc | hc
    · exact mem_hexByte hr c hc
    · exact mem_hexByte hg c hc
  · exact mem_hexByte hb c hc

theorem isColorDigits_hexBytes : IsColorDigits (hexBytes r g b) :=
  ⟨Or.inr rfl, fun c hc => (mem_hexBytes hr hg hb c hc).2⟩

theorem digitsColor_hexBytes : digitsColor (hexBytes r g b) = bytesColor r g b := by
  rw [digitsColor_eq (w := hexBytes r g b) rfl, hexColor?.ofPairs]
  simp only [ofByte_hexByte hr, ofByte_hexByte hg, ofByte_hexByte hb]
  rfl

end

theorem hexByte_pair {x y : Char} (hx : isHexDigit x = true) (hy : isHexDigit y = true) :
    hexByte (hexValue x * 16 + hexValue y) = [x.toUpper, y.toUpper] ∧
      hexValue x * 16 + hexValue y < 256 := by
  obtain ⟨hxlt, hx⟩ := hexDigit_hexValue hx
  obtain ⟨hylt, hy⟩ := hexDigit_hexValue hy
  have hhigh : (hexValue x * 16 + hexValue y) / 16 = hexValue x := by omega
  have hlow : (hexValue x * 16 + hexValue y) % 16 = hexValue y := by omega
  rw [hexByte, hhigh, hlow, hx, hy]
  exact ⟨rfl, by omega⟩

theorem exists_bytes_of_digits {w : Line} (hw : IsColorDigits w) :
    ∃ r g b, (r < 256 ∧ g < 256 ∧ b < 256) ∧ digitsColor w = bytesColor r g b ∧
      hexBytes r g b = (pairedDigits w).map Char.toUpper := by
  obtain ⟨r, r', g, g', b, b', hpairs, hdigits⟩ := exists_pairs hw
  obtain ⟨hred, hr⟩ := hexByte_pair (hdigits r (by simp)) (hdigits r' (by simp))
  obtain ⟨hgreen, hg⟩ := hexByte_pair (hdigits g (by simp)) (hdigits g' (by simp))
  obtain ⟨hblue, hb⟩ := hexByte_pair (hdigits b (by simp)) (hdigits b' (by simp))
  refine ⟨_, _, _, ⟨hr, hg, hb⟩, digitsColor_eq hpairs, ?_⟩
  rw [hexBytes, hred, hgreen, hblue, hpairs]
  rfl

/-! ## the channels of a document's colors -/

theorem exists_byte_of_rgbChannel? {digits : Line} {x : Binary32}
    (h : rgbChannel? digits = some x) : ∃ n < 256, x = .ofByte n := by
  obtain ⟨-, hx⟩ := Option.ite_none_right_eq_some.mp h
  exact ⟨_, Nat.lt_succ_of_le (Nat.min_le_right _ _), (Option.some.inj hx).symm⟩

theorem exists_bytes_of_rgbColor? {m : Match} {l : Line} {c : Color} (h : rgbColor? m l = some c) :
    ∃ r g b, (r < 256 ∧ g < 256 ∧ b < 256) ∧ c = { bytesColor r g b with alpha := c.alpha } := by
  simp only [rgbColor?] at h
  split at h
  · next hred hgreen hblue =>
    obtain ⟨r, hr, rfl⟩ := exists_byte_of_rgbChannel? hred
    obtain ⟨g, hg, rfl⟩ := exists_byte_of_rgbChannel? hgreen
    obtain ⟨b, hb, rfl⟩ := exists_byte_of_rgbChannel? hblue
    exact ⟨r, g, b, ⟨hr, hg, hb⟩, by rw [← Option.some.inj h]; rfl⟩
  · cases h

theorem exists_bytes_of_mem_documentColors {lines : List Line} {c : DocumentColor}
    (h : c ∈ documentColors lines) : ∃ r g b, (r < 256 ∧ g < 256 ∧ b < 256) ∧
      c.color = { bytesColor r g b with alpha := c.color.alpha } := by
  obtain ⟨k, -, hc⟩ := List.mem_flatMap.mp h
  rw [colorsOnLine_eq] at hc
  rcases List.mem_append.mp hc with hc | hc
  · obtain ⟨s, hs, rfl⟩ := List.mem_map.mp hc
    obtain ⟨-, hdigits⟩ := chars_group_hexMatch (mem_hexLiterals_iff.mp hs)
    obtain ⟨r, g, b, hbytes, hcolor, -⟩ := exists_bytes_of_digits hdigits
    exact ⟨r, g, b, hbytes, by rw [hexColorAt, hcolor]⟩
  · obtain ⟨m, -, hc⟩ := List.mem_filterMap.mp hc
    obtain ⟨color, hcolor, rfl⟩ := Option.map_eq_some_iff.mp hc
    exact exists_bytes_of_rgbColor? hcolor

/-! ## the labels -/

theorem toList_hexLabel (r g b : Nat) : (hexLabel r g b).toList = '#' :: hexBytes r g b := by
  rw [hexLabel, String.toList_ofList, hexBytes]

theorem toList_rgbLabel (r g b : Nat) : (rgbLabel r g b).toList =
    rgbText (decimalDigits r) (decimalDigits g) (decimalDigits b) := by
  simp only [rgbLabel, String.toList_append, Nat.toString_eq_ofList_toDigits,
    String.toList_ofList, List.append_assoc]
  rfl

theorem documentColors_line {l : Line} (hfeed : '\n' ∉ l) (hreturn : '\r' ∉ l) :
    documentColors (splitLines l) = hexColorsOnLine ⟨0, l⟩ ++ rgbColorsOnLine ⟨0, l⟩ := by
  rw [splitLines_of_line hfeed hreturn, ← colorsOnLine_eq]
  exact List.flatMap_singleton _ _

theorem Span.range_whole (n : Nat) (l : Line) :
    Span.range ⟨0, l.length⟩ n l = ⟨⟨n, 0⟩, ⟨n, width l⟩⟩ := by
  rw [Span.range, column_zero, column_length]

section
variable {r g b : Nat} (hr : r < 256) (hg : g < 256) (hb : b < 256)
include hr hg hb

theorem take_colorLabels (alpha : Binary32) :
    (colorLabels { bytesColor r g b with alpha := alpha }).take 2 =
      [hexLabel r g b, rgbLabel r g b] := by
  simp only [colorLabels, bytesColor, Binary32.toByte_ofByte r hr, Binary32.toByte_ofByte g hg,
    Binary32.toByte_ofByte b hb]
  exact List.take_left' rfl

theorem documentColors_hexLabel : documentColors (splitLines (hexLabel r g b).toList) =
    [⟨⟨⟨0, 0⟩, ⟨0, width (hexLabel r g b).toList⟩⟩, bytesColor r g b⟩] := by
  have hnot {c : Char} (hc : c ∉ "#0123456789ABCDEF".toList) : c ∉ '#' :: hexBytes r g b := by
    intro hmem
    rcases List.mem_cons.mp hmem with rfl | hmem
    · exact hc (by decide)
    · exact hc (List.mem_cons_of_mem _ (mem_hexBytes hr hg hb c hmem).1)
  have hdigits := isColorDigits_hexBytes hr hg hb
  have hword : wordFrom ('#' :: hexBytes r g b) 1 = hexBytes r g b := by
    have hliteral := wordFrom_literal (p := []) hdigits startsInWord_nil
    rwa [List.append_nil] at hliteral
  rw [toList_hexLabel, documentColors_line (hnot (by decide)) (hnot (by decide)),
    rgbColorsOnLine_eq_nil (hnot (by decide)), List.append_nil, hexColorsOnLine,
    hexLiterals_whole hdigits, List.map_singleton, hexColorAt, Span.range_whole]
  show [DocumentColor.mk _ (digitsColor (wordFrom ('#' :: hexBytes r g b) 1))] = _
  rw [hword, digitsColor_hexBytes hr hg hb]

theorem documentColors_rgbLabel : documentColors (splitLines (rgbLabel r g b).toList) =
    [⟨⟨⟨0, 0⟩, ⟨0, width (rgbLabel r g b).toList⟩⟩, bytesColor r g b⟩] := by
  have hnot {c : Char} (hc : c ∉ "rgb(, )".toList) (hdigit : isAsciiDigit c = false) :
      c ∉ rgbText (decimalDigits r) (decimalDigits g) (decimalDigits b) := by
    have hother (n : Nat) : c ∉ decimalDigits n := fun hmem =>
      Bool.eq_false_iff.mp hdigit (isAsciiDigit_of_mem_decimalDigits c hmem)
    intro hmem
    rcases mem_rgbText hmem with hmark | hmem | hmem | hmem
    · exact hc hmark
    · exact hother r hmem
    · exact hother g hmem
    · exact hother b hmem
  rw [toList_rgbLabel, documentColors_line (hnot (by decide) rfl) (hnot (by decide) rfl),
    hexColorsOnLine_eq_nil (hnot (by decide) rfl), List.nil_append,
    rgbColorsOnLine_rgbText hr hg hb, Span.range_whole]
  rfl

end

/-- **Labels are read back.**  The channels of every color of a document are bytes divided by 255,
correctly rounded.  Its first label is a hash and six hexadecimal digits in upper case, its second
`rgb(r, g, b)` with these bytes; and a document that is one of these labels has one color, with the
same channels, opaque, from the start of the label to its end.  The first label of a hexadecimal
literal is this literal in upper case, with each digit of a short form doubled. -/
theorem colorLabels_roundTrip (lines : List Line) :
    (∀ c ∈ documentColors lines, ∃ r g b : Nat,
      (IsByteChannel r c.color.red ∧ IsByteChannel g c.color.green ∧
        IsByteChannel b c.color.blue) ∧
      (∃ w, (colorLabels c.color).take 2 = [String.ofList ('#' :: w),
          "rgb(" ++ toString r ++ ", " ++ toString g ++ ", " ++ toString b ++ ")"] ∧
        w.length = 6 ∧ ∀ d ∈ w, d ∈ "0123456789ABCDEF".toList) ∧
      ∀ label ∈ (colorLabels c.color).take 2, documentColors (splitLines label.toList) =
        [⟨⟨⟨0, 0⟩, ⟨0, width label.toList⟩⟩, { c.color with alpha := .one }⟩]) ∧
    ∀ k ∈ numberLines lines, ∀ s ∈ hexLiterals k.text, hexColorAt k s ∈ documentColors lines ∧
      (colorLabels (hexColorAt k s).color).head? = some (String.ofList
        ('#' :: (pairedDigits (wordFrom k.text (s.start + 1))).map Char.toUpper)) := by
  refine ⟨fun c hc => ?_, fun k hk s hs => ⟨hexColorAt_mem hk hs, ?_⟩⟩
  · obtain ⟨r, g, b, ⟨hr, hg, hb⟩, hcolor⟩ := exists_bytes_of_mem_documentColors hc
    have hlabels : (colorLabels c.color).take 2 = [hexLabel r g b, rgbLabel r g b] := by
      rw [hcolor, take_colorLabels hr hg hb]
    have hopaque : { c.color with alpha := .one } = bytesColor r g b := by
      rw [hcolor]
      rfl
    have hchannels := And.intro (isByteChannel_ofByte hr)
      (And.intro (isByteChannel_ofByte hg) (isByteChannel_ofByte hb))
    refine ⟨r, g, b, ?_, ⟨hexBytes r g b, hlabels, rfl, fun d hd => ?_⟩, ?_⟩
    · rw [hcolor]
      exact hchannels
    · exact (mem_hexBytes hr hg hb d hd).1
    · rw [hlabels, hopaque, List.forall_mem_cons, List.forall_mem_singleton]
      exact ⟨documentColors_hexLabel hr hg hb, documentColors_rgbLabel hr hg hb⟩
  · obtain ⟨-, hdigits⟩ := chars_group_hexMatch (mem_hexLiterals_iff.mp hs)
    obtain ⟨r, g, b, ⟨hr, hg, hb⟩, hcolor, hupper⟩ := exists_bytes_of_digits hdigits
    have hhead := congrArg List.head? (take_colorLabels hr hg hb .one)
    rw [List.head?_take, if_neg (by decide)] at hhead
    rw [← hupper, hexColorAt, hcolor]
    exact hhead

example : (documentColors (splitLines "#aBc rgba(1, 2, 300, .5)".toList)).map
    (fun c => (colorLabels c.color).take 2) =
      [["#AABBCC", "rgb(170, 187, 204)"], ["#0102FF", "rgb(1, 2, 255)"]] := by
  decide +kernel

end LanguageService
