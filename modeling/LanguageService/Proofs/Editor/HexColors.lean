import Mathlib.Data.Nat.Digits.Defs
import LanguageService.Proofs.Editor.ByteOffsets
import LanguageService.Proofs.Pattern.Successive
import LanguageService.Proofs.Source.SymbolTable

/-!
# Hexadecimal colors

A hash is the start of a color if the whole run of word characters that directly follows it is made
of three or six hexadecimal digits.  The pattern tries six digits, falls back to three, and then asks
for the edge of a word; here the run is looked at once, and never cut.

* `hexLiterals l`             the literals of a line, hash by hash
* `mem_hexLiterals_iff`       each by the text before it, its digits, and the text behind it
* `all_hexColorText`          they are the matches of the pattern
* `digitsColor w`             the color of three pairs of digits
* `colorsOnLine_eq`           the colors on a line, those of its literals first
* `documentColors_hexadecimal`   the hexadecimal colors of a document
-/

namespace LanguageService

/-! ## the digits of a color -/

/-- three or six hexadecimal digits -/
def IsColorDigits (w : Line) : Prop :=
  (w.length = 3 ∨ w.length = 6) ∧ ∀ c ∈ w, isHexDigit c = true

instance (w : Line) : Decidable (IsColorDigits w) :=
  @instDecidableAnd _ _ _ (List.decidableBAll _ w)

theorem IsColorDigits.isWordText {w : Line} (hw : IsColorDigits w) : IsWordText w where
  ne_nil := by
    rintro rfl
    exact absurd hw.1 (by decide)
  isWord := fun c hc => isWord_of_isNameChar (isNameChar_of_isHexDigit (hw.2 c hc))

/-- the digits in pairs: each digit of a short form is doubled -/
def pairedDigits (w : Line) : Line :=
  if w.length = 3 then w.flatMap fun c => [c, c] else w

/-- the value of the two digits of a pair, divided by 255 -/
def pairChannel (w : Line) (i : Nat) : Binary32 :=
  let pair := ((pairedDigits w).drop (2 * i)).take 2
  .ofRatio false (Nat.ofDigits 16 (pair.reverse.map hexValue)) 255

/-- the color of three pairs of digits -/
def digitsColor (w : Line) : Color :=
  ⟨pairChannel w 0, pairChannel w 1, pairChannel w 2, .one⟩

theorem pairChannel_eq {w : Line} {i : Nat} {x y : Char}
    (h : ((pairedDigits w).drop (2 * i)).take 2 = [x, y]) :
    pairChannel w i = .ofByte (hexValue x * 16 + hexValue y) := by
  have hvalue : Nat.ofDigits 16 ([x, y].reverse.map hexValue) = hexValue x * 16 + hexValue y := by
    show Nat.ofDigits 16 [hexValue y, hexValue x] = _
    rw [Nat.ofDigits_cons, Nat.ofDigits_singleton, Nat.add_comm, Nat.mul_comm]
  rw [pairChannel, h, hvalue]
  rfl

theorem digitsColor_eq {w : Line} {r r' g g' b b' : Char}
    (h : pairedDigits w = [r, r', g, g', b, b']) :
    digitsColor w = hexColor?.ofPairs r r' g g' b b' := by
  have hred : pairChannel w 0 = _ := pairChannel_eq (x := r) (y := r') (by rw [h]; rfl)
  have hgreen : pairChannel w 1 = _ := pairChannel_eq (x := g) (y := g') (by rw [h]; rfl)
  have hblue : pairChannel w 2 = _ := pairChannel_eq (x := b) (y := b') (by rw [h]; rfl)
  rw [digitsColor, hred, hgreen, hblue]
  rfl

theorem hexColor?_eq {w : Line} (hw : w.length = 3 ∨ w.length = 6) :
    hexColor? w = some (digitsColor w) := by
  match w, hw with
  | [r, g, b], _ =>
    rw [digitsColor_eq (w := [r, g, b]) rfl]
    rfl
  | [r, r', g, g', b, b'], _ =>
    rw [digitsColor_eq (w := [r, r', g, g', b, b']) rfl]
    rfl

theorem exists_pairs {w : Line} (hw : IsColorDigits w) : ∃ r r' g g' b b',
    pairedDigits w = [r, r', g, g', b, b'] ∧ ∀ c ∈ [r, r', g, g', b, b'], isHexDigit c = true := by
  match w, hw.1, hw.2 with
  | [r, g, b], _, hdigits => exact ⟨r, r, g, g, b, b, rfl, by simpa using hdigits⟩
  | [r, r', g, g', b, b'], _, hdigits => exact ⟨r, r', g, g', b, b', rfl, hdigits⟩

/-! ## the literals of a line -/

/-- the run of word characters that a text begins with at a place -/
def wordFrom (l : Line) (k : Nat) : Line :=
  (l.drop k).takeWhile isWord

/-- the literal that begins at a place, if there is one -/
def hexLiteralAt? (l : Line) (k : Nat) : Option Span :=
  if l[k]? = some '#' ∧ IsColorDigits (wordFrom l (k + 1)) then
    some ⟨k, k + 1 + (wordFrom l (k + 1)).length⟩
  else none

/-- the literals of a line, from left to right -/
def hexLiterals (l : Line) : List Span :=
  (List.range l.length).filterMap (hexLiteralAt? l)

/-- A hash and the digits of a color, up to the end of a word. -/
def IsHexLiteral (l : Line) (s : Span) : Prop :=
  ∃ p w y, l = p ++ '#' :: (w ++ y) ∧ IsColorDigits w ∧ startsInWord y = false ∧
    s = ⟨p.length, p.length + 1 + w.length⟩

theorem not_isWord_hash : isWord '#' = false := by decide +kernel

theorem drop_behind_hash (p t : Line) : (p ++ '#' :: t).drop (p.length + 1) = t := by
  rw [← List.drop_drop, List.drop_left]
  rfl

theorem wordFrom_literal {p w y : Line} (hw : IsColorDigits w) (hy : startsInWord y = false) :
    wordFrom (p ++ '#' :: (w ++ y)) (p.length + 1) = w := by
  rw [wordFrom, drop_behind_hash, takeWhile_append_of_run hw.isWordText.isWord hy]

theorem hexLiteralAt?_literal {p w y : Line} (hw : IsColorDigits w)
    (hy : startsInWord y = false) : hexLiteralAt? (p ++ '#' :: (w ++ y)) p.length =
      some ⟨p.length, p.length + 1 + w.length⟩ := by
  have hhash : (p ++ '#' :: (w ++ y))[p.length]? = some '#' := getElem?_behind p _
  rw [hexLiteralAt?, wordFrom_literal hw hy, if_pos ⟨hhash, hw⟩]

theorem exists_of_hexLiteralAt? {l : Line} {k : Nat} {s : Span} (h : hexLiteralAt? l k = some s) :
    s.start = k ∧ IsHexLiteral l s := by
  rw [hexLiteralAt?] at h
  split at h
  · next hat =>
    obtain ⟨hhash, hw⟩ := hat
    obtain rfl := Option.some.inj h
    obtain ⟨hk, hchar⟩ := List.getElem?_eq_some_iff.mp hhash
    have hlen : (l.take k).length = k := List.length_take_of_le (Nat.le_of_lt hk)
    refine ⟨rfl, l.take k, wordFrom l (k + 1), (l.drop (k + 1)).dropWhile isWord, ?_, hw,
      head?_dropWhile_any isWord _, by rw [hlen]⟩
    rw [wordFrom, List.takeWhile_append_dropWhile, ← hchar, ← List.drop_eq_getElem_cons hk,
      List.take_append_drop]
  · cases h

theorem mem_hexLiterals_iff {l : Line} {s : Span} : s ∈ hexLiterals l ↔ IsHexLiteral l s := by
  rw [hexLiterals, List.mem_filterMap]
  constructor
  · rintro ⟨k, -, hs⟩
    exact (exists_of_hexLiteralAt? hs).2
  · rintro ⟨p, w, y, rfl, hw, hy, rfl⟩
    refine ⟨p.length, List.mem_range.mpr ?_, hexLiteralAt?_literal hw hy⟩
    rw [List.length_append, List.length_cons]
    omega

theorem IsHexLiteral.start_lt_stop {l : Line} {s : Span} (h : IsHexLiteral l s) :
    s.start < s.stop := by
  obtain ⟨p, w, y, -, -, -, rfl⟩ := h
  show p.length < p.length + 1 + w.length
  omega

theorem IsHexLiteral.within {l : Line} {s : Span} (h : IsHexLiteral l s) : s.Within l := by
  refine ⟨Nat.le_of_lt h.start_lt_stop, ?_⟩
  obtain ⟨p, w, y, rfl, -, -, rfl⟩ := h
  simp only [List.length_append, List.length_cons]
  omega

theorem IsHexLiteral.hash {l : Line} {s : Span} (h : IsHexLiteral l s) :
    l[s.start]? = some '#' := by
  obtain ⟨p, w, y, rfl, -, -, rfl⟩ := h
  exact getElem?_behind p _

theorem IsHexLiteral.isWord_inside {l : Line} {s : Span} (h : IsHexLiteral l s) {i : Nat}
    (hi : s.start < i) (hstop : i < s.stop) : l[i]?.any isWord = true := by
  obtain ⟨p, w, y, rfl, hw, -, rfl⟩ := h
  obtain ⟨j, rfl⟩ := Nat.exists_eq_add_of_le (Nat.succ_le_of_lt hi)
  replace hstop : p.length + 1 + j < p.length + 1 + w.length := hstop
  have hj : j < w.length := by omega
  show (p ++ '#' :: (w ++ y))[p.length + 1 + j]?.any isWord = true
  rw [← List.getElem?_drop, drop_behind_hash, List.getElem?_append_left hj,
    List.getElem?_eq_getElem hj]
  exact hw.isWordText.isWord _ (List.getElem_mem hj)

/-- A literal ends before the next hash: a hash is no word character. -/
theorem hexLiterals_apart (l : Line) :
    (hexLiterals l).Pairwise fun s t => s.stop ≤ t.start := by
  refine List.Pairwise.filterMap _ (fun i j hij s hs t ht => ?_) List.pairwise_lt_range
  obtain ⟨rfl, hliteral⟩ := exists_of_hexLiteralAt? hs
  obtain ⟨rfl, hnext⟩ := exists_of_hexLiteralAt? ht
  refine Nat.le_of_not_lt fun hlt => ?_
  have hword := hliteral.isWord_inside hij hlt
  rw [hnext.hash, Option.any_some, not_isWord_hash] at hword
  exact Bool.false_ne_true hword

/-- a run of word characters that is too long, or is not made of digits only, is no color -/
example : hexLiterals "#0f0 #0f0f #0f_ #00FF00, #00FF000".toList = [⟨0, 4⟩, ⟨16, 23⟩] := by
  decide +kernel

/-! ## the matches of the pattern -/

/-- what the pattern finds at a literal: its digits are the group -/
def hexMatch (s : Span) : Match :=
  ⟨s, [(1, ⟨s.start + 1, s.stop⟩)]⟩

namespace Pattern

theorem fits_colorDigits {p x y : Line} {gs : List (Nat × Span)} :
    Fits (alt (times 6 (one isHexDigit)) (times 3 (one isHexDigit))) p x y gs ↔
      IsColorDigits x ∧ gs = [] := by
  show Fits (times 6 (one isHexDigit)) p x y gs ∨ Fits (times 3 (one isHexDigit)) p x y gs ↔ _
  rw [fits_times, fits_times, ← or_and_right, ← and_assoc, or_comm]
  rfl

theorem fits_hexColorText {p x y : Line} {gs : List (Nat × Span)} :
    hexColorText.Fits p x y gs ↔ ∃ w, x = '#' :: w ∧ IsColorDigits w ∧ startsInWord y = false ∧
      gs = [(1, ⟨p.length + 1, p.length + 1 + w.length⟩)] := by
  have hlen : (p ++ ['#']).length = p.length + 1 := by
    rw [List.length_append, List.length_singleton]
  show Fits (seq (literal ['#']) (seq (group 1 _) wordEdge)) p x y gs ↔ _
  simp only [fits_seq, fits_literal, fits_group fun _ _ _ _ => fits_colorDigits, fits_wordEdge]
  constructor
  · rintro ⟨_, _, _, _, ⟨rfl, rfl⟩, ⟨w, _, _, _, ⟨hw, rfl⟩, ⟨hedge, rfl, rfl⟩, rfl, rfl⟩, rfl, rfl⟩
    rw [hw.isWordText.endsInWord_append] at hedge
    rw [hlen, List.append_nil]
    exact ⟨w, rfl, hw, Bool.eq_false_iff.mpr hedge.symm, rfl⟩
  · rintro ⟨w, rfl, hw, hy, rfl⟩
    have hedge : endsInWord (p ++ ['#'] ++ w) ≠ startsInWord y := by
      rw [hw.isWordText.endsInWord_append, hy]
      exact Bool.false_ne_true.symm
    refine ⟨['#'], w, [], _, ⟨rfl, rfl⟩, ⟨w, [], _, [], ⟨hw, rfl⟩, ⟨hedge, rfl, rfl⟩,
      (List.append_nil w).symm, rfl⟩, rfl, ?_⟩
    rw [hlen]
    rfl

/-- the pattern has one reading at most: the digits are the whole run of word characters -/
theorem matchAt?_hexColorText {p w y : Line} (hw : IsColorDigits w) (hy : startsInWord y = false) :
    hexColorText.matchAt? (.between p ('#' :: (w ++ y))) =
      some (hexMatch ⟨p.length, p.length + 1 + w.length⟩) := by
  have hstop : p.length + 1 + w.length = p.length + ('#' :: w).length := by
    rw [List.length_cons, Nat.add_assoc, Nat.add_comm 1]
  have hfits : hexColorText.Fits p ('#' :: w) y _ := fits_hexColorText.mpr ⟨w, rfl, hw, hy, rfl⟩
  rw [hstop] at hfits ⊢
  refine matchAt?_eq_some_of_unique hfits ?_
  intro x y' gs hline hf
  obtain ⟨v, rfl, hv, hy', rfl⟩ := fits_hexColorText.mp hf
  obtain ⟨rfl, -⟩ := run_unique hw.isWordText.isWord hy hv.isWordText.isWord hy'
    (List.cons.inj hline).2
  rw [hstop]
  exact ⟨rfl, rfl⟩

theorem finds_hexColorText_iff {l : Line} {m : Match} :
    hexColorText.Finds l m ↔ IsHexLiteral l m.span ∧ m = hexMatch m.span := by
  constructor
  · rintro ⟨p, b, rfl, hm⟩
    obtain ⟨x, y, gs, rfl, hf, rfl⟩ := fits_of_matchAt? hm
    obtain ⟨w, rfl, hw, hy, rfl⟩ := fits_hexColorText.mp hf
    have hstop : p.length + ('#' :: w).length = p.length + 1 + w.length := by
      rw [List.length_cons, Nat.add_assoc, Nat.add_comm 1]
    rw [hstop]
    exact ⟨⟨p, w, y, rfl, hw, hy, rfl⟩, rfl⟩
  · rintro ⟨⟨p, w, y, rfl, hw, hy, hs⟩, hm⟩
    rw [hm, hs]
    exact ⟨p, _, rfl, matchAt?_hexColorText hw hy⟩

/-- The matches on a line are its literals, from left to right. -/
theorem all_hexColorText (l : Line) : hexColorText.all l = (hexLiterals l).map hexMatch := by
  have hfinds (s : Span) : (∃ m, hexColorText.Finds l m ∧ m.span = s) ↔ IsHexLiteral l s := by
    constructor
    · rintro ⟨m, hm, rfl⟩
      exact (finds_hexColorText_iff.mp hm).1
    · intro hs
      exact ⟨hexMatch s, finds_hexColorText_iff.mpr ⟨hs, rfl⟩, rfl⟩
  have hmatches := successive_all (neverEmpty_of_consumes (a := hexColorText) rfl) l
  simp only [hfinds] at hmatches
  have hliterals : Successive (IsHexLiteral l) (hexLiterals l) :=
    { found := fun _ => mem_hexLiterals_iff.mp
      apart := hexLiterals_apart l
      complete := fun t ht =>
        ⟨t, mem_hexLiterals_iff.mpr ht, Nat.le_refl _, ht.start_lt_stop⟩ }
  have hspans : (hexColorText.all l).map Match.span = hexLiterals l := by
    refine Successive.unique (fun s hs => Nat.le_of_lt hs.start_lt_stop) ?_ hmatches hliterals
    rintro s t ⟨p, w, y, hl, hw, hy, rfl⟩ ⟨p', w', y', hl', hw', hy', rfl⟩ hstart
    -- the same hash, and so the same run behind it
    have hword := wordFrom_literal (p := p) hw hy
    rw [← hl, show p.length = p'.length from hstart, hl', wordFrom_literal hw' hy'] at hword
    rw [hword, show p.length = p'.length from hstart]
  have hgroups : ∀ m ∈ hexColorText.all l, (hexMatch ∘ Match.span) m = id m := fun m hm =>
    (finds_hexColorText_iff.mp (finds_of_mem_all hm)).2.symm
  rw [← hspans, List.map_map, List.map_congr_left hgroups, List.map_id]

/-- what is written `rgb(…)` begins with this letter -/
theorem letter_of_finds_rgbColorText {l : Line} {m : Match} (h : rgbColorText.Finds l m) :
    l[m.span.start]? = some 'r' := by
  obtain ⟨⟨p, x, y, gs, rfl, hf, hspan⟩, -⟩ := reads_of_finds h
  obtain ⟨-, _, _, _, _, hname, -, rfl, -⟩ := fits_wordEdge_seq.mp hf
  obtain ⟨rfl, -⟩ := (fits_literal _).mp hname
  rw [hspan]
  exact getElem?_behind p _

end Pattern

theorem hexLiterals_whole {w : Line} (hw : IsColorDigits w) :
    hexLiterals ('#' :: w) = [⟨0, ('#' :: w).length⟩] := by
  have hmatch := Pattern.matchAt?_hexColorText (p := []) hw startsInWord_nil
  rw [List.append_nil, List.length_nil, Nat.zero_add, Nat.add_comm,
    ← List.length_cons (a := '#')] at hmatch
  have hall := Pattern.all_of_whole (Pattern.neverEmpty_of_consumes rfl) (List.cons_ne_nil _ _) hmatch
  rw [Pattern.all_hexColorText] at hall
  have hspans := congrArg (List.map Match.span) hall
  rw [List.map_map] at hspans
  exact (List.map_id _).symm.trans hspans

/-! ## the colors of a document -/

/-- the color of a literal -/
def hexColorAt (k : NumberedLine) (s : Span) : DocumentColor :=
  ⟨s.range k.number k.text, digitsColor (wordFrom k.text (s.start + 1))⟩

/-- the colors of the literals on a line, from left to right -/
def hexColorsOnLine (k : NumberedLine) : List DocumentColor :=
  (hexLiterals k.text).map (hexColorAt k)

/-- the colors on a line that are written `rgb(…)` or `rgba(…)`, from left to right -/
def rgbColorsOnLine (k : NumberedLine) : List DocumentColor :=
  (rgbColorText.all k.text).filterMap fun m =>
    (rgbColor? m k.text).map fun c => ⟨m.span.range k.number k.text, c⟩

theorem chars_group_hexMatch {l : Line} {s : Span} (h : IsHexLiteral l s) :
    ((hexMatch s).group 1).chars l = wordFrom l (s.start + 1) ∧
      IsColorDigits (wordFrom l (s.start + 1)) := by
  obtain ⟨p, w, y, rfl, hw, hy, rfl⟩ := h
  have hline : p ++ '#' :: (w ++ y) = (p ++ ['#']) ++ (w ++ y) := by
    rw [List.append_assoc, List.singleton_append]
  have hlen : (p ++ ['#']).length = p.length + 1 := by
    rw [List.length_append, List.length_singleton]
  show (Span.mk (p.length + 1) (p.length + 1 + w.length)).chars _ = wordFrom _ (p.length + 1) ∧
    IsColorDigits (wordFrom _ (p.length + 1))
  rw [wordFrom_literal hw hy, hline, ← hlen, Span.chars_between]
  exact ⟨rfl, hw⟩

theorem colorsOnLine_eq (k : NumberedLine) :
    colorsOnLine k = hexColorsOnLine k ++ rgbColorsOnLine k := by
  rw [colorsOnLine, Pattern.all_hexColorText, List.filterMap_map, hexColorsOnLine,
    ← List.filterMap_eq_map]
  refine congrArg (· ++ rgbColorsOnLine k) (List.filterMap_congr fun s hs => ?_)
  obtain ⟨hchars, hdigits⟩ := chars_group_hexMatch (mem_hexLiterals_iff.mp hs)
  show (hexColor? (((hexMatch s).group 1).chars k.text)).map _ = _
  rw [hchars, hexColor?_eq hdigits.1]
  rfl

theorem hexColorAt_mem {lines : List Line} {k : NumberedLine} (hk : k ∈ numberLines lines)
    {s : Span} (hs : s ∈ hexLiterals k.text) : hexColorAt k s ∈ documentColors lines := by
  refine List.mem_flatMap.mpr ⟨k, hk, ?_⟩
  rw [colorsOnLine_eq]
  exact List.mem_append_left _ (List.mem_map_of_mem hs)

/-- The ranges of the literals of a line do not overlap. -/
theorem hexColorsOnLine_apart (k : NumberedLine) :
    (hexColorsOnLine k).Pairwise fun c d => c.range.stop.le d.range.start = true := by
  refine List.pairwise_map.mpr ((hexLiterals_apart k.text).imp fun hst => ?_)
  exact Position.le_iff.mpr (Or.inr ⟨rfl, column_mono k.text hst⟩)

theorem hexColorsOnLine_eq_nil {k : NumberedLine} (h : '#' ∉ k.text) : hexColorsOnLine k = [] := by
  refine List.map_eq_nil_iff.mpr (List.eq_nil_iff_forall_not_mem.mpr fun s hs => h ?_)
  exact List.mem_of_getElem? (mem_hexLiterals_iff.mp hs).hash

theorem rgbColorsOnLine_eq_nil {k : NumberedLine} (h : 'r' ∉ k.text) : rgbColorsOnLine k = [] := by
  refine List.filterMap_eq_nil_iff.mpr fun m hm => absurd ?_ h
  exact List.mem_of_getElem? (Pattern.letter_of_finds_rgbColorText (Pattern.finds_of_mem_all hm))

/-- Each color lies on a line, as a literal or as what is written `rgb(…)`. -/
theorem exists_span_of_mem_documentColors {lines : List Line} {c : DocumentColor}
    (h : c ∈ documentColors lines) : ∃ k ∈ numberLines lines, ∃ s : Span, s.Within k.text ∧
      c.range = s.range k.number k.text ∧
      (s ∈ hexLiterals k.text ∧ c = hexColorAt k s ∨ k.text[s.start]? = some 'r') := by
  obtain ⟨k, hk, hc⟩ := List.mem_flatMap.mp h
  refine ⟨k, hk, ?_⟩
  rw [colorsOnLine_eq] at hc
  rcases List.mem_append.mp hc with hc | hc
  · obtain ⟨s, hs, rfl⟩ := List.mem_map.mp hc
    exact ⟨s, (mem_hexLiterals_iff.mp hs).within, rfl, Or.inl ⟨hs, rfl⟩⟩
  · obtain ⟨m, hm, hc⟩ := List.mem_filterMap.mp hc
    obtain ⟨color, -, rfl⟩ := Option.map_eq_some_iff.mp hc
    have hfinds := Pattern.finds_of_mem_all hm
    exact ⟨m.span, (Pattern.within_of_finds hfinds).1, rfl,
      Or.inr (Pattern.letter_of_finds_rgbColorText hfinds)⟩

theorem exists_literal_of_hash {lines : List Line} {k : NumberedLine}
    (hk : k ∈ numberLines lines) {i : Nat} (hi : k.text[i]? = some '#') {c : DocumentColor}
    (hc : c ∈ documentColors lines) (hstart : c.range.start = ⟨k.number, column k.text i⟩) :
    ∃ s ∈ hexLiterals k.text, s.start = i ∧ c = hexColorAt k s := by
  obtain ⟨k', hk', s, hs, hrange, hkind⟩ := exists_span_of_mem_documentColors hc
  rw [hrange] at hstart
  have hnumber : k'.number = k.number := congrArg Position.line hstart
  obtain rfl := numberLines_inj hk' hk hnumber
  have hle : i ≤ k'.text.length := Nat.le_of_lt (List.getElem?_eq_some_iff.mp hi).1
  obtain rfl : s.start = i :=
    column_inj (Nat.le_trans hs.ordered hs.inside) hle (congrArg Position.character hstart)
  rcases hkind with ⟨hliteral, hcolor⟩ | hletter
  · exact ⟨s, hliteral, rfl, hcolor⟩
  · rw [hletter] at hi
    exact absurd hi (by decide)

/-- **Hexadecimal colors.**  The colors of a line that come from hexadecimal literals are, from left
to right, one for each hash whose directly following run of word characters has three or six
characters, all of them hexadecimal digits.  The range covers the hash and this run; the channels are
the values of the three pairs of digits, divided by 255, where each digit of a short form is doubled;
and the color is opaque.  These ranges do not overlap, no color begins at another hash, and no cut
between the digits, counted in bytes, fails. -/
theorem documentColors_hexadecimal (lines : List Line) :
    documentColors lines =
      (numberLines lines).flatMap (fun k => hexColorsOnLine k ++ rgbColorsOnLine k) ∧
    ∀ k ∈ numberLines lines,
      (hexColorsOnLine k).Pairwise (fun c d => c.range.stop.le d.range.start = true) ∧
      (∀ i, k.text[i]? = some '#' → ∀ c ∈ documentColors lines,
        c.range.start = ⟨k.number, column k.text i⟩ →
          ∃ s ∈ hexLiterals k.text, s.start = i ∧ c = hexColorAt k s) ∧
      ∀ s ∈ hexLiterals k.text, hexColorInBytes? (wordFrom k.text (s.start + 1)) =
        some (some (digitsColor (wordFrom k.text (s.start + 1)))) := by
  refine ⟨List.flatMap_congr fun k _ => colorsOnLine_eq k, fun k hk =>
    ⟨hexColorsOnLine_apart k, fun i hi c hc => exists_literal_of_hash hk hi hc, fun s hs => ?_⟩⟩
  obtain ⟨-, hdigits⟩ := chars_group_hexMatch (mem_hexLiterals_iff.mp hs)
  rw [hexColorInBytes?_eq hdigits.2, hexColor?_eq hdigits.1]

end LanguageService
