import LanguageService.Editor.Color
import LanguageService.Proofs.Editor.HexColors
import LanguageService.Proofs.Editor.NumberTokens

/-!
# Colors in decimal channels

The pattern of `rgb(r, g, b)` has many optional parts: white space at every place, the letter of
`rgba`, and an opacity.  A text without any of them can still be read in one way only, since each
part is followed by a character that it does not take.

* `rgbChannel?_decimalDigits`   a byte is read from its decimal digits
* `rgbText r g b`               the text of three channels
* `readsOnly_rgbColorText`      the only reading of this text, part by part
* `rgbColorsOnLine_rgbText`     the one color in it
-/

namespace LanguageService

/-! ## decimal channels -/

theorem decimalNat_decimalDigits (n : Nat) : decimalNat (decimalDigits n) = n := by
  have hdigits := Nat.ofDigitChars_ten_toDigits (n := n)
  rw [Nat.ofDigitChars_eq_foldl] at hdigits
  simp only [Nat.mul_comm 10] at hdigits
  exact hdigits

theorem isAsciiDigit_of_mem_decimalDigits {n : Nat} :
    ∀ c ∈ decimalDigits n, isAsciiDigit c = true := by
  intro c hc
  exact Nat.isDigit_of_mem_toDigits (by decide) (by decide) hc

theorem isDecimal_of_isAsciiDigit {c : Char} (h : isAsciiDigit c = true) : isDecimal c = true := by
  have hname : isNameChar c = true := by rw [isNameChar, h, Bool.or_true]
  rw [isDecimal, if_pos (toNat_lt_of_isNameChar hname), h]

/-- one to three decimal digits -/
structure IsChannelText (w : Line) : Prop where
  digits : IsDigits w
  short : w.length ≤ 3

theorem isChannelText_decimalDigits {n : Nat} (hn : n < 256) : IsChannelText (decimalDigits n) where
  digits := ⟨Nat.toDigits_ne_nil, fun c hc =>
    isDecimal_of_isAsciiDigit (isAsciiDigit_of_mem_decimalDigits c hc)⟩
  short := (Nat.length_toDigits_le_iff (by decide) (by decide)).mpr
    (Nat.lt_of_lt_of_le hn (by decide))

theorem rgbChannel?_decimalDigits {n : Nat} (hn : n < 256) :
    rgbChannel? (decimalDigits n) = some (.ofByte n) := by
  rw [rgbChannel?, if_pos (List.all_eq_true.mpr isAsciiDigit_of_mem_decimalDigits),
    decimalNat_decimalDigits, Nat.min_eq_left (Nat.le_of_lt_succ hn)]

/-! ## the text of three channels -/

/-- a comma and an opacity -/
def opacityText : Pattern :=
  .inOrder [.literal [','], blanks, .group 4 alphaText, blanks]

namespace Pattern

theorem fits_channelText {p x y : Line} {gs : List (Nat × Span)} :
    channelText.Fits p x y gs ↔ IsChannelText x ∧ gs = [] := by
  constructor
  · rintro ⟨_, _, _, _, ⟨c, hc, rfl, rfl⟩, hrest, rfl, rfl⟩
    rcases hrest with ⟨_, _, _, _, ⟨d, hd, rfl, rfl⟩, hrest, rfl, rfl⟩ | ⟨rfl, rfl⟩
    · rcases hrest with ⟨e, he, rfl, rfl⟩ | ⟨rfl, rfl⟩
      · exact ⟨⟨⟨List.cons_ne_nil _ _, by simp [hc, hd, he]⟩, Nat.le_refl 3⟩, rfl⟩
      · exact ⟨⟨⟨List.cons_ne_nil _ _, by simp [hc, hd]⟩, Nat.le_succ 2⟩, rfl⟩
    · exact ⟨⟨⟨List.cons_ne_nil _ _, by simp [hc]⟩, Nat.le_add_left 1 2⟩, rfl⟩
  · rintro ⟨⟨⟨hne, hx⟩, hlen⟩, rfl⟩
    match x, hne, hx, hlen with
    | [c], _, hx, _ =>
      have hc := hx c (by simp)
      exact ⟨[c], [], [], [], ⟨c, hc, rfl, rfl⟩, Or.inr ⟨rfl, rfl⟩, rfl, rfl⟩
    | [c, d], _, hx, _ =>
      have hc := hx c (by simp)
      have hd := hx d (by simp)
      exact ⟨[c], [d], [], [], ⟨c, hc, rfl, rfl⟩,
        Or.inl ⟨[d], [], [], [], ⟨d, hd, rfl, rfl⟩, Or.inr ⟨rfl, rfl⟩, rfl, rfl⟩, rfl, rfl⟩
    | [c, d, e], _, hx, _ =>
      have hc := hx c (by simp)
      have hd := hx d (by simp)
      have he := hx e (by simp)
      exact ⟨[c], [d, e], [], [], ⟨c, hc, rfl, rfl⟩, Or.inl ⟨[d], [e], [], [], ⟨d, hd, rfl, rfl⟩,
        Or.inl ⟨e, he, rfl, rfl⟩, rfl, rfl⟩, rfl, rfl⟩

theorem fits_separator {p x y : Line} {gs : List (Nat × Span)} :
    separator.Fits p x y gs ↔
      (∃ g g', x = g ++ ',' :: g' ∧ AllBlank g ∧ AllBlank g') ∧ gs = [] := by
  show Fits (seq blanks (seq (literal [',']) blanks)) p x y gs ↔ _
  simp only [fits_seq, fits_blanks, fits_literal]
  constructor
  · rintro ⟨g, _, _, _, ⟨hg, rfl⟩, ⟨_, g', _, _, ⟨rfl, rfl⟩, ⟨hg', rfl⟩, rfl, rfl⟩, rfl, rfl⟩
    exact ⟨⟨g, g', rfl, hg, hg'⟩, rfl⟩
  · rintro ⟨⟨g, g', rfl, hg, hg'⟩, rfl⟩
    exact ⟨g, ',' :: g', [], [], ⟨hg, rfl⟩, ⟨[','], g', [], [], ⟨rfl, rfl⟩, ⟨hg', rfl⟩, rfl, rfl⟩,
      rfl, rfl⟩

variable {a b : Pattern} {p x y : Line} {gs : List (Nat × Span)}

/-! What stands behind a channel begins with no word character, what stands behind a comma with a
channel. -/

theorem startsInWord_of_separator_seq (h : (seq separator b).Fits p x y gs) :
    startsInWord (x ++ y) = false := by
  obtain ⟨_, _, _, _, hs, -, rfl, -⟩ := h
  obtain ⟨⟨g, g', rfl, hg, -⟩, -⟩ := fits_separator.mp hs
  rw [List.append_assoc, List.append_assoc]
  exact startsInWord_gap hg (by decide +kernel) _

theorem startsInWord_of_channel_seq {i : Nat} (h : (seq (group i channelText) b).Fits p x y gs) :
    startsInWord (x ++ y) = true := by
  obtain ⟨_, _, _, _, hd, -, rfl, -⟩ := h
  obtain ⟨hd, -⟩ := (fits_group fun _ _ _ _ => fits_channelText).mp hd
  rw [List.append_assoc]
  exact hd.digits.isWordText.startsInWord_append _

theorem exists_of_fits_opacityText (h : opacityText.Fits p x y gs) : ∃ t, x = ',' :: t := by
  obtain ⟨_, t, _, _, hcomma, -, rfl, -⟩ := h
  obtain ⟨rfl, -⟩ := (fits_literal _).mp hcomma
  exact ⟨t, rfl⟩

theorem startsInWord_of_closing
    (h : (seq blanks (seq (.optional opacityText) (literal [')']))).Fits p x y gs) :
    startsInWord (x ++ y) = false := by
  obtain ⟨g, _, _, _, hg, ⟨t, _, _, _, ht, hparen, rfl, -⟩, rfl, -⟩ := h
  have hblank : AllBlank g := (fits_blanks.mp hg).1
  obtain ⟨rfl, -⟩ := (fits_literal _).mp hparen
  rw [List.append_assoc, List.append_assoc]
  rcases ht with ht | ⟨rfl, -⟩
  · obtain ⟨t, rfl⟩ := exists_of_fits_opacityText ht
    exact startsInWord_gap hblank (by decide +kernel) _
  · exact startsInWord_gap hblank (by decide +kernel) _

/-! No other reading of the text is possible at any of its parts. -/

theorem readsOnly_noBlanks {t : Line} (ht : t.head?.any isBlank = false) :
    blanks.ReadsOnly p [] t [] where
  fits := fits_blanks.mpr ⟨fun c hc => absurd hc List.not_mem_nil, rfl⟩
  only := by
    intro v t' g hline hv
    obtain ⟨hblank, rfl⟩ := fits_blanks.mp hv
    cases v with
    | nil => exact ⟨rfl, rfl⟩
    | cons c v =>
      rw [List.nil_append] at hline
      rw [hline] at ht
      exact absurd (hblank c List.mem_cons_self) (Bool.eq_false_iff.mp ht)

theorem readsOnly_notOptional {t : Line} (ha : ∀ v t' g, a.Fits p v t' g → t ≠ v ++ t') :
    (Pattern.optional a).ReadsOnly p [] t [] where
  fits := Or.inr ⟨rfl, rfl⟩
  only := by
    intro v t' g hline hv
    rcases hv with hv | hv
    · exact absurd hline (ha v t' g hv)
    · exact hv

theorem readsOnly_wordEdge {t : Line} (h : endsInWord p ≠ startsInWord t) :
    wordEdge.ReadsOnly p [] t [] where
  fits := ⟨h, rfl, rfl⟩
  only := fun _ _ _ _ hf => hf.2

theorem readsOnly_closing (p : Line) :
    (seq blanks (seq (.optional opacityText) (literal [')']))).ReadsOnly p [')'] [] [] := by
  have hopacity : (Pattern.optional opacityText).ReadsOnly p [] [')'] [] := by
    refine readsOnly_notOptional fun v t g hv hline => ?_
    obtain ⟨u, rfl⟩ := exists_of_fits_opacityText hv
    exact absurd (List.cons.inj hline).1 (by decide)
  exact .skip_seq (readsOnly_noBlanks rfl) (.skip_seq hopacity (.literal [')'] p []))

theorem readsOnly_channel_seq {i : Nat} {d : Line} (hd : IsChannelText d)
    (hb : ∀ p x y gs, b.Fits p x y gs → startsInWord (x ++ y) = false)
    (h : b.ReadsOnly (p ++ d) x y gs) : (seq (group i channelText) b).ReadsOnly p (d ++ x) y
      (gs ++ [(i, ⟨p.length, p.length + d.length⟩)]) := by
  refine .seq ((fits_group fun _ _ _ _ => fits_channelText).mpr ⟨hd, rfl⟩) ?_ h
  rintro v _ _ hline hv ⟨z, z', g', rfl, hz⟩
  obtain ⟨hv', rfl⟩ := (fits_group fun _ _ _ _ => fits_channelText).mp hv
  obtain ⟨rfl, -⟩ := digits_unique hd.digits.isWordText (hb _ _ _ _ h.fits) hv'.digits
    (hb _ _ _ _ hz) hline
  exact ⟨rfl, rfl⟩

theorem readsOnly_separator_seq
    (hb : ∀ p x y gs, b.Fits p x y gs → startsInWord (x ++ y) = true)
    (h : b.ReadsOnly (p ++ [',', ' ']) x y gs) :
    (seq separator b).ReadsOnly p ([',', ' '] ++ x) y gs := by
  have hblank : AllBlank [' '] := List.forall_mem_singleton.mpr (by decide)
  have hnone : AllBlank [] := fun c hc => absurd hc List.not_mem_nil
  have hfits : separator.Fits p [',', ' '] (x ++ y) [] :=
    fits_separator.mpr ⟨⟨[], [' '], rfl, hnone, hblank⟩, rfl⟩
  have hread := ReadsOnly.seq hfits ?_ h
  · rwa [List.append_nil] at hread
  · rintro _ _ _ hline hv ⟨z, z', g', rfl, hz⟩
    obtain ⟨⟨v, w, rfl, hbefore, hw⟩, rfl⟩ := fits_separator.mp hv
    have hcut : [] ++ ',' :: ' ' :: (x ++ y) = v ++ ',' :: (w ++ (z ++ z')) := by
      rwa [List.append_assoc] at hline
    obtain ⟨rfl, hcomma⟩ := run_unique hnone (by rfl) hbefore (by rfl) hcut
    obtain ⟨rfl, -⟩ := run_unique hblank (not_blank_of_startsInWord (hb _ _ _ _ h.fits)) hw
      (not_blank_of_startsInWord (hb _ _ _ _ hz)) (List.cons.inj hcomma).2
    exact ⟨rfl, rfl⟩

end Pattern

/-- the text `rgb(r, g, b)` -/
def rgbText (r g b : Line) : Line :=
  "rgb".toList ++ (['('] ++ (r ++ ([',', ' '] ++ (g ++ ([',', ' '] ++ (b ++ [')']))))))

theorem mem_rgbText {r g b : Line} {c : Char} (h : c ∈ rgbText r g b) :
    c ∈ "rgb(, )".toList ∨ c ∈ r ∨ c ∈ g ∨ c ∈ b := by
  have hmarks : "rgb(, )".toList = ['r', 'g', 'b', '(', ',', ' ', ')'] := rfl
  have hname : "rgb".toList = ['r', 'g', 'b'] := rfl
  simp only [rgbText, hname, List.mem_append, List.mem_cons, List.not_mem_nil, or_false] at h
  simp only [hmarks, List.mem_cons, List.not_mem_nil, or_false]
  tauto

/-- the three channels of such a text -/
def rgbGroups (r g b : Line) : List (Nat × Span) :=
  let red := "rgb".toList ++ ['(']
  let green := red ++ r ++ [',', ' ']
  let blue := green ++ g ++ [',', ' ']
  [(3, ⟨blue.length, blue.length + b.length⟩), (2, ⟨green.length, green.length + g.length⟩),
    (1, ⟨red.length, red.length + r.length⟩)]

section
variable {r g b : Line} (hr : IsChannelText r) (hg : IsChannelText g) (hb : IsChannelText b)
include hr hg hb

/-- The text is read in one way only. -/
theorem readsOnly_rgbColorText : rgbColorText.ReadsOnly [] (rgbText r g b) [] (rgbGroups r g b) := by
  have hblue (p : Line) := Pattern.readsOnly_channel_seq (i := 3) hb
    (fun _ _ _ _ => Pattern.startsInWord_of_closing) (Pattern.readsOnly_closing (p ++ b))
  have hgreen (p : Line) := Pattern.readsOnly_channel_seq (i := 2) hg
    (fun _ _ _ _ => Pattern.startsInWord_of_separator_seq) (Pattern.readsOnly_separator_seq
      (fun _ _ _ _ => Pattern.startsInWord_of_channel_seq) (hblue (p ++ g ++ [',', ' '])))
  have hred (p : Line) := Pattern.readsOnly_channel_seq (i := 1) hr
    (fun _ _ _ _ => Pattern.startsInWord_of_separator_seq) (Pattern.readsOnly_separator_seq
      (fun _ _ _ _ => Pattern.startsInWord_of_channel_seq) (hgreen (p ++ r ++ [',', ' '])))
  have hname (t : Line) : (Pattern.optional (.literal ['a'])).ReadsOnly "rgb".toList []
      ('(' :: t) [] := by
    refine Pattern.readsOnly_notOptional fun v t g hv hline => ?_
    obtain ⟨rfl, -⟩ := (Pattern.fits_literal _).mp hv
    exact absurd (List.cons.inj hline).1 (by decide)
  have hinside (p : Line) := Pattern.ReadsOnly.skip_seq (Pattern.readsOnly_noBlanks
    (not_blank_of_startsInWord (Pattern.startsInWord_of_channel_seq (hred p).fits))) (hred p)
  have hedge : endsInWord [] ≠ startsInWord (rgbText r g b ++ []) := by
    show false ≠ isWord 'r'
    decide +kernel
  exact .skip_seq (Pattern.readsOnly_wordEdge hedge)
    (.literal_seq _ (.skip_seq (hname _) (.literal_seq _ (hinside _))))

theorem all_rgbColorText : rgbColorText.all (rgbText r g b) =
    [⟨⟨0, (rgbText r g b).length⟩, rgbGroups r g b⟩] := by
  have hmatch := (readsOnly_rgbColorText hr hg hb).matchAt?_eq
  rw [List.append_nil, List.length_nil, Nat.zero_add] at hmatch
  exact Pattern.all_of_whole (Pattern.neverEmpty_of_consumes rfl) (List.cons_ne_nil _ _) hmatch

end

theorem chars_rgbGroups (r g b : Line) (s : Span) : let m : Match := ⟨s, rgbGroups r g b⟩
    (m.group 1).chars (rgbText r g b) = r ∧ (m.group 2).chars (rgbText r g b) = g ∧
      (m.group 3).chars (rgbText r g b) = b ∧ m.group? 4 = none := by
  have hred : rgbText r g b = ("rgb".toList ++ ['(']) ++
      (r ++ ([',', ' '] ++ (g ++ ([',', ' '] ++ (b ++ [')']))))) := by
    simp only [rgbText, List.append_assoc]
  have hgreen : rgbText r g b = ("rgb".toList ++ ['('] ++ r ++ [',', ' ']) ++
      (g ++ ([',', ' '] ++ (b ++ [')']))) := by
    simp only [rgbText, List.append_assoc]
  have hblue : rgbText r g b = ("rgb".toList ++ ['('] ++ r ++ [',', ' '] ++ g ++ [',', ' ']) ++
      (b ++ [')']) := by
    simp only [rgbText, List.append_assoc]
  exact ⟨(congrArg _ hred).trans (Span.chars_between _ _ _),
    (congrArg _ hgreen).trans (Span.chars_between _ _ _),
    (congrArg _ hblue).trans (Span.chars_between _ _ _), rfl⟩

theorem rgbColorsOnLine_rgbText {r g b : Nat} (hr : r < 256) (hg : g < 256) (hb : b < 256)
    (n : Nat) :
    let l := rgbText (decimalDigits r) (decimalDigits g) (decimalDigits b)
    rgbColorsOnLine ⟨n, l⟩ =
      [⟨Span.range ⟨0, l.length⟩ n l, .ofByte r, .ofByte g, .ofByte b, .one⟩] := by
  intro l
  obtain ⟨hred, hgreen, hblue, hopaque⟩ := chars_rgbGroups (decimalDigits r) (decimalDigits g)
    (decimalDigits b) ⟨0, l.length⟩
  have hcolor : rgbColor? ⟨⟨0, l.length⟩, rgbGroups (decimalDigits r) (decimalDigits g)
      (decimalDigits b)⟩ l = some ⟨.ofByte r, .ofByte g, .ofByte b, .one⟩ := by
    simp only [rgbColor?, l, hred, hgreen, hblue, hopaque, rgbChannel?_decimalDigits hr,
      rgbChannel?_decimalDigits hg, rgbChannel?_decimalDigits hb, Option.elim_none]
  rw [rgbColorsOnLine, all_rgbColorText (isChannelText_decimalDigits hr)
    (isChannelText_decimalDigits hg) (isChannelText_decimalDigits hb)]
  exact List.filterMap_cons_some (congrArg (Option.map _) hcolor)

end LanguageService
