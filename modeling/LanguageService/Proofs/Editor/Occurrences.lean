import LanguageService.Proofs.Editor.Rename
import LanguageService.Proofs.Source.CursorWord

/-!
# The word under the cursor among its occurrences

The word under the cursor is a run of ASCII name characters.  Its occurrences are whole words, and
any letter or digit of the Unicode standard belongs to a word.  So the word under the cursor is one
of its own occurrences unless a character of the second kind touches it.

* `standsAlone lines r`      no word character touches the range
* `range_mem_occurrences_iff` a range is an occurrence if it is that of a whole word
* `cursorWord_occurs_iff`    what is said of the word under the cursor, for references, highlights
                             and renaming
-/

namespace LanguageService

/-- No word character touches the range, which lies on one line. -/
def standsAlone (lines : List Line) (r : Range) : Bool :=
  match lines[r.start.line]? with
  | none => false
  | some l =>
    !endsInWord (l.take (place l r.start.character)) &&
      !startsInWord (l.drop (place l r.stop.character))

theorem isWordText_of_isNameChar {x : Line} (hne : x ≠ []) (hx : ∀ c ∈ x, isNameChar c = true) :
    IsWordText x :=
  ⟨hne, fun c hc => isWord_of_isNameChar (hx c hc)⟩

/-! ## whole words -/

/-- a stretch of word characters is a word of its line if none stands on either side of it -/
theorem mem_wordRuns_between {before w after : Line} (hw : IsWordText w) :
    (⟨before.length, before.length + w.length⟩ : Span) ∈ wordRuns (before ++ (w ++ after)) ↔
      endsInWord before = false ∧ startsInWord after = false := by
  rw [mem_wordRuns_iff]
  constructor
  · rintro ⟨b, x, a, heq, hb, -, ha, hspan⟩
    obtain ⟨hlen, hstop⟩ := Span.mk.inj hspan
    obtain ⟨rfl, hrest⟩ := List.append_inj heq hlen
    obtain ⟨rfl, rfl⟩ := List.append_inj hrest (Nat.add_left_cancel hstop)
    exact ⟨hb, ha⟩
  · rintro ⟨hb, ha⟩
    exact ⟨before, w, after, rfl, hb, hw, ha, rfl⟩

theorem range_mem_occurrences_iff {lines : List Line} {n : Nat} {l : Line} {s : Span}
    {name : String} (hl : lines[n]? = some l) (hs : s.start ≤ l.length ∧ s.stop ≤ l.length)
    (hname : IsWordText name.toList) :
    s.range n l ∈ occurrences lines name ↔ s ∈ wordRuns l ∧ s.text l = name := by
  rw [occurrences, List.mem_flatMap]
  constructor
  · rintro ⟨k, hk, hmem⟩
    rw [Pattern.all_of_fitsWords (Pattern.fitsWords_word hname), List.map_map] at hmem
    obtain ⟨r, hr, hrange⟩ := List.mem_map.mp hmem
    obtain ⟨hrun, htext⟩ := List.mem_filter.mp hr
    have hnumber : k.number = n := congrArg (·.start.line) hrange
    have hline := mem_numberLines_iff.mp hk
    rw [hnumber, hl] at hline
    obtain rfl : l = k.text := Option.some.inj hline
    rw [hnumber] at hrange
    obtain rfl := Span.range_inj (span_le_of_mem_wordRuns hrun) hs hrange
    exact ⟨hrun, Span.text_eq_iff.mpr (beq_iff_eq.mp htext)⟩
  · rintro ⟨hrun, htext⟩
    refine ⟨⟨n, l⟩, mem_numberLines_iff.mpr hl, ?_⟩
    rw [Pattern.all_of_fitsWords (Pattern.fitsWords_word hname), List.map_map]
    refine List.mem_map.mpr ⟨s, List.mem_filter.mpr ⟨hrun, ?_⟩, rfl⟩
    exact beq_iff_eq.mpr (Span.text_eq_iff.mp htext)

theorem standsAlone_between {lines : List Line} {n : Nat} {before x after : Line}
    (hl : lines[n]? = some (before ++ (x ++ after))) :
    standsAlone lines
        (Span.range ⟨before.length, before.length + x.length⟩ n (before ++ (x ++ after))) = true ↔
      endsInWord before = false ∧ startsInWord after = false := by
  have hlen : before.length + x.length ≤ (before ++ (x ++ after)).length := by
    rw [List.length_append, List.length_append]
    omega
  have hdrop : (before ++ (x ++ after)).drop (before.length + x.length) = after := by
    rw [← List.append_assoc, ← List.length_append, List.drop_left]
  show (match lines[n]? with
    | none => false
    | some l => !endsInWord (l.take (place l (column _ before.length))) &&
      !startsInWord (l.drop (place l (column _ (before.length + x.length))))) = true ↔ _
  rw [hl]
  simp only
  rw [place_column _ _ (Nat.le_trans (Nat.le_add_right _ _) hlen), place_column _ _ hlen,
    List.take_left, hdrop, Bool.and_eq_true, Bool.not_eq_true', Bool.not_eq_true']

/-- the word under the cursor is one of its occurrences exactly if it stands alone -/
theorem mem_occurrences_of_wordAt {lines : List Line} {p : Position} {w : WordSite}
    (h : wordAt lines p = some w) :
    w.range ∈ occurrences lines w.word ↔ standsAlone lines w.range = true := by
  obtain ⟨before, x, after, hl, hne, hx, rfl⟩ := wordAt_eq h
  have hw := isWordText_of_isNameChar hne hx
  have hname : IsWordText (String.ofList x).toList := by rwa [String.toList_ofList]
  have hs : before.length ≤ (before ++ (x ++ after)).length ∧
      before.length + x.length ≤ (before ++ (x ++ after)).length := by
    rw [List.length_append, List.length_append]
    omega
  rw [range_mem_occurrences_iff hl hs hname, standsAlone_between hl, mem_wordRuns_between hw,
    Span.text, Span.chars_between]
  exact and_iff_left rfl

/-! ## references, highlights and renaming -/

/-- **The word under the cursor.**  It is one of its own occurrences, and so among its references,
its highlights and, if it may be renamed, the edits of its renaming, exactly if no word character
touches it. -/
theorem cursorWord_occurs_iff {lines : List Line} {p : Position} {w : WordSite}
    (h : wordAt lines p = some w) :
    (w.range ∈ occurrences lines w.word ↔ standsAlone lines w.range = true) ∧
    (w.range ∈ referencesAt lines p ↔ standsAlone lines w.range = true) ∧
    ((∃ m ∈ highlightsAt lines p, m.range = w.range) ↔ standsAlone lines w.range = true) ∧
    (isReserved w.word = false → renameTarget? lines p = some w ∧
      ∀ newName, isIdentifier newName = true → ∃ edits, rename? lines p newName = some edits ∧
        (⟨w.range, newName.toList⟩ ∈ edits ↔ standsAlone lines w.range = true)) := by
  have hoccurs := mem_occurrences_of_wordAt h
  refine ⟨hoccurs, ?_, ?_, fun hreserved => ⟨?_, fun newName hnew => ?_⟩⟩
  · rw [referencesAt, h]
    exact hoccurs
  · rw [highlightsAt, h, ← hoccurs]
    constructor
    · rintro ⟨m, hm, hrange⟩
      obtain ⟨r, hr, rfl⟩ := List.mem_map.mp hm
      rwa [← hrange]
    · exact fun hmem => ⟨_, List.mem_map_of_mem hmem, rfl⟩
  · rw [renameTarget?, h, Option.filter_some, hreserved]
    rfl
  · refine ⟨_, rename?_eq h hreserved hnew, ?_⟩
    rw [← hoccurs, List.mem_map]
    constructor
    · rintro ⟨r, hr, heq⟩
      obtain rfl : r = w.range := congrArg TextEdit.range heq
      exact hr
    · exact fun hmem => ⟨w.range, hmem, rfl⟩

/-- a word behind a letter that is no ASCII letter, and a word behind a space -/
def accentedLines : List Line := [['é', 'a', ' ', 'b']]

theorem cursorWord_accentedLines :
    let w : WordSite := ⟨"b", ⟨⟨0, 3⟩, ⟨0, 4⟩⟩⟩
    wordAt accentedLines ⟨0, 3⟩ = some w ∧ w.range ∈ occurrences accentedLines "b" ∧
      isReserved "b" = false ∧ isIdentifier "c" = true ∧
      ∃ edits, rename? accentedLines ⟨0, 3⟩ "c" = some edits ∧ ⟨w.range, ['c']⟩ ∈ edits := by
  intro w
  have hword : wordAt accentedLines ⟨0, 3⟩ = some w := by decide +kernel
  have halone : standsAlone accentedLines w.range = true := by decide +kernel
  have hreserved : isReserved "b" = false := by decide +kernel
  have hnew : isIdentifier "c" = true := by decide +kernel
  obtain ⟨hoccurs, -, -, hrename⟩ := cursorWord_occurs_iff hword
  obtain ⟨edits, hedits, hmem⟩ := (hrename hreserved).2 "c" hnew
  exact ⟨hword, hoccurs.mpr halone, hreserved, hnew, edits, hedits, hmem.mpr halone⟩

/-- The word behind the accented letter may be renamed and has no occurrence, so that its renaming
changes nothing. -/
theorem accentedLines_not_occurs :
    let w : WordSite := ⟨"a", ⟨⟨0, 1⟩, ⟨0, 2⟩⟩⟩
    wordAt accentedLines ⟨0, 2⟩ = some w ∧ isReserved "a" = false ∧ isIdentifier "c" = true ∧
      renameTarget? accentedLines ⟨0, 2⟩ = some w ∧ w.range ∉ occurrences accentedLines "a" ∧
      rename? accentedLines ⟨0, 2⟩ "c" = some [] := by
  decide +kernel

end LanguageService
