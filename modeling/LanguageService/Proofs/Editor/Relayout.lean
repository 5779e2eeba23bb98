import LanguageService.Proofs.Editor.Layout

/-!
# Layout is done once

The depth at which a line stands is read off trimmed lines, and layout changes margins only; so a
text that is laid out stays as it is when it is laid out again.

* `layout_layout`          lines that are laid out stay as they are
* `ending_joinLines`       lines that are joined show the line ending they are joined with
* `formatEdits_eq_nil_iff` there is nothing to edit exactly if the lines are laid out
* `formatText_idempotent`  a text that is laid out stays as it is
-/

namespace LanguageService

/-! ## lines -/

theorem layout_of_trim_eq {lines lines' : List Line}
    (h : List.Forall₂ (fun l l' => trim l' = trim l) lines lines') (d : Nat) :
    layout d lines' = layout d lines := by
  induction h generalizing d with
  | nil => rfl
  | cons hl _ ih => rw [layout, layout, hl, ih]

/-- lines that are laid out stay as they are -/
theorem layout_layout (d : Nat) (lines : List Line) : layout d (layout d lines) = layout d lines :=
  layout_of_trim_eq (layout_trim_eq d lines) d

theorem formatEdits_eq_nil_iff (a : Analysis) : formatEdits a = [] ↔ layout 0 a.lines = a.lines := by
  unfold formatEdits
  constructor
  · intro h
    by_contra hne
    rw [if_neg hne] at h
    exact absurd h (List.cons_ne_nil _ _)
  · exact fun h => if_pos h

/-! ## line endings -/

/-- where CR LF stands in a text, the piece before the line feed ends with a carriage return -/
theorem exists_return_of_crlf (before after : Line) :
    ∃ q ∈ splitAtFeeds (before ++ '\r' :: '\n' :: after), q.getLast? = some '\r' := by
  induction before with
  | nil =>
    have hcons := splitAtFeeds_append_feed (x := ['\r']) (by decide) after
    exact ⟨['\r'], by rw [List.nil_append, ← List.singleton_append, hcons]; exact List.mem_cons_self,
      rfl⟩
  | cons c before ih =>
    obtain ⟨q, hq, hlast⟩ := ih
    rw [List.cons_append, splitAtFeeds]
    split
    · exact ⟨q, List.mem_cons_of_mem _ hq, hlast⟩
    · cases hs : splitAtFeeds (before ++ '\r' :: '\n' :: after) with
      | nil => exact absurd hs (splitAtFeeds_ne_nil _)
      | cons p ps =>
        rw [hs] at hq
        rcases List.mem_cons.mp hq with rfl | hq
        · refine ⟨c :: q, List.mem_cons_self, ?_⟩
          rw [List.getLast?_cons, hlast]
          rfl
        · exact ⟨q, List.mem_cons_of_mem _ hq, hlast⟩

theorem splitAtFeeds_joinLines {lines : List Line} (hne : lines ≠ [])
    (h : ∀ l ∈ lines, '\n' ∉ l) : splitAtFeeds (joinLines .lf lines) = lines := by
  obtain ⟨l, ls, rfl⟩ := List.exists_cons_of_ne_nil hne
  clear hne
  induction ls generalizing l with
  | nil =>
    rw [joinLines_singleton, splitAtFeeds_of_no_feed (h l List.mem_cons_self)]
  | cons k ls ih =>
    rw [joinLines_cons_cons]
    show splitAtFeeds (l ++ '\n' :: joinLines .lf (k :: ls)) = _
    rw [splitAtFeeds_append_feed (h l List.mem_cons_self),
      ih k fun x hx => h x (List.mem_cons_of_mem _ hx)]

/-- Lines that are joined show the line ending they are joined with; that it is CR LF shows if there
are two of them. -/
theorem ending_joinLines {e : LineEnding} {lines : List Line} (hne : lines ≠ [])
    (h : ∀ l ∈ lines, '\n' ∉ l ∧ l.getLast? ≠ some '\r')
    (htwo : e = .crlf → 2 ≤ lines.length) : LineEnding.of (joinLines e lines) = e := by
  cases e with
  | lf =>
    refine if_neg fun hoccurs => ?_
    obtain ⟨before, after, heq⟩ := (occursIn_iff _ _).mp hoccurs
    obtain ⟨q, hq, hlast⟩ := exists_return_of_crlf before after
    have htext : joinLines .lf lines = before ++ '\r' :: '\n' :: after := by
      rw [heq, List.append_assoc]
      rfl
    rw [← htext, splitAtFeeds_joinLines hne fun l hl => (h l hl).1] at hq
    exact (h q hq).2 hlast
  | crlf =>
    have hlen := htwo rfl
    match lines, hlen with
    | l :: k :: ls, _ =>
      refine if_pos ((occursIn_iff _ _).mpr ⟨l, joinLines .crlf (k :: ls), ?_⟩)
      rw [joinLines_cons_cons, List.append_assoc]
      rfl

theorem two_le_length_of_crlf {text : Line} (h : LineEnding.of text = .crlf) :
    2 ≤ (splitLines text).length := by
  have hoccurs : occursIn ['\r', '\n'] text = true := by
    by_contra hno
    rw [LineEnding.of, if_neg hno] at h
    exact absurd h (by decide)
  obtain ⟨before, after, heq⟩ := (occursIn_iff _ _).mp hoccurs
  have hfeed : '\n' ∈ text := by rw [heq]; simp
  have hcount := List.count_pos_iff.mpr hfeed
  rw [splitLines, List.length_map, length_splitAtFeeds]
  omega

theorem ending_formatText (text : Line) :
    LineEnding.of (formatText text) = LineEnding.of text := by
  have hlen := length_layout 0 (splitLines text)
  refine ending_joinLines ?_ (layout_plain (splitLines_no_feed text) 0) fun h => ?_
  · rw [ne_eq, ← List.length_eq_zero_iff, hlen, List.length_eq_zero_iff]
    exact splitLines_ne_nil text
  · rw [hlen]
    exact two_le_length_of_crlf h

/-! ## texts -/

/-- **Layout is idempotent.**  A text that is laid out stays as it is, and its document has nothing
to edit. -/
theorem formatText_idempotent (text : Line) :
    formatText (formatText text) = formatText text ∧
      formatEdits (Analysis.of (formatText text)) = [] := by
  have hlines := splitLines_formatText text
  constructor
  · rw [formatText, ending_formatText, hlines, layout_layout]
    rfl
  · rw [formatEdits_eq_nil_iff]
    show layout 0 (splitLines (formatText text)) = splitLines (formatText text)
    rw [hlines, layout_layout]

end LanguageService
