import LanguageService.Proofs.Text.Lines

/-!
# Edits as seen by the lines

An edit on one line changes that line and no other, an edit from the start of a line to the start of
the next one takes the line out, and an edit from the start of a line to the end of one replaces the
lines from the one to the other, whatever ends the lines of the text.

* `exists_piece`           the piece of a line among the pieces of a text
* `splitLines_applyEdit`   an edit on one line
* `splitLines_emptyLine`, `splitLines_deleteLine`   a line is emptied, or taken out
* `splitLines_replaceLines`   lines are replaced by others
-/

namespace LanguageService

theorem place_zero (l : Line) : place l 0 = 0 := by
  have h := place_column l 0 (Nat.zero_le _)
  rwa [column_zero] at h

theorem place_width (l : Line) : place l (width l) = l.length := by
  rw [← column_length]
  exact place_column l l.length (Nat.le_refl _)

theorem exists_piece {text l : Line} {n : Nat} (h : (splitLines text)[n]? = some l) :
    ∃ pre q post, splitAtFeeds text = pre ++ q :: post ∧ pre.length = n ∧ dropReturn q = l := by
  rw [splitLines, List.getElem?_map] at h
  obtain ⟨q, hq, hl⟩ := Option.map_eq_some_iff.mp h
  obtain ⟨hlt, hget⟩ := List.getElem?_eq_some_iff.mp hq
  obtain ⟨pre, post, hsplit, hlen, -⟩ := @List.exists_of_set _ n q _ hlt
  rw [hget] at hsplit
  exact ⟨pre, q, post, hsplit, hlen, hl⟩

theorem splitLines_applyEdit {text l new : Line} {n : Nat} (h : (splitLines text)[n]? = some l)
    (hnew : '\n' ∉ new) (c d : Nat) : ∃ q, dropReturn q = l ∧
      splitLines (applyEdit text ⟨⟨⟨n, c⟩, ⟨n, d⟩⟩, new⟩) =
        (splitLines text).set n (dropReturn (replaceIn q (place l c) (place l d) new)) := by
  obtain ⟨pre, q, post, hsplit, rfl, rfl⟩ := exists_piece h
  refine ⟨q, rfl, ?_⟩
  rw [splitLines, splitAtFeeds_applyEdit hsplit hnew, splitLines, hsplit, List.map_append,
    List.map_append, List.map_cons, List.map_cons, List.set_append_right _ _ (by simp)]
  simp

theorem splitLines_emptyLine {text l : Line} {n : Nat} (h : (splitLines text)[n]? = some l) :
    splitLines (applyEdit text ⟨⟨⟨n, 0⟩, ⟨n, width l⟩⟩, []⟩) = (splitLines text).set n [] := by
  obtain ⟨q, hq, hlines⟩ := splitLines_applyEdit h List.not_mem_nil 0 (width l)
  have hrest : dropReturn (replaceIn q 0 l.length []) = [] := by
    rw [replaceIn, Nat.zero_max, List.take_zero, List.append_nil, List.nil_append]
    rcases eq_dropReturn q with heq | heq
    · rw [hq] at heq
      rw [heq, List.drop_length]
      rfl
    · rw [hq] at heq
      rw [heq, List.drop_left]
      rfl
  rw [hlines, place_zero, place_width, hrest]

theorem applyEdit_deleteLine {text q x : Line} {pre post : List Line}
    (h : splitAtFeeds text = pre ++ q :: x :: post) :
    applyEdit text ⟨⟨⟨pre.length, 0⟩, ⟨pre.length + 1, 0⟩⟩, []⟩ =
      piecesBefore pre ++ (x ++ piecesBehind post) := by
  have hbehind : splitAtFeeds text = (pre ++ [q]) ++ x :: post := by
    rw [h, List.append_assoc, List.singleton_append]
  have hstart : textOffset text ⟨pre.length, 0⟩ = (piecesBefore pre).length := by
    rw [textOffset_around h, place_zero, Nat.add_zero]
  have hstop : textOffset text ⟨pre.length + 1, 0⟩ = (piecesBefore (pre ++ [q])).length := by
    have hoffset := textOffset_around hbehind 0
    rwa [List.length_append, List.length_singleton, place_zero, Nat.add_zero] at hoffset
  have hle : (piecesBefore pre).length ≤ (piecesBefore (pre ++ [q])).length := by
    rw [piecesBefore, piecesBefore, List.flatMap_append, List.length_append]
    exact Nat.le_add_right _ _
  show text.take (textOffset text ⟨pre.length, 0⟩) ++ [] ++ text.drop
    (max (textOffset text ⟨pre.length, 0⟩) (textOffset text ⟨pre.length + 1, 0⟩)) = _
  rw [hstart, hstop, Nat.max_eq_right hle, List.append_nil]
  congr 1
  · rw [eq_around h, List.take_left]
  · rw [eq_around hbehind, List.drop_left]

theorem splitAtFeeds_deleteLine {text q x : Line} {pre post : List Line}
    (h : splitAtFeeds text = pre ++ q :: x :: post) :
    splitAtFeeds (applyEdit text ⟨⟨⟨pre.length, 0⟩, ⟨pre.length + 1, 0⟩⟩, []⟩) =
      pre ++ x :: post := by
  rw [applyEdit_deleteLine h]
  apply splitAtFeeds_around
  intro y hy
  have hno := splitAtFeeds_no_feed text
  rw [h] at hno
  apply hno
  rcases List.mem_append.mp hy with hy | hy
  · exact List.mem_append_left _ hy
  · exact List.mem_append_right _ (List.mem_cons_of_mem _ hy)

theorem splitLines_deleteLine {text : Line} {n : Nat} (h : n + 1 < (splitLines text).length) :
    splitLines (applyEdit text ⟨⟨⟨n, 0⟩, ⟨n + 1, 0⟩⟩, []⟩) = (splitLines text).eraseIdx n := by
  have hlt : n < (splitLines text).length := by omega
  obtain ⟨pre, q, post, hsplit, hlen, -⟩ := exists_piece (List.getElem?_eq_getElem hlt)
  cases post with
  | nil =>
    rw [splitLines, List.length_map, hsplit, List.length_append, List.length_singleton] at h
    omega
  | cons x post =>
    subst hlen
    rw [splitLines, splitAtFeeds_deleteLine hsplit, splitLines, hsplit, List.map_append,
      List.map_append, List.eraseIdx_append_of_length_le (by simp), List.map_cons, List.map_cons]
    simp

/-! ## several lines -/

theorem textOffset_lineStart {text : Line} {n : Nat} (h : n < (splitLines text).length) :
    textOffset text ⟨n, 0⟩ = lineOffset text n := by
  rw [textOffset_eq_decoded, decodedOffset, List.getElem?_eq_getElem h]
  show lineOffset text n + place (splitLines text)[n] 0 = _
  rw [place_zero, Nat.add_zero]

/-- Pieces are replaced from the start of one of them to the end of the line of another.  What ends
this line stays. -/
theorem applyEdit_replaceLines {text q r new : Line} {above post : List Line} {m : Nat}
    (h : splitAtFeeds text = above ++ q :: post) (hq : q = dropReturn q ++ r)
    (hm : m ≤ above.length) :
    applyEdit text ⟨⟨⟨m, 0⟩, ⟨above.length, width (dropReturn q)⟩⟩, new⟩ =
      piecesBefore (above.take m) ++ ((new ++ r) ++ piecesBehind post) := by
  have hlt : m < (splitLines text).length := by
    rw [splitLines, List.length_map, h, List.length_append, List.length_cons]
    omega
  have hstart : textOffset text ⟨m, 0⟩ = (piecesBefore (above.take m)).length := by
    rw [textOffset_lineStart hlt, lineOffset, h, List.take_append_of_le_length hm]
  have hstop : textOffset text ⟨above.length, width (dropReturn q)⟩ =
      (piecesBefore above ++ dropReturn q).length := by
    rw [textOffset_around h, place_width, List.length_append]
  have habove : piecesBefore above =
      piecesBefore (above.take m) ++ piecesBefore (above.drop m) := by
    rw [← piecesBefore_append, List.take_append_drop]
  have hle : (piecesBefore (above.take m)).length ≤ (piecesBefore above ++ dropReturn q).length := by
    rw [habove, List.append_assoc, List.length_append]
    exact Nat.le_add_right _ _
  have hbefore : text.take (piecesBefore (above.take m)).length = piecesBefore (above.take m) := by
    rw [eq_around h, habove, List.append_assoc, List.take_left]
  have hbehind : text.drop (piecesBefore above ++ dropReturn q).length = r ++ piecesBehind post := by
    have htext : text = (piecesBefore above ++ dropReturn q) ++ (r ++ piecesBehind post) := by
      rw [List.append_assoc, ← List.append_assoc (dropReturn q), ← hq]
      exact eq_around h
    exact (congrArg (List.drop _) htext).trans List.drop_left
  show text.take (textOffset text ⟨m, 0⟩) ++ new ++ text.drop
    (max (textOffset text ⟨m, 0⟩) (textOffset text ⟨above.length, width (dropReturn q)⟩)) = _
  rw [hstart, hstop, Nat.max_eq_right hle, hbefore, hbehind]
  simp only [List.append_assoc]

/-- Lines are replaced by others, from the start of line `m` to the end of line `n`. -/
theorem splitLines_replaceLines {text l : Line} {m n : Nat} (hmn : m ≤ n)
    (hl : (splitLines text)[n]? = some l) (e : LineEnding) {new : List Line} (hne : new ≠ [])
    (hplain : ∀ x ∈ new, '\n' ∉ x ∧ x.getLast? ≠ some '\r') :
    splitLines (applyEdit text ⟨⟨⟨m, 0⟩, ⟨n, width l⟩⟩, joinLines e new⟩) =
      (splitLines text).take m ++ (new ++ (splitLines text).drop (n + 1)) := by
  obtain ⟨above, q, post, hsplit, rfl, rfl⟩ := exists_piece hl
  obtain ⟨r, hq, hr⟩ : ∃ r, q = dropReturn q ++ r ∧ (r = [] ∨ r = ['\r']) := by
    rcases eq_dropReturn q with h | h
    · exact ⟨[], by rw [List.append_nil]; exact h, Or.inl rfl⟩
    · exact ⟨['\r'], h, Or.inr rfl⟩
  have hfeeds := splitAtFeeds_no_feed text
  rw [hsplit] at hfeeds
  have hpre : ∀ x ∈ above.take m, '\n' ∉ x := fun x hx =>
    hfeeds x (List.mem_append_left _ (List.mem_of_mem_take hx))
  have hpost : ∀ x ∈ post, '\n' ∉ x := fun x hx =>
    hfeeds x (List.mem_append_right _ (List.mem_cons_of_mem _ hx))
  -- a carriage return that is left behind the new lines does not show
  have hnew : (splitAtFeeds (joinLines e new ++ r)).map dropReturn = new :=
    ((splitLines_append_eq_iff (getLast?_joinLines e fun x hx => (hplain x hx).2) r).mpr hr).trans
      (splitLines_joinLines e hne hplain)
  have htake : (splitLines text).take m = (above.take m).map dropReturn := by
    rw [splitLines, hsplit, ← List.map_take, List.take_append_of_le_length hmn]
  have hdrop : (splitLines text).drop (above.length + 1) = post.map dropReturn := by
    rw [splitLines, hsplit, ← List.map_drop, List.drop_length_add_append, List.drop_succ_cons,
      List.drop_zero]
  rw [splitLines, applyEdit_replaceLines hsplit hq hmn, splitAtFeeds_between hpre hpost,
    List.map_append, List.map_append, hnew, htake, hdrop]

end LanguageService
