import LanguageService.Text.Edit

/-!
# Lines of a text, joined and edited

* `splitLines_joinLines`   lines that are joined are found again
* `splitLines_append_eq_iff`   a text behind another one that leaves its lines alone
* `eq_around`              a text around one of its pieces
* `decodedOffset`          a position as a place on a line, or the end of the text
* `splitAtFeeds_applyEdit` an edit on one line changes only the piece of that line
-/

namespace LanguageService

/-! ## carriage returns -/

theorem dropReturn_concat (x : Line) : dropReturn (x ++ ['\r']) = x := by
  rw [dropReturn, if_pos (by simp), List.dropLast_concat]

theorem dropReturn_of_getLast? {x : Line} (h : x.getLast? ≠ some '\r') : dropReturn x = x := by
  rw [dropReturn, if_neg h]

theorem eq_dropReturn (q : Line) : q = dropReturn q ∨ q = dropReturn q ++ ['\r'] := by
  by_cases h : q.getLast? = some '\r'
  · obtain ⟨x, rfl⟩ := List.getLast?_eq_some_iff.mp h
    exact Or.inr (by rw [dropReturn_concat])
  · exact Or.inl (dropReturn_of_getLast? h).symm

/-! ## pieces between line feeds -/

theorem splitAtFeeds_of_no_feed {x : Line} (hx : '\n' ∉ x) : splitAtFeeds x = [x] := by
  induction x with
  | nil => rfl
  | cons c x ih =>
    rw [splitAtFeeds, if_neg (Ne.symm (List.ne_of_not_mem_cons hx)),
      ih (List.not_mem_of_not_mem_cons hx)]

theorem splitLines_of_line {x : Line} (hfeed : '\n' ∉ x) (hreturn : '\r' ∉ x) :
    splitLines x = [x] := by
  have hlast : x.getLast? ≠ some '\r' := fun h => hreturn (List.mem_of_getLast? h)
  rw [splitLines, splitAtFeeds_of_no_feed hfeed, List.map_singleton, dropReturn_of_getLast? hlast]

theorem splitAtFeeds_append_feed {x : Line} (hx : '\n' ∉ x) (rest : Line) :
    splitAtFeeds (x ++ '\n' :: rest) = x :: splitAtFeeds rest := by
  induction x with
  | nil => rfl
  | cons c x ih =>
    rw [List.cons_append, splitAtFeeds, if_neg (Ne.symm (List.ne_of_not_mem_cons hx)),
      ih (List.not_mem_of_not_mem_cons hx)]

theorem length_splitAtFeeds (text : Line) : (splitAtFeeds text).length = text.count '\n' + 1 := by
  induction text with
  | nil => rfl
  | cons c text ih =>
    unfold splitAtFeeds
    split
    · next hc => rw [List.length_cons, ih, hc, List.count_cons_self]
    · next hc =>
      rw [List.count_cons_of_ne hc, ← ih]
      cases hs : splitAtFeeds text with
      | nil => exact absurd hs (splitAtFeeds_ne_nil text)
      | cons p ps => rfl

/-- Pieces with a line feed behind each. -/
def piecesBefore (ps : List Line) : Line :=
  ps.flatMap fun q => q ++ ['\n']

/-- Pieces with a line feed before each. -/
def piecesBehind (ps : List Line) : Line :=
  ps.flatMap fun q => '\n' :: q

theorem piecesBefore_cons (q : Line) (ps : List Line) :
    piecesBefore (q :: ps) = q ++ '\n' :: piecesBefore ps := by
  rw [piecesBefore, List.flatMap_cons, List.append_assoc]
  rfl

theorem piecesBehind_cons (q : Line) (ps : List Line) :
    piecesBehind (q :: ps) = '\n' :: (q ++ piecesBehind ps) := rfl

theorem splitAtFeeds_around {pre post : List Line} {q : Line}
    (h : ∀ x ∈ pre ++ q :: post, '\n' ∉ x) :
    splitAtFeeds (piecesBefore pre ++ (q ++ piecesBehind post)) = pre ++ q :: post := by
  induction pre with
  | nil =>
    show splitAtFeeds (q ++ piecesBehind post) = q :: post
    have hq : '\n' ∉ q := h q List.mem_cons_self
    have hpost : ∀ x ∈ post, '\n' ∉ x := fun x hx => h x (List.mem_cons_of_mem _ hx)
    clear h
    induction post generalizing q with
    | nil => rw [piecesBehind, List.flatMap_nil, List.append_nil, splitAtFeeds_of_no_feed hq]
    | cons x post ih =>
      rw [piecesBehind_cons, splitAtFeeds_append_feed hq,
        ih (hpost x List.mem_cons_self) fun y hy => hpost y (List.mem_cons_of_mem _ hy)]
  | cons x pre ih =>
    rw [piecesBefore_cons, List.append_assoc, List.cons_append,
      splitAtFeeds_append_feed (h x List.mem_cons_self),
      ih fun y hy => h y (List.mem_cons_of_mem _ hy)]
    rfl

theorem eq_of_splitAtFeeds {text q : Line} {post : List Line}
    (h : splitAtFeeds text = q :: post) : text = q ++ piecesBehind post := by
  induction text generalizing q post with
  | nil =>
    obtain ⟨rfl, rfl⟩ := List.cons.inj h
    rfl
  | cons c text ih =>
    unfold splitAtFeeds at h
    split at h
    · next hc =>
      obtain ⟨rfl, rfl⟩ := List.cons.inj h
      cases hs : splitAtFeeds text with
      | nil => exact absurd hs (splitAtFeeds_ne_nil text)
      | cons x xs => rw [hc, ih hs, List.nil_append, piecesBehind_cons]
    · split at h
      · next hs => exact absurd hs (splitAtFeeds_ne_nil text)
      · next l ls hs =>
        obtain ⟨rfl, rfl⟩ := List.cons.inj h
        rw [ih hs, List.cons_append]

theorem append_piecesBehind (pre post : List Line) (q : Line) (x : Line) :
    x ++ piecesBehind (pre ++ q :: post) =
      piecesBefore (x :: pre) ++ (q ++ piecesBehind post) := by
  induction pre generalizing x with
  | nil =>
    rw [List.nil_append, piecesBehind_cons, piecesBefore_cons]
    simp [piecesBefore]
  | cons y pre ih =>
    rw [List.cons_append, piecesBehind_cons, piecesBefore_cons, ih, List.append_assoc,
      List.cons_append]

theorem eq_around {text q : Line} {pre post : List Line}
    (h : splitAtFeeds text = pre ++ q :: post) :
    text = piecesBefore pre ++ (q ++ piecesBehind post) := by
  cases pre with
  | nil => exact eq_of_splitAtFeeds h
  | cons x pre =>
    have h' : splitAtFeeds text = x :: (pre ++ q :: post) := h
    rw [eq_of_splitAtFeeds h', append_piecesBehind]

theorem piecesBefore_append (ps qs : List Line) :
    piecesBefore (ps ++ qs) = piecesBefore ps ++ piecesBefore qs :=
  List.flatMap_append

/-- a text between pieces brings its own pieces -/
theorem splitAtFeeds_between {pre post : List Line} (hpre : ∀ x ∈ pre, '\n' ∉ x)
    (hpost : ∀ x ∈ post, '\n' ∉ x) (y : Line) :
    splitAtFeeds (piecesBefore pre ++ (y ++ piecesBehind post)) =
      pre ++ (splitAtFeeds y ++ post) := by
  obtain ⟨ps, q, hq⟩ :=
    List.eq_nil_or_concat (splitAtFeeds y) |>.resolve_left (splitAtFeeds_ne_nil y)
  rw [List.concat_eq_append] at hq
  have hno := splitAtFeeds_no_feed y
  rw [hq] at hno
  have htext : piecesBefore pre ++ (y ++ piecesBehind post) =
      piecesBefore (pre ++ ps) ++ (q ++ piecesBehind post) := by
    rw [piecesBefore_append, eq_around hq]
    simp only [piecesBehind, List.flatMap_nil, List.append_nil, List.append_assoc]
  have hall : ∀ x ∈ (pre ++ ps) ++ q :: post, '\n' ∉ x := by
    intro x hx
    simp only [List.mem_append, List.mem_cons] at hx hno
    rcases hx with (hx | hx) | hx | hx
    · exact hpre x hx
    · exact hno x (Or.inl hx)
    · exact hno x (Or.inr (Or.inl hx))
    · exact hpost x hx
  rw [htext, splitAtFeeds_around hall, hq]
  simp only [List.append_assoc, List.singleton_append]

/-! ## joined lines -/

theorem joinLines_singleton (e : LineEnding) (l : Line) : joinLines e [l] = l :=
  List.intercalate_singleton

theorem joinLines_cons_cons (e : LineEnding) (l k : Line) (ls : List Line) :
    joinLines e (l :: k :: ls) = l ++ (e.chars ++ joinLines e (k :: ls)) := by
  rw [joinLines, List.intercalate_cons_cons, List.append_assoc]
  rfl

/-- lines that are joined are found again -/
theorem splitLines_joinLines (e : LineEnding) {lines : List Line} (hne : lines ≠ [])
    (h : ∀ l ∈ lines, '\n' ∉ l ∧ l.getLast? ≠ some '\r') :
    splitLines (joinLines e lines) = lines := by
  obtain ⟨l, ls, rfl⟩ := List.exists_cons_of_ne_nil hne
  clear hne
  obtain ⟨hl, hend⟩ := h l List.mem_cons_self
  induction ls generalizing l with
  | nil =>
    rw [joinLines_singleton, splitLines, splitAtFeeds_of_no_feed hl, List.map_singleton,
      dropReturn_of_getLast? hend]
  | cons k ls ih =>
    have htail := h k (List.mem_cons_of_mem _ List.mem_cons_self)
    have ih := ih k (fun x hx => h x (List.mem_cons_of_mem _ hx)) htail.1 htail.2
    rw [splitLines] at ih
    rw [joinLines_cons_cons, splitLines]
    cases e with
    | lf =>
      show (splitAtFeeds (l ++ '\n' :: joinLines .lf (k :: ls))).map dropReturn = _
      rw [splitAtFeeds_append_feed hl, List.map_cons, ih, dropReturn_of_getLast? hend]
    | crlf =>
      have hcr : '\n' ∉ l ++ ['\r'] := by simpa using hl
      have hassoc : l ++ (LineEnding.crlf.chars ++ joinLines .crlf (k :: ls)) =
          (l ++ ['\r']) ++ '\n' :: joinLines .crlf (k :: ls) := by
        rw [List.append_assoc]
        rfl
      rw [hassoc, splitAtFeeds_append_feed hcr, List.map_cons, ih, dropReturn_concat]

theorem getLast?_joinLines (e : LineEnding) {lines : List Line}
    (h : ∀ l ∈ lines, l.getLast? ≠ some '\r') : (joinLines e lines).getLast? ≠ some '\r' := by
  induction lines with
  | nil => cases e <;> decide
  | cons l lines ih =>
    cases lines with
    | nil =>
      rw [joinLines_singleton]
      exact h l List.mem_cons_self
    | cons k ls =>
      rw [joinLines_cons_cons]
      have ih := ih fun x hx => h x (List.mem_cons_of_mem _ hx)
      intro hlast
      rw [List.getLast?_append, List.getLast?_append] at hlast
      cases hjoin : (joinLines e (k :: ls)).getLast? with
      | none =>
        have hend : e.chars.getLast? = some '\n' := by cases e <;> rfl
        rw [hjoin, hend] at hlast
        exact absurd (Option.some.inj hlast) (by decide)
      | some c =>
        rw [hjoin] at ih hlast
        exact ih (by simpa using hlast)

theorem not_settled_of_feed {y : Line} (h : '\n' ∈ y) : ¬(y = [] ∨ y = ['\r']) := by
  rintro (rfl | rfl)
  · exact List.not_mem_nil h
  · exact absurd h (by decide)

theorem splitLines_append_eq_iff {x : Line} (hx : x.getLast? ≠ some '\r') (y : Line) :
    splitLines (x ++ y) = splitLines x ↔ y = [] ∨ y = ['\r'] := by
  by_cases hy : '\n' ∈ y
  · refine iff_of_false (fun h => ?_) (not_settled_of_feed hy)
    have hlen := congrArg List.length h
    have hcount := List.count_pos_iff.mpr hy
    rw [splitLines, splitLines, List.length_map, List.length_map, length_splitAtFeeds,
      length_splitAtFeeds, List.count_append] at hlen
    omega
  · obtain ⟨pre, q, hq⟩ :=
      List.eq_nil_or_concat (splitAtFeeds x) |>.resolve_left (splitAtFeeds_ne_nil x)
    rw [List.concat_eq_append] at hq
    have htext : x = piecesBefore pre ++ q := by
      rw [eq_around hq]
      exact congrArg _ (List.append_nil q)
    have hlast : q.getLast? ≠ some '\r' := by
      intro h
      rw [htext, List.getLast?_append, h] at hx
      exact hx rfl
    have hpieces : splitAtFeeds (x ++ y) = pre ++ [q ++ y] := by
      have hfeeds := splitAtFeeds_no_feed x
      rw [hq] at hfeeds
      have hno : ∀ p ∈ pre ++ [q ++ y], '\n' ∉ p := by
        intro p hp
        rcases List.mem_append.mp hp with hp | hp
        · exact hfeeds p (List.mem_append_left _ hp)
        · rw [List.mem_singleton.mp hp, List.mem_append, not_or]
          exact ⟨hfeeds q (List.mem_append_right _ List.mem_cons_self), hy⟩
      have haround := splitAtFeeds_around hno
      rw [piecesBehind, List.flatMap_nil, List.append_nil, ← List.append_assoc, ← htext] at haround
      exact haround
    rw [splitLines, splitLines, hpieces, hq, List.map_append, List.map_append, List.map_singleton,
      List.map_singleton, List.append_cancel_left_eq, List.singleton_inj, dropReturn_of_getLast? hlast]
    constructor
    · intro h
      rcases eq_dropReturn (q ++ y) with heq | heq
      · rw [h] at heq
        exact Or.inl (List.append_right_eq_self.mp heq)
      · rw [h] at heq
        exact Or.inr (List.append_cancel_left heq)
    · rintro (rfl | rfl)
      · rw [List.append_nil, dropReturn_of_getLast? hlast]
      · exact dropReturn_concat q

/-! ## positions -/

theorem offsetInPieces_around (pre post : List Line) (q : Line) (col : Nat) :
    offsetInPieces (pre ++ q :: post) pre.length col =
      (piecesBefore pre).length + place (dropReturn q) col := by
  induction pre with
  | nil => exact (Nat.zero_add _).symm
  | cons x pre ih =>
    rw [List.cons_append, List.length_cons, offsetInPieces, if_neg (by simp), ih,
      piecesBefore_cons, List.length_append, List.length_cons]
    omega

theorem textOffset_around {text q : Line} {pre post : List Line}
    (h : splitAtFeeds text = pre ++ q :: post) (col : Nat) :
    textOffset text ⟨pre.length, col⟩ = (piecesBefore pre).length + place (dropReturn q) col := by
  rw [textOffset, h, offsetInPieces_around]

theorem offsetInPieces_of_length_le {ps : List Line} {n : Nat} (hne : ps ≠ [])
    (h : ps.length ≤ n) (col : Nat) : offsetInPieces ps n col = piecesLength ps := by
  induction ps generalizing n with
  | nil => exact absurd rfl hne
  | cons q ps ih =>
    cases n with
    | zero => exact absurd h (Nat.not_succ_le_zero _)
    | succ n =>
      rw [offsetInPieces]
      cases ps with
      | nil => rfl
      | cons x ps =>
        rw [if_neg (by simp), ih (List.cons_ne_nil _ _) (Nat.le_of_succ_le_succ h)]
        rfl

/-- the number of characters before line `n` -/
def lineOffset (text : Line) (n : Nat) : Nat :=
  (piecesBefore ((splitAtFeeds text).take n)).length

/-- A position is a place on the line with its number; a line beyond the last one means the end of
the text. -/
def decodedOffset (text : Line) (p : Position) : Nat :=
  match (splitLines text)[p.line]? with
  | none => text.length
  | some l => lineOffset text p.line + place l p.character

theorem textOffset_eq_decoded (text : Line) (p : Position) :
    textOffset text p = decodedOffset text p := by
  rw [decodedOffset, splitLines, List.getElem?_map]
  cases hq : (splitAtFeeds text)[p.line]? with
  | none =>
    rw [textOffset, offsetInPieces_of_length_le (splitAtFeeds_ne_nil text)
      (List.getElem?_eq_none_iff.mp hq), piecesLength_splitAtFeeds]
    rfl
  | some q =>
    obtain ⟨hlt, hget⟩ := List.getElem?_eq_some_iff.mp hq
    have hsplit : splitAtFeeds text = (splitAtFeeds text).take p.line ++
        q :: (splitAtFeeds text).drop (p.line + 1) := by
      rw [← hget, List.getElem_cons_drop, List.take_append_drop]
    have hlen : ((splitAtFeeds text).take p.line).length = p.line := by
      rw [List.length_take, Nat.min_eq_left (Nat.le_of_lt hlt)]
    have haround := textOffset_around hsplit p.character
    rw [hlen] at haround
    exact haround

/-! ## an edit on one line -/

/-- a piece after its characters from `a` up to `b` are replaced -/
def replaceIn (q : Line) (a b : Nat) (new : Line) : Line :=
  q.take a ++ new ++ q.drop (max a b)

theorem not_mem_replaceIn {q new : Line} {c : Char} (hq : c ∉ q) (hnew : c ∉ new) (a b : Nat) :
    c ∉ replaceIn q a b new := by
  rw [replaceIn, List.mem_append, List.mem_append]
  rintro ((h | h) | h)
  · exact hq (List.mem_of_mem_take h)
  · exact hnew h
  · exact hq (List.mem_of_mem_drop h)

/-- an edit on one line changes only the piece of that line -/
theorem splitAtFeeds_applyEdit {text q new : Line} {pre post : List Line}
    (h : splitAtFeeds text = pre ++ q :: post) (hnew : '\n' ∉ new) (c d : Nat) :
    splitAtFeeds (applyEdit text ⟨⟨⟨pre.length, c⟩, ⟨pre.length, d⟩⟩, new⟩) =
      pre ++ replaceIn q (place (dropReturn q) c) (place (dropReturn q) d) new :: post := by
  have hno : ∀ x ∈ pre ++ q :: post, '\n' ∉ x := h ▸ splitAtFeeds_no_feed text
  have hle : ∀ k, place (dropReturn q) k ≤ q.length := fun k =>
    Nat.le_trans (place_le_length _ _) (length_dropReturn_le q)
  have hmax : max (place (dropReturn q) c) (place (dropReturn q) d) ≤ q.length :=
    Nat.max_le.mpr ⟨hle c, hle d⟩
  have htext : applyEdit text ⟨⟨⟨pre.length, c⟩, ⟨pre.length, d⟩⟩, new⟩ = piecesBefore pre ++
      (replaceIn q (place (dropReturn q) c) (place (dropReturn q) d) new ++ piecesBehind post) := by
    show text.take (textOffset text ⟨pre.length, c⟩) ++ new ++ text.drop
      (max (textOffset text ⟨pre.length, c⟩) (textOffset text ⟨pre.length, d⟩)) = _
    rw [textOffset_around h, textOffset_around h, Nat.add_max_add_left, eq_around h,
      List.take_length_add_append, List.drop_length_add_append,
      List.take_append_of_le_length (hle c), List.drop_append_of_le_length hmax, replaceIn]
    simp only [List.append_assoc]
  rw [htext]
  refine splitAtFeeds_around fun x hx => ?_
  rcases List.mem_append.mp hx with hx | hx
  · exact hno x (List.mem_append_left _ hx)
  · rcases List.mem_cons.mp hx with rfl | hx
    · exact not_mem_replaceIn (hno q (List.mem_append_right _ List.mem_cons_self)) hnew _ _
    · exact hno x (List.mem_append_right _ (List.mem_cons_of_mem _ hx))

end LanguageService
