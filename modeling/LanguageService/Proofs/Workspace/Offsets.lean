import Mathlib.Data.List.Basic
import LanguageService.Workspace.Document

/-!
# Positions and edits stay within the text

The place of a position lies on its line, later positions have no earlier places, and no position
leads between the two characters of CR LF.  So the edits of a batch can all be made.

* `BehindBreak text k`     a line break ends right before a place
* `lineStart text n`       the place where a stored line begins
* `linesBegin`             lines begin at the start of the text and behind its breaks
* `charOffset_of_line`     the place of a position on its line
* `charOffset_mono`        positions keep their order
* `removeChars?`, `insertChars?`, `changed?`   edits that fail outside of the text
* `changed?_eq`            no edit of a batch fails
* `positions_within_text`  all of this for a text
-/

namespace LanguageService

/-! ## where lines begin -/

/-- A break ends right before place `k`; the one of CR LF ends behind both characters. -/
def BehindBreak (text : Line) (k : Nat) : Prop :=
  ∃ x c y, text = x ++ c :: y ∧ isBreak c = true ∧ ¬ (c = '\r' ∧ y.head? = some '\n') ∧
    k = x.length + 1

/-- how many characters the first `n` lines hold -/
def lengthBefore (ls : List Line) (n : Nat) : Nat :=
  (ls.take n).flatten.length

/-- the number of characters before stored line `n` -/
def lineStart (text : Line) (n : Nat) : Nat :=
  lengthBefore (brokenLines text) n

/-- The places `start n` with `n < count` are the start of the text and the places behind its
breaks, in their order. -/
structure LinesBegin (text : Line) (count : Nat) (start : Nat → Nat) : Prop where
  nonempty : 0 < count
  first : start 0 = 0
  increasing : ∀ n, n + 1 < count → start n < start (n + 1)
  behind_break : ∀ k, (∃ n, n + 1 < count ∧ start (n + 1) = k) ↔ BehindBreak text k

theorem lengthBefore_cons (l : Line) (ls : List Line) (n : Nat) :
    lengthBefore (l :: ls) (n + 1) = l.length + lengthBefore ls n := by
  rw [lengthBefore, List.take_succ_cons, List.flatten_cons, List.length_append, lengthBefore]

theorem lengthBefore_consLine (c : Char) (ls : List Line) (n : Nat) :
    lengthBefore (consLine c ls) (n + 1) = lengthBefore ls (n + 1) + 1 := by
  cases ls with
  | nil => simp [consLine, lengthBefore]
  | cons l ls =>
    rw [consLine, lengthBefore_cons, lengthBefore_cons, List.length_cons, Nat.add_right_comm]

/-- behind `k` characters begins another line than the first -/
def BeginsBehind (ls : List Line) (k : Nat) : Prop :=
  ∃ n, n + 1 < ls.length ∧ lengthBefore ls (n + 1) = k

theorem beginsBehind_cons_iff (l : Line) {ls : List Line} (h : ls ≠ []) (k : Nat) :
    BeginsBehind (l :: ls) k ↔ k = l.length ∨ ∃ j, BeginsBehind ls j ∧ k = l.length + j := by
  constructor
  · intro hk
    obtain ⟨n, hn, rfl⟩ := hk
    rw [lengthBefore_cons]
    cases n with
    | zero => exact Or.inl rfl
    | succ n => exact Or.inr ⟨_, ⟨n, Nat.lt_of_succ_lt_succ hn, rfl⟩, rfl⟩
  · intro hk
    obtain rfl | ⟨_, ⟨n, hn, rfl⟩, rfl⟩ := hk
    · exact ⟨0, Nat.succ_lt_succ (List.length_pos_iff.mpr h), lengthBefore_cons l ls 0⟩
    · exact ⟨n + 1, Nat.succ_lt_succ hn, lengthBefore_cons l ls (n + 1)⟩

theorem beginsBehind_consLine_iff (c : Char) {ls : List Line} (h : ls ≠ []) (k : Nat) :
    BeginsBehind (consLine c ls) k ↔ ∃ j, BeginsBehind ls j ∧ k = j + 1 := by
  have hlen : (consLine c ls).length = ls.length := by
    obtain ⟨l, ls, rfl⟩ := List.exists_cons_of_ne_nil h
    rfl
  simp only [BeginsBehind, hlen, lengthBefore_consLine]
  constructor
  · intro hk
    obtain ⟨n, hn, rfl⟩ := hk
    exact ⟨_, ⟨n, hn, rfl⟩, rfl⟩
  · intro hk
    obtain ⟨_, ⟨n, hn, rfl⟩, rfl⟩ := hk
    exact ⟨n, hn, rfl⟩

theorem behindBreak_cons_iff (c : Char) (rest : Line) (k : Nat) :
    BehindBreak (c :: rest) k ↔
      (k = 1 ∧ isBreak c = true ∧ ¬ (c = '\r' ∧ rest.head? = some '\n')) ∨
        ∃ j, BehindBreak rest j ∧ k = j + 1 := by
  constructor
  · intro hk
    obtain ⟨x, d, y, h, hd, hcr, rfl⟩ := hk
    cases x with
    | nil =>
      obtain ⟨rfl, rfl⟩ := List.cons.inj h
      exact Or.inl ⟨rfl, hd, hcr⟩
    | cons e x =>
      obtain ⟨rfl, rfl⟩ := List.cons.inj h
      exact Or.inr ⟨_, ⟨x, d, y, rfl, hd, hcr, rfl⟩, rfl⟩
  · intro hk
    obtain ⟨rfl, hc, hcr⟩ | ⟨_, ⟨x, d, y, rfl, hd, hcr, rfl⟩, rfl⟩ := hk
    · exact ⟨[], c, rest, rfl, hc, hcr, rfl⟩
    · exact ⟨c :: x, d, y, rfl, hd, hcr, rfl⟩

theorem beginsBehind_iff (text : Line) (k : Nat) :
    BeginsBehind (brokenLines text) k ↔ BehindBreak text k := by
  fun_induction brokenLines text generalizing k with
  | case1 =>
    constructor
    · intro h
      obtain ⟨n, hn, -⟩ := h
      exact absurd (Nat.lt_of_succ_lt_succ hn) (Nat.not_lt_zero n)
    · intro h
      obtain ⟨x, c, y, h, -⟩ := h
      exact absurd h.symm (List.append_ne_nil_of_right_ne_nil x (List.cons_ne_nil c y))
  | case2 rest ih =>
    rw [beginsBehind_cons_iff _ (brokenLines_ne_nil rest), behindBreak_cons_iff]
    simp only [ih, behindBreak_cons_iff '\n']
    constructor
    · rintro (rfl | ⟨j, hj, rfl⟩)
      · exact Or.inr ⟨1, Or.inl ⟨rfl, by decide, fun h => absurd h.1 (by decide)⟩, rfl⟩
      · exact Or.inr ⟨j + 1, Or.inr ⟨j, hj, rfl⟩, Nat.add_comm 2 j⟩
    · rintro (⟨-, -, hcr⟩ | ⟨_, ⟨rfl, -⟩ | ⟨j, hj, rfl⟩, rfl⟩)
      · exact absurd ⟨trivial, rfl⟩ hcr
      · exact Or.inl rfl
      · exact Or.inr ⟨j, hj, Nat.add_comm j 2⟩
  | case3 c rest hcr hc ih =>
    have hsingle : ¬ (c = '\r' ∧ rest.head? = some '\n') := by
      rintro ⟨rfl, hrest⟩
      obtain ⟨r, rfl⟩ := List.head?_eq_some_iff.mp hrest
      exact hcr r rfl rfl
    rw [beginsBehind_cons_iff _ (brokenLines_ne_nil rest), behindBreak_cons_iff,
      and_iff_left (show isBreak c = true ∧ _ from ⟨hc, hsingle⟩)]
    simp only [ih, List.length_singleton, Nat.add_comm 1]
  | case4 c rest hcr hc ih =>
    rw [beginsBehind_consLine_iff c (brokenLines_ne_nil rest), behindBreak_cons_iff,
      or_iff_right fun h => hc h.2.1]
    simp only [ih]

theorem ne_nil_of_mem_brokenLines (text : Line) : ∀ l ∈ (brokenLines text).dropLast, l ≠ [] := by
  fun_induction brokenLines text with
  | case1 => exact fun l hl => absurd hl List.not_mem_nil
  | case2 rest ih =>
    rw [List.dropLast_cons_of_ne_nil (brokenLines_ne_nil rest)]
    exact List.forall_mem_cons.mpr ⟨List.cons_ne_nil _ _, ih⟩
  | case3 c rest hcr hc ih =>
    rw [List.dropLast_cons_of_ne_nil (brokenLines_ne_nil rest)]
    exact List.forall_mem_cons.mpr ⟨List.cons_ne_nil _ _, ih⟩
  | case4 c rest hcr hc ih =>
    cases hs : brokenLines rest with
    | nil => exact absurd hs (brokenLines_ne_nil rest)
    | cons l ls =>
      rw [hs] at ih
      cases ls with
      | nil => exact fun k hk => absurd hk List.not_mem_nil
      | cons m ls =>
        exact List.forall_mem_cons.mpr
          ⟨List.cons_ne_nil _ _, fun k hk => ih k (List.mem_cons_of_mem _ hk)⟩

theorem lengthBefore_succ {ls : List Line} {n : Nat} {l : Line} (h : ls[n]? = some l) :
    lengthBefore ls (n + 1) = lengthBefore ls n + l.length := by
  rw [lengthBefore, List.take_add_one, h, Option.toList_some, List.flatten_append,
    List.length_append, List.flatten_singleton, lengthBefore]

/-- lines begin at the start of the text and behind its breaks -/
theorem linesBegin (text : Line) :
    LinesBegin text (brokenLines text).length (lineStart text) where
  nonempty := List.length_pos_iff.mpr (brokenLines_ne_nil text)
  first := rfl
  increasing := by
    intro n hn
    have hl := List.getElem?_eq_getElem (Nat.lt_of_succ_lt hn)
    have hmem : (brokenLines text)[n] ∈ (brokenLines text).dropLast := by
      refine List.mem_of_getElem? (i := n) ?_
      rw [List.getElem?_dropLast, if_pos (Nat.lt_sub_of_add_lt hn), hl]
    rw [lineStart, lineStart, lengthBefore_succ hl]
    exact Nat.lt_add_of_pos_right (List.length_pos_iff.mpr (ne_nil_of_mem_brokenLines text _ hmem))
  behind_break := beginsBehind_iff text

/-! ## the place of a position -/

theorem breakPlace_mono (l : Line) {a b : Nat} (h : a ≤ b) : breakPlace l a ≤ breakPlace l b := by
  induction l generalizing a b with
  | nil => exact Nat.le_refl 0
  | cons c l ih =>
    unfold breakPlace
    split
    · exact Nat.zero_le _
    · next ha =>
      rw [not_or] at ha
      rw [if_neg (not_or.mpr ⟨by omega, ha.2⟩)]
      exact Nat.succ_le_succ (ih (Nat.sub_le_sub_right h _))

theorem offsetInLines_mono (ls : List Line) {m n a b : Nat} (h : m < n ∨ m = n ∧ a ≤ b) :
    offsetInLines ls m a ≤ offsetInLines ls n b := by
  induction ls generalizing m n with
  | nil => exact Nat.le_refl 0
  | cons l ls ih =>
    cases m with
    | zero =>
      cases n with
      | zero => exact breakPlace_mono l (h.resolve_left (Nat.lt_irrefl 0)).2
      | succ n => exact Nat.le_trans (breakPlace_le l a) (Nat.le_add_right _ _)
    | succ m =>
      cases n with
      | zero => omega
      | succ n => exact Nat.add_le_add_left (ih (by omega)) _

theorem offsetInLines_of_getElem? {ls : List Line} {n : Nat} {l : Line} (h : ls[n]? = some l)
    (col : Nat) : offsetInLines ls n col = lengthBefore ls n + breakPlace l col := by
  induction ls generalizing n with
  | nil => simp at h
  | cons k ls ih =>
    cases n with
    | zero =>
      obtain rfl := Option.some.inj h
      exact (Nat.zero_add _).symm
    | succ n =>
      rw [offsetInLines, ih (by simpa using h), lengthBefore_cons, Nat.add_assoc]

theorem offsetInLines_of_length_le {ls : List Line} {n : Nat} (h : ls.length ≤ n) (col : Nat) :
    offsetInLines ls n col = ls.flatten.length := by
  induction ls generalizing n with
  | nil => rfl
  | cons l ls ih =>
    cases n with
    | zero => exact absurd h (Nat.not_succ_le_zero _)
    | succ n =>
      rw [offsetInLines, ih (Nat.le_of_succ_le_succ h), List.flatten_cons, List.length_append]

theorem charOffset_of_line {text l : Line} {p : Position}
    (h : (brokenLines text)[p.line]? = some l) :
    charOffset text p = lineStart text p.line + breakPlace l p.character :=
  offsetInLines_of_getElem? h p.character

theorem charOffset_of_length_le {text : Line} {p : Position}
    (h : (brokenLines text).length ≤ p.line) : charOffset text p = text.length := by
  rw [charOffset, offsetInLines_of_length_le h, flatten_brokenLines]

theorem charOffset_mono (text : Line) {p q : Position} (h : p.le q = true) :
    charOffset text p ≤ charOffset text q :=
  offsetInLines_mono (brokenLines text) (Position.le_iff.mp h)

theorem lineStart_le_charOffset {text : Line} {p : Position}
    (h : p.line < (brokenLines text).length) : lineStart text p.line ≤ charOffset text p := by
  rw [charOffset_of_line (List.getElem?_eq_getElem h)]
  exact Nat.le_add_right _ _

theorem charOffset_le_lineStart {text : Line} {p : Position}
    (h : p.line < (brokenLines text).length) : charOffset text p ≤ lineStart text (p.line + 1) := by
  have hl := List.getElem?_eq_getElem h
  rw [charOffset_of_line hl, lineStart, lineStart, lengthBefore_succ hl]
  exact Nat.add_le_add_left (breakPlace_le _ _) _

/-- before a position stand the lines above it and a part of its own line -/
theorem take_charOffset {text l : Line} {p : Position}
    (h : (brokenLines text)[p.line]? = some l) : text.take (charOffset text p) =
      ((brokenLines text).take p.line).flatten ++ l.take (breakPlace l p.character) := by
  have hsplit : ((brokenLines text).take p.line).flatten ++
      (l ++ ((brokenLines text).drop (p.line + 1)).flatten) = text := by
    obtain ⟨hlt, hl⟩ := List.getElem?_eq_some_iff.mp h
    rw [← hl, ← List.flatten_cons, ← List.drop_eq_getElem_cons hlt, ← List.flatten_append,
      List.take_append_drop, flatten_brokenLines]
  have htake : (((brokenLines text).take p.line).flatten ++
      (l ++ ((brokenLines text).drop (p.line + 1)).flatten)).take
        (lineStart text p.line + breakPlace l p.character) =
      ((brokenLines text).take p.line).flatten ++ l.take (breakPlace l p.character) := by
    rw [lineStart, lengthBefore, List.take_length_add_append,
      List.take_append_of_le_length (breakPlace_le l p.character)]
  rw [charOffset_of_line h, ← htake, hsplit]

section
variable {text x y : Line} (h : text = x ++ '\r' :: '\n' :: y)
include h

/-- no line begins between the two characters of CR LF -/
theorem lineStart_ne_of_returnFeed {n : Nat} (hn : n < (brokenLines text).length) :
    lineStart text n ≠ x.length + 1 := by
  intro hstart
  cases n with
  | zero => exact Nat.succ_ne_zero _ hstart.symm
  | succ n =>
    obtain ⟨u, c, v, huv, -, hcr, hlen⟩ :=
      (beginsBehind_iff text (x.length + 1)).mp ⟨n, hn, hstart⟩
    obtain ⟨-, hcv⟩ := List.append_inj (h.symm.trans huv) (Nat.succ.inj hlen)
    obtain ⟨rfl, rfl⟩ := List.cons.inj hcv
    exact hcr ⟨rfl, rfl⟩

theorem charOffset_ne_of_returnFeed (p : Position) : charOffset text p ≠ x.length + 1 := by
  intro hk
  by_cases hline : p.line < (brokenLines text).length
  · have hl := List.getElem?_eq_getElem hline
    have hbefore := take_charOffset hl
    have htake : text.take (x.length + 1) = x ++ ['\r'] := by
      rw [h, List.take_length_add_append]
      rfl
    rw [hk, htake] at hbefore
    rw [charOffset_of_line hl] at hk
    -- what stands before the position on its line ends with CR, so there is nothing
    have hnone : (brokenLines text)[p.line].take
        (breakPlace (brokenLines text)[p.line] p.character) = [] := by
      by_contra hne
      have hlast := congrArg List.getLast? hbefore
      rw [List.getLast?_append_of_ne_nil _ hne, List.getLast?_concat] at hlast
      exact (ne_of_mem_take_breakPlace (List.mem_of_getLast? hlast.symm)).2 rfl
    have hzero := congrArg List.length hnone
    rw [List.length_take, Nat.min_eq_left (breakPlace_le _ _), List.length_nil] at hzero
    rw [hzero, Nat.add_zero] at hk
    exact lineStart_ne_of_returnFeed h hline hk
  · rw [charOffset_of_length_le (Nat.le_of_not_lt hline), h] at hk
    simp at hk

end

/-! ## edits -/

/-- the text without the characters between two places -/
def removeChars? (text : Line) (a b : Nat) : Option Line :=
  if a ≤ b ∧ b ≤ text.length then some (text.take a ++ text.drop b) else none

/-- the text with some characters put in at a place -/
def insertChars? (text : Line) (a : Nat) (new : Line) : Option Line :=
  if a ≤ text.length then some (text.take a ++ (new ++ text.drop a)) else none

/-- where a range ends, but not before it starts -/
def stopOffset (text : Line) (r : Range) : Nat :=
  max (charOffset text r.start) (charOffset text r.stop)

/-- a text after a change, if both the removal and the insertion stay within the text -/
def Change.applied? (c : Change) (text : Line) : Option Line :=
  match c.range with
  | none => some c.text
  | some r =>
    (removeChars? text (charOffset text r.start) (stopOffset text r)).bind fun t =>
      insertChars? t (charOffset text r.start) c.text

/-- the text after several such changes, one after the other -/
def changed? (text : Line) (changes : List Change) : Option Line :=
  changes.foldlM (fun t c => c.applied? t) text

theorem stopOffset_le (text : Line) (r : Range) : stopOffset text r ≤ text.length :=
  Nat.max_le.mpr ⟨charOffset_le text r.start, charOffset_le text r.stop⟩

theorem stopOffset_eq (text : Line) (r : Range) : stopOffset text r =
    if r.start.le r.stop then charOffset text r.stop else charOffset text r.start := by
  split
  · next h => exact Nat.max_eq_right (charOffset_mono text h)
  · next h =>
    refine Nat.max_eq_left (charOffset_mono text (Position.le_iff.mpr ?_))
    rw [Position.le_iff] at h
    omega

/-- neither the removal nor the insertion of a change fails -/
theorem applied?_eq (c : Change) (text : Line) : c.applied? text = some (c.apply text) := by
  obtain ⟨_ | r, new⟩ := c
  · rfl
  · have hstart := charOffset_le text r.start
    have hlen : (text.take (charOffset text r.start)).length = charOffset text r.start := by
      rw [List.length_take, Nat.min_eq_left hstart]
    have hremove : removeChars? text (charOffset text r.start) (stopOffset text r) =
        some (text.take (charOffset text r.start) ++ text.drop (stopOffset text r)) :=
      if_pos ⟨Nat.le_max_left _ _, stopOffset_le text r⟩
    have hinsert : insertChars? (text.take (charOffset text r.start) ++
        text.drop (stopOffset text r)) (charOffset text r.start) new =
        some (text.take (charOffset text r.start) ++ (new ++ text.drop (stopOffset text r))) := by
      rw [insertChars?, if_pos (by rw [List.length_append, hlen]; exact Nat.le_add_right _ _),
        List.take_left' hlen, List.drop_left' hlen]
    show (removeChars? text (charOffset text r.start) (stopOffset text r)).bind _ =
      some (text.take (charOffset text r.start) ++ new ++ text.drop (stopOffset text r))
    rw [hremove, Option.bind_some, hinsert, List.append_assoc]

/-- no edit of a batch fails -/
theorem changed?_eq (text : Line) (changes : List Change) :
    changed? text changes = some (applyChanges text changes) := by
  induction changes generalizing text with
  | nil => rfl
  | cons c changes ih =>
    show (c.applied? text).bind (fun t => changed? t changes) = _
    rw [applied?_eq, Option.bind_some, ih]
    rfl

/-- **Positions and edits.**  A stored text has a line at its start and one behind every break.  No
position leaves the text, positions keep their order, the place of a position on a line lies between
the start of this line and that of the next one or the end of the text, and none lies between CR and
LF.  A range ends at the place of its end unless it is reversed, when it ends where it starts; no
removal and no insertion of a batch of changes leaves the text. -/
theorem positions_within_text (text : Line) :
    LinesBegin text (brokenLines text).length (lineStart text) ∧
    (∀ p, charOffset text p ≤ text.length) ∧
    (∀ p q : Position, p.le q = true → charOffset text p ≤ charOffset text q) ∧
    (∀ p : Position, p.line < (brokenLines text).length →
      lineStart text p.line ≤ charOffset text p ∧
      charOffset text p ≤
        if p.line + 1 < (brokenLines text).length then lineStart text (p.line + 1)
        else text.length) ∧
    (∀ p x y, text = x ++ '\r' :: '\n' :: y → charOffset text p ≠ x.length + 1) ∧
    (∀ r : Range, stopOffset text r =
      if r.start.le r.stop then charOffset text r.stop else charOffset text r.start) ∧
    ∀ changes, changed? text changes = some (applyChanges text changes) := by
  refine ⟨linesBegin text, charOffset_le text, fun p q => charOffset_mono text, fun p hp => ?_,
    fun p x y h => charOffset_ne_of_returnFeed h p, stopOffset_eq text, changed?_eq text⟩
  refine ⟨lineStart_le_charOffset hp, ?_⟩
  split
  · exact charOffset_le_lineStart hp
  · exact charOffset_le text p

end LanguageService
