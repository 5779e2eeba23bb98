import LanguageService.Editor.Token
import LanguageService.Proofs.Text.Cuts

/-!
# Tokens from their encoding

Tokens are encoded in document order, each relative to the one before it.  In this order no token
lies before its predecessor, so that every difference can be taken; and the sum of the differences
is the token again.

* `encodeTokens?`          the encoding, with every difference checked
* `IsStableSort ts out`    `out` is `ts` in document order, and tokens with the same start stand in
                           it as they do in `ts`
* `IsStableSort.unique`    this determines `out`
* `isStableSort_mergeSort` and there always is such a list
* `deltas?_of_pairwise`    in document order every difference can be taken
* `encodeTokens_spec`      what an encoding says, and which lists have the same one
-/

namespace LanguageService

/-! ## document order -/

theorem Token.le_iff {a b : Token} :
    a.le b = true ↔ a.line < b.line ∨ a.line = b.line ∧ a.start ≤ b.start := by
  simp [Token.le]

theorem Token.le_trans (a b c : Token) (hab : a.le b = true) (hbc : b.le c = true) :
    a.le c = true := by
  rw [Token.le_iff] at hab hbc ⊢
  omega

theorem Token.le_total (a b : Token) : (a.le b || b.le a) = true := by
  rw [Bool.or_eq_true, Token.le_iff, Token.le_iff]
  omega

/-- the token starts at this line and column -/
def Token.startsAt (line start : Nat) (t : Token) : Bool :=
  t.line == line && t.start == start

theorem Token.startsAt_iff {line start : Nat} {t : Token} :
    t.startsAt line start = true ↔ t.line = line ∧ t.start = start := by
  simp [Token.startsAt]

theorem Token.startsAt_of_le {a b : Token} (hab : a.le b = true) (hba : b.le a = true) :
    a.startsAt b.line b.start = true := by
  rw [Token.le_iff] at hab hba
  rw [Token.startsAt_iff]
  omega

/-! ## the stable sort -/

/-- The same tokens in document order; those with the same start keep their order. -/
structure IsStableSort (ts out : List Token) : Prop where
  perm : out.Perm ts
  ordered : out.Pairwise fun a b => a.line < b.line ∨ a.line = b.line ∧ a.start ≤ b.start
  stable : ∀ line start, out.filter (Token.startsAt line start) =
    ts.filter (Token.startsAt line start)

/-- Ordered lists are determined by the tokens that they have at each start. -/
theorem eq_of_filter_startsAt {out out' : List Token}
    (h : out.Pairwise fun a b => a.le b = true) (h' : out'.Pairwise fun a b => a.le b = true)
    (hperm : out.Perm out')
    (hstarts : ∀ line start, out.filter (Token.startsAt line start) =
      out'.filter (Token.startsAt line start)) : out = out' := by
  induction out generalizing out' with
  | nil => exact (List.nil_perm.mp hperm).symm
  | cons a out ih =>
    cases out' with
    | nil => exact absurd hperm.length_eq (Nat.succ_ne_zero _)
    | cons b out' =>
      obtain ⟨ha, hout⟩ := List.pairwise_cons.mp h
      obtain ⟨hb, hout'⟩ := List.pairwise_cons.mp h'
      have hself (t : Token) : t.le t = true := Token.le_iff.mpr (Or.inr ⟨rfl, Nat.le_refl _⟩)
      have hab : a.le b = true := by
        rcases List.mem_cons.mp (hperm.mem_iff.mpr List.mem_cons_self) with heq | hmem
        · exact heq ▸ hself b
        · exact ha b hmem
      have hba : b.le a = true := by
        rcases List.mem_cons.mp (hperm.mem_iff.mp List.mem_cons_self) with heq | hmem
        · exact heq ▸ hself a
        · exact hb a hmem
      -- both are the first token at their common start
      have hfirst := hstarts b.line b.start
      have hb' : b.startsAt b.line b.start = true := Token.startsAt_of_le (hself b) (hself b)
      rw [List.filter_cons_of_pos (Token.startsAt_of_le hab hba), List.filter_cons_of_pos hb'] at hfirst
      obtain rfl := (List.cons.inj hfirst).1
      refine congrArg (a :: ·) (ih hout hout' hperm.cons_inv fun line start => ?_)
      have hrest := hstarts line start
      rw [List.filter_cons, List.filter_cons] at hrest
      split at hrest
      · exact (List.cons.inj hrest).2
      · exact hrest

theorem IsStableSort.le {ts out : List Token} (h : IsStableSort ts out) :
    out.Pairwise fun a b => a.le b = true :=
  h.ordered.imp Token.le_iff.mpr

/-- there is only one stable sort of a list -/
theorem IsStableSort.unique {ts out out' : List Token} (h : IsStableSort ts out)
    (h' : IsStableSort ts out') : out = out' :=
  eq_of_filter_startsAt h.le h'.le (h.perm.trans h'.perm.symm) fun line start =>
    (h.stable line start).trans (h'.stable line start).symm

theorem pairwise_mergeSort (ts : List Token) :
    (ts.mergeSort Token.le).Pairwise fun a b => a.le b = true :=
  List.pairwise_mergeSort Token.le_trans Token.le_total ts

theorem isStableSort_mergeSort (ts : List Token) : IsStableSort ts (ts.mergeSort Token.le) where
  perm := List.mergeSort_perm ts Token.le
  ordered := (pairwise_mergeSort ts).imp Token.le_iff.mp
  stable := by
    intro line start
    -- the tokens at one start are in order, so sorting leaves them in a row
    have hordered : (ts.filter (Token.startsAt line start)).Pairwise fun a b => a.le b = true := by
      refine List.pairwise_of_forall_mem_list fun a ha b hb => ?_
      obtain ⟨hal, has⟩ := Token.startsAt_iff.mp (List.mem_filter.mp ha).2
      obtain ⟨hbl, hbs⟩ := Token.startsAt_iff.mp (List.mem_filter.mp hb).2
      exact Token.le_iff.mpr (Or.inr ⟨hal.trans hbl.symm, by omega⟩)
    have hsub := (List.sublist_mergeSort Token.le_trans Token.le_total hordered
      List.filter_sublist).filter (Token.startsAt line start)
    rw [List.filter_filter] at hsub
    simp only [Bool.and_self] at hsub
    exact (hsub.eq_of_length
      ((List.mergeSort_perm ts Token.le).filter (Token.startsAt line start)).length_eq.symm).symm

/-! ## the differences -/

/-- `deltas`, with every subtraction checked; nothing if one of them falls below zero -/
def deltas? (line start : Nat) : List Token → Option (List TokenDelta)
  | [] => some []
  | t :: ts =>
    (difference? t.line line).bind fun deltaLine =>
      (if deltaLine = 0 then difference? t.start start else some t.start).bind fun deltaStart =>
        (deltas? t.line t.start ts).map fun ds =>
          ⟨deltaLine, deltaStart, t.length, t.kind, t.modifiers⟩ :: ds

/-- `encodeTokens`, with every subtraction checked -/
def encodeTokens? (ts : List Token) : Option (List TokenDelta) :=
  deltas? 0 0 (ts.mergeSort Token.le)

theorem pairwise_origin {ts : List Token} (h : ts.Pairwise fun a b => a.le b = true) :
    (⟨0, 0, 0, 0, 0⟩ :: ts : List Token).Pairwise fun a b => a.le b = true := by
  refine List.pairwise_cons.mpr ⟨fun t _ => ?_, h⟩
  rw [Token.le_iff]
  show 0 < t.line ∨ 0 = t.line ∧ 0 ≤ t.start
  omega

theorem deltas?_of_pairwise (ts : List Token) (line start : Nat)
    (h : (⟨line, start, 0, 0, 0⟩ :: ts : List Token).Pairwise fun a b => a.le b = true) :
    deltas? line start ts = some (deltas line start ts) := by
  induction ts generalizing line start with
  | nil => rfl
  | cons t ts ih =>
    obtain ⟨h1, h2⟩ := List.pairwise_cons.mp h
    obtain ⟨h3, h4⟩ := List.pairwise_cons.mp h2
    have ht : line < t.line ∨ line = t.line ∧ start ≤ t.start :=
      Token.le_iff.mp (h1 t List.mem_cons_self)
    have hrest : deltas? t.line t.start ts = some (deltas t.line t.start ts) :=
      ih t.line t.start (List.pairwise_cons.mpr ⟨fun b hb => h3 b hb, h4⟩)
    have hline : difference? t.line line = some (t.line - line) :=
      difference?_of_le (by omega)
    have hstart : (if t.line - line = 0 then difference? t.start start else some t.start) =
        some (if t.line - line = 0 then t.start - start else t.start) := by
      split
      · exact difference?_of_le (by omega)
      · rfl
    rw [deltas?, hline, Option.bind_some, hstart, Option.bind_some, hrest]
    rfl

/-- a token of the encoding has the text and kind of a token, and is nowhere greater -/
theorem exists_of_mem_deltas {ts : List Token} {line start : Nat} :
    ∀ d ∈ deltas line start ts, ∃ t ∈ ts, d.deltaLine ≤ t.line ∧ d.deltaStart ≤ t.start ∧
      d.length = t.length ∧ d.kind = t.kind ∧ d.modifiers = t.modifiers := by
  induction ts generalizing line start with
  | nil => exact fun d hd => absurd hd List.not_mem_nil
  | cons t ts ih =>
    intro d hd
    rcases List.mem_cons.mp hd with rfl | hd
    · refine ⟨t, List.mem_cons_self, Nat.sub_le _ _, ?_, rfl, rfl, rfl⟩
      show (if t.line - line = 0 then t.start - start else t.start) ≤ t.start
      split <;> omega
    · obtain ⟨s, hs, hd⟩ := ih d hd
      exact ⟨s, List.mem_cons_of_mem _ hs, hd⟩

theorem decodeTokens_encodeTokens (ts : List Token) :
    decodeTokens (encodeTokens ts) = ts.mergeSort Token.le :=
  decode_deltas _ 0 0 (pairwise_origin (pairwise_mergeSort ts))

/-- **Tokens from their encoding.**  Whatever the order of the tokens, no difference falls below
zero, and no number of the encoding is greater than that of a token.  What the encoding says is the
stable sort of the tokens, so that two lists have the same encoding exactly if they have the same
stable sort; and of two tokens with the same start the first one stays the first. -/
theorem encodeTokens_spec (ts : List Token) :
    encodeTokens? ts = some (encodeTokens ts) ∧
    (∀ d ∈ encodeTokens ts, ∃ t ∈ ts, d.deltaLine ≤ t.line ∧ d.deltaStart ≤ t.start ∧
      d.length = t.length ∧ d.kind = t.kind ∧ d.modifiers = t.modifiers) ∧
    (∀ out, IsStableSort ts out ↔ decodeTokens (encodeTokens ts) = out) ∧
    (∀ ts', encodeTokens ts = encodeTokens ts' ↔
      ∃ out, IsStableSort ts out ∧ IsStableSort ts' out) ∧
    ∀ a b, [a, b].Sublist ts → a.line = b.line → a.start = b.start →
      [a, b].Sublist (decodeTokens (encodeTokens ts)) := by
  have hsort := isStableSort_mergeSort ts
  rw [decodeTokens_encodeTokens]
  refine ⟨deltas?_of_pairwise _ 0 0 (pairwise_origin (pairwise_mergeSort ts)), ?_, ?_, ?_, ?_⟩
  · intro d hd
    obtain ⟨t, ht, hle⟩ := exists_of_mem_deltas d hd
    exact ⟨t, List.mem_mergeSort.mp ht, hle⟩
  · exact fun out => ⟨fun h => hsort.unique h, fun h => h ▸ hsort⟩
  · intro ts'
    constructor
    · intro heq
      have hdecoded := congrArg decodeTokens heq
      rw [decodeTokens_encodeTokens, decodeTokens_encodeTokens] at hdecoded
      exact ⟨_, hsort, hdecoded ▸ isStableSort_mergeSort ts'⟩
    · rintro ⟨out, h, h'⟩
      rw [encodeTokens, encodeTokens, hsort.unique h, (isStableSort_mergeSort ts').unique h']
  · intro a b hab hline hstart
    have hb : b.startsAt b.line b.start = true := Token.startsAt_iff.mpr ⟨rfl, rfl⟩
    have ha : a.startsAt b.line b.start = true := Token.startsAt_iff.mpr ⟨hline, hstart⟩
    have hsub := hab.filter (Token.startsAt b.line b.start)
    rw [List.filter_cons_of_pos ha, List.filter_cons_of_pos hb, List.filter_nil,
      ← hsort.stable] at hsub
    exact hsub.trans List.filter_sublist

/-- the keyword token of `true` comes before its token as a read-only literal -/
example : decodeTokens (encodeTokens (tokens ["x true".toList])) =
    [⟨0, 2, 4, 0, 0⟩, ⟨0, 2, 4, 0, 4⟩] := by
  cbv

end LanguageService
