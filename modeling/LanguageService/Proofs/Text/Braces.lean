import Mathlib.Data.List.Induction
import LanguageService.Text.Position

/-!
# Matching braces

Two braces of a text match if the text between them is balanced.  A scan that keeps the places of
the open braces finds the partner of every closing brace, whatever braces without a partner stand
around it.

* `Balanced t`             every brace of the text has its partner in it
* `Matched t i j`          the brace that opens at `i` and the one that closes at `j` match
* `openBraces`             the braces left open behind a text, innermost first
* `matched_iff_openBraces` the partner of a closing brace is the innermost brace open before it
* `matchedPlaces`          the matches of a text, in the order in which they close
* `not_crossing`           no two matches cross
-/

namespace LanguageService

/-! ## balanced texts -/

/-- Every brace of the text has its partner in it; other characters do not count. -/
inductive Balanced : Line → Prop where
  | nil : Balanced []
  | other {c : Char} {t : Line} : c ≠ '{' → c ≠ '}' → Balanced t → Balanced (c :: t)
  | block {a b : Line} : Balanced a → Balanced b → Balanced ('{' :: (a ++ '}' :: b))

namespace Balanced

theorem append {a b : Line} (ha : Balanced a) (hb : Balanced b) : Balanced (a ++ b) := by
  induction ha with
  | nil => exact hb
  | other ho hc _ ih => exact .other ho hc ih
  | @block u v hu _ _ ih =>
    have h := Balanced.block hu ih
    rwa [List.cons_append, List.append_assoc, List.cons_append]

theorem count_eq {t : Line} (h : Balanced t) : t.count '}' = t.count '{' := by
  induction h with
  | nil => rfl
  | other ho hc _ ih => rw [List.count_cons_of_ne ho, List.count_cons_of_ne hc, ih]
  | block _ _ iha ihb =>
    rw [List.count_cons_self, List.count_cons_of_ne (by decide), List.count_append,
      List.count_append, List.count_cons_self, List.count_cons_of_ne (by decide), iha, ihb]
    omega

/-- no part at the front closes more than it opens -/
theorem count_le {x y : Line} (h : Balanced (x ++ y)) : x.count '}' ≤ x.count '{' := by
  generalize ht : x ++ y = t at h
  induction h generalizing x y with
  | nil =>
    obtain ⟨rfl, -⟩ := List.append_eq_nil_iff.mp ht
    exact Nat.le_refl _
  | other ho hc _ ih =>
    rcases List.append_eq_cons_iff.mp ht with ⟨rfl, -⟩ | ⟨x', rfl, hrest⟩
    · exact Nat.le_refl _
    · rw [List.count_cons_of_ne ho, List.count_cons_of_ne hc]
      exact ih hrest.symm
  | @block a b ha _ iha ihb =>
    rcases List.append_eq_cons_iff.mp ht with ⟨rfl, -⟩ | ⟨x', rfl, hrest⟩
    · exact Nat.le_refl _
    · rw [List.count_cons_self, List.count_cons_of_ne (by decide)]
      -- the part ends inside the block or behind it
      rcases List.append_eq_append_iff.mp hrest.symm with ⟨z, ha', -⟩ | ⟨z, rfl, hz⟩
      · have := iha ha'.symm
        omega
      · rcases List.cons_eq_append_iff.mp hz with ⟨rfl, -⟩ | ⟨z', rfl, hb'⟩
        · rw [List.append_nil, ha.count_eq]
          omega
        · have := ihb hb'.symm
          rw [List.count_append, List.count_append, List.count_cons_self,
            List.count_cons_of_ne (by decide), ha.count_eq]
          omega

end Balanced

/-! ## braces that match -/

/-- The brace that opens at place `i` and the brace that closes at place `j` match. -/
structure Matched (t : Line) (i j : Nat) : Prop where
  before : i < j
  opening : t[i]? = some '{'
  closing : t[j]? = some '}'
  between : Balanced (Span.chars ⟨i + 1, j⟩ t)

theorem chars_split {t : Line} {a b c : Nat} (hab : a ≤ b) (hbc : b ≤ c) :
    Span.chars ⟨a, c⟩ t = Span.chars ⟨a, b⟩ t ++ Span.chars ⟨b, c⟩ t := by
  have hlen : c - a = (b - a) + (c - b) := by omega
  have hstart : a + (b - a) = b := Nat.add_sub_cancel' hab
  show (t.take c).drop a = (t.take b).drop a ++ (t.take c).drop b
  rw [List.drop_take, List.drop_take, List.drop_take, hlen, List.take_add, List.drop_drop, hstart]

theorem chars_cons {t : Line} {c : Char} {a b : Nat} (hc : t[a]? = some c) (hab : a < b) :
    Span.chars ⟨a, b⟩ t = c :: Span.chars ⟨a + 1, b⟩ t := by
  have hget : (t.take b)[a]? = some c := by rwa [List.getElem?_take_of_lt hab]
  obtain ⟨hlt, hget⟩ := List.getElem?_eq_some_iff.mp hget
  show (t.take b).drop a = c :: (t.take b).drop (a + 1)
  rw [← hget, List.getElem_cons_drop]

/-- a text around two braces that match -/
theorem matched_iff {t : Line} {i j : Nat} : Matched t i j ↔
    ∃ u v w, t = u ++ '{' :: (v ++ '}' :: w) ∧ u.length = i ∧ j = i + 1 + v.length ∧ Balanced v := by
  constructor
  · rintro ⟨hbefore, hopen, hclose, hbetween⟩
    obtain ⟨hj, hget⟩ := List.getElem?_eq_some_iff.mp hclose
    have hi : i ≤ t.length := by omega
    refine ⟨t.take i, Span.chars ⟨i + 1, j⟩ t, t.drop (j + 1), ?_, List.length_take_of_le hi, ?_,
      hbetween⟩
    · have hinner := chars_cons hopen hbefore
      rw [← List.cons_append, ← hinner, ← hget, List.getElem_cons_drop, Span.chars,
        ← List.append_assoc]
      have hfront := List.take_append_drop i (t.take j)
      rw [List.take_take, Nat.min_eq_left (Nat.le_of_lt hbefore)] at hfront
      rw [hfront, List.take_append_drop]
    · rw [Span.chars, List.length_drop, List.length_take]
      show j = i + 1 + (min j t.length - (i + 1))
      omega
  · rintro ⟨u, v, w, rfl, rfl, rfl, hv⟩
    have hsplit : u ++ '{' :: (v ++ '}' :: w) = (u ++ ['{']) ++ (v ++ '}' :: w) := by simp
    have hlen : u.length + 1 = (u ++ ['{']).length := by simp
    refine ⟨by omega, by simp, ?_, ?_⟩
    · rw [hlen, hsplit, ← List.length_append, ← List.append_assoc]
      simp
    · rw [hlen, hsplit, Span.chars, List.take_length_add_append, List.take_left, List.drop_left]
      exact hv

theorem not_crossing {t : Line} {i j k l : Nat} (h : Matched t i j) (h' : Matched t k l) :
    ¬(i < k ∧ k < j ∧ j < l) := by
  rintro ⟨hik, hkj, hjl⟩
  have hleft : Span.chars ⟨i + 1, j⟩ t =
      Span.chars ⟨i + 1, k⟩ t ++ '{' :: Span.chars ⟨k + 1, j⟩ t := by
    rw [chars_split hik (Nat.le_of_lt hkj), chars_cons h'.opening hkj]
  have hright : Span.chars ⟨k + 1, l⟩ t = Span.chars ⟨k + 1, j⟩ t ++ Span.chars ⟨j, l⟩ t :=
    chars_split hkj (Nat.le_of_lt hjl)
  have hcount := h.between.count_eq
  have hfront := h.between
  have hpart := h'.between
  rw [hright] at hpart
  rw [hleft] at hcount hfront
  rw [List.count_append, List.count_append, List.count_cons_self,
    List.count_cons_of_ne (by decide)] at hcount
  -- the brace at `k` stays open up to `j`
  have := hfront.count_le
  have := hpart.count_le
  omega

/-! ## the scan -/

/-- The places of the braces left open behind a text, innermost first; `pos` characters stand
before the text, and the braces `opened` are open there. -/
def openBraces (pos : Nat) (opened : List Nat) : Line → List Nat
  | [] => opened
  | c :: t =>
    if c = '{' then openBraces (pos + 1) (pos :: opened) t
    else if c = '}' then openBraces (pos + 1) opened.tail t
    else openBraces (pos + 1) opened t

theorem openBraces_open (pos : Nat) (opened : List Nat) (t : Line) :
    openBraces pos opened ('{' :: t) = openBraces (pos + 1) (pos :: opened) t := rfl

theorem openBraces_close (pos : Nat) (opened : List Nat) (t : Line) :
    openBraces pos opened ('}' :: t) = openBraces (pos + 1) opened.tail t := rfl

theorem openBraces_other {c : Char} (ho : c ≠ '{') (hc : c ≠ '}') (pos : Nat) (opened : List Nat)
    (t : Line) : openBraces pos opened (c :: t) = openBraces (pos + 1) opened t := by
  rw [openBraces, if_neg ho, if_neg hc]

theorem openBraces_append (pos : Nat) (opened : List Nat) (a b : Line) :
    openBraces pos opened (a ++ b) =
      openBraces (pos + a.length) (openBraces pos opened a) b := by
  induction a generalizing pos opened with
  | nil => rfl
  | cons c a ih =>
    have hlen : pos + (c :: a).length = pos + 1 + a.length := by
      rw [List.length_cons]
      omega
    rw [List.cons_append, openBraces, openBraces, hlen]
    split
    · exact ih _ _
    · split
      · exact ih _ _
      · exact ih _ _

theorem Balanced.openBraces_eq {t : Line} (h : Balanced t) (pos : Nat) (opened : List Nat) :
    openBraces pos opened t = opened := by
  induction h generalizing pos opened with
  | nil => rfl
  | other ho hc _ ih => rw [openBraces_other ho hc, ih]
  | block _ _ iha ihb =>
    rw [openBraces_open, openBraces_append, iha, openBraces_close, List.tail_cons, ihb]

/-- The places are those of braces that are open behind the text: from each of them to the next one,
and from the innermost one to the end, the text is balanced. -/
def LeftOpen : List Nat → Line → Prop
  | [], _ => True
  | i :: outer, t => ∃ u v, t = u ++ '{' :: v ∧ u.length = i ∧ Balanced v ∧ LeftOpen outer u

theorem LeftOpen.append {opened : List Nat} {t w : Line} (h : LeftOpen opened t)
    (hw : Balanced w) : LeftOpen opened (t ++ w) := by
  cases opened with
  | nil => trivial
  | cons i outer =>
    obtain ⟨u, v, rfl, hu, hv, houter⟩ := h
    exact ⟨u, v ++ w, by simp, hu, hv.append hw, houter⟩

/-- One more character: a brace that closes makes a block of what was open, and the text around the
block is scanned on. -/
theorem LeftOpen.concat {opened : List Nat} {t : Line} (h : LeftOpen opened t) (c : Char) :
    LeftOpen (openBraces t.length opened [c]) (t ++ [c]) := by
  by_cases ho : c = '{'
  · subst ho
    exact ⟨t, [], rfl, rfl, .nil, h⟩
  · by_cases hc : c = '}'
    · subst hc
      cases opened with
      | nil => trivial
      | cons i outer =>
        obtain ⟨u, v, rfl, -, hv, houter⟩ := h
        have hblock := houter.append (Balanced.block hv .nil)
        rwa [List.append_assoc]
    · rw [openBraces_other ho hc]
      exact h.append (.other ho hc .nil)

theorem leftOpen_openBraces (t : Line) : LeftOpen (openBraces 0 [] t) t := by
  induction t using List.reverseRecOn with
  | nil => trivial
  | append_singleton t c ih =>
    rw [openBraces_append, Nat.zero_add]
    exact ih.concat c

/-- A text is balanced if a brace before it is the innermost one behind it. -/
theorem balanced_of_openBraces {u v : Line} {outer : List Nat}
    (h : openBraces 0 [] (u ++ '{' :: v) = u.length :: outer) : Balanced v := by
  have hleft := leftOpen_openBraces (u ++ '{' :: v)
  rw [h] at hleft
  obtain ⟨u', v', heq, hlen, hv, -⟩ := hleft
  obtain ⟨-, htail⟩ := List.append_inj heq hlen.symm
  rwa [List.tail_eq_of_cons_eq htail]

/-- The partner of a closing brace is the innermost brace open before it. -/
theorem matched_iff_openBraces {u w : Line} {i : Nat} :
    Matched (u ++ '}' :: w) i u.length ↔ (openBraces 0 [] u).head? = some i := by
  rw [matched_iff]
  constructor
  · rintro ⟨p, v, r, heq, rfl, hj, hv⟩
    have hsplit : p ++ '{' :: (v ++ '}' :: r) = (p ++ '{' :: v) ++ '}' :: r := by simp
    rw [hsplit] at heq
    obtain ⟨rfl, -⟩ := List.append_inj heq (by simp; omega)
    rw [openBraces_append, openBraces_open, hv.openBraces_eq, Nat.zero_add, List.head?_cons]
  · intro h
    obtain ⟨outer, hopen⟩ := List.head?_eq_some_iff.mp h
    have hleft := leftOpen_openBraces u
    rw [hopen] at hleft
    obtain ⟨p, v, rfl, hp, hv, -⟩ := hleft
    exact ⟨p, v, w, by simp, hp, by simp; omega, hv⟩

/-! ## the matches of a text -/

/-- The matches that close in a text, in the order in which they close. -/
def matchedPlaces (pos : Nat) (opened : List Nat) : Line → List (Nat × Nat)
  | [] => []
  | c :: t =>
    if c = '{' then matchedPlaces (pos + 1) (pos :: opened) t
    else if c = '}' then
      (opened.head?.map fun i => (i, pos)).toList ++ matchedPlaces (pos + 1) opened.tail t
    else matchedPlaces (pos + 1) opened t

theorem exists_split_cons_iff {c : Char} {t : Line} {P : Line → Prop} :
    (∃ u w, c :: t = u ++ '}' :: w ∧ P u) ↔
      (c = '}' ∧ P []) ∨ ∃ u w, t = u ++ '}' :: w ∧ P (c :: u) := by
  constructor
  · rintro ⟨u, w, heq, hu⟩
    rcases List.cons_eq_append_iff.mp heq with ⟨rfl, hc⟩ | ⟨u', rfl, ht⟩
    · exact Or.inl ⟨(List.cons.inj hc).1.symm, hu⟩
    · exact Or.inr ⟨u', w, ht, hu⟩
  · rintro (⟨rfl, hnil⟩ | ⟨u, w, rfl, hu⟩)
    · exact ⟨[], t, rfl, hnil⟩
    · exact ⟨c :: u, w, rfl, hu⟩

theorem mem_matchedPlaces_iff {t : Line} {pos : Nat} {opened : List Nat} {i j : Nat} :
    (i, j) ∈ matchedPlaces pos opened t ↔ ∃ u w, t = u ++ '}' :: w ∧
      j = pos + u.length ∧ (openBraces pos opened u).head? = some i := by
  induction t generalizing pos opened with
  | nil => simp [matchedPlaces]
  | cons c t ih =>
    have hlen : ∀ u : Line, pos + (c :: u).length = pos + 1 + u.length := by
      intro u
      rw [List.length_cons]
      omega
    rw [exists_split_cons_iff]
    simp only [hlen]
    by_cases ho : c = '{'
    · subst ho
      rw [or_iff_right fun h => absurd h.1 (by decide)]
      exact ih
    · by_cases hc : c = '}'
      · subst hc
        have hfirst : (i, j) ∈ (opened.head?.map fun i => (i, pos)).toList ↔
            '}' = '}' ∧ j = pos + ([] : Line).length ∧ (openBraces pos opened []).head? = some i := by
          rw [Option.mem_toList, Option.map_eq_some_iff]
          constructor
          · rintro ⟨i', hi, heq⟩
            obtain ⟨rfl, rfl⟩ := Prod.mk.inj heq
            exact ⟨rfl, rfl, hi⟩
          · rintro ⟨-, rfl, hi⟩
            exact ⟨i, hi, rfl⟩
        show (i, j) ∈ _ ++ matchedPlaces (pos + 1) opened.tail t ↔ _
        rw [List.mem_append, hfirst, ih]
        rfl
      · rw [or_iff_right fun h => hc h.1, matchedPlaces, if_neg ho, if_neg hc, ih]
        simp only [openBraces_other ho hc]

theorem le_of_mem_matchedPlaces {t : Line} {pos : Nat} {opened : List Nat} {p : Nat × Nat}
    (hp : p ∈ matchedPlaces pos opened t) : pos ≤ p.2 := by
  obtain ⟨u, w, -, hj, -⟩ := mem_matchedPlaces_iff.mp (show (p.1, p.2) ∈ _ from hp)
  omega

theorem matchedPlaces_pairwise (t : Line) (pos : Nat) (opened : List Nat) :
    (matchedPlaces pos opened t).Pairwise fun p q => p.2 < q.2 := by
  induction t generalizing pos opened with
  | nil => exact List.Pairwise.nil
  | cons c t ih =>
    unfold matchedPlaces
    split
    · exact ih _ _
    · split
      · rw [List.pairwise_append]
        refine ⟨?_, ih _ _, ?_⟩
        · cases opened.head? with
          | none => exact List.Pairwise.nil
          | some i => exact List.pairwise_singleton _ _
        · intro p hp q hq
          obtain ⟨i, -, rfl⟩ := Option.map_eq_some_iff.mp (Option.mem_toList.mp hp)
          exact le_of_mem_matchedPlaces hq
      · exact ih _ _

theorem matchedPlaces_append (pos : Nat) (opened : List Nat) (a b : Line) :
    matchedPlaces pos opened (a ++ b) = matchedPlaces pos opened a ++
      matchedPlaces (pos + a.length) (openBraces pos opened a) b := by
  induction a generalizing pos opened with
  | nil => rfl
  | cons c a ih =>
    have hlen : pos + (c :: a).length = pos + 1 + a.length := by
      rw [List.length_cons]
      omega
    rw [List.cons_append, matchedPlaces, matchedPlaces, openBraces, hlen]
    split
    · exact ih _ _
    · split
      · rw [ih, List.append_assoc]
      · exact ih _ _

/-- the matches of a whole text -/
theorem mem_matchedPlaces_iff_matched {t : Line} {i j : Nat} :
    (i, j) ∈ matchedPlaces 0 [] t ↔ Matched t i j := by
  rw [mem_matchedPlaces_iff]
  constructor
  · rintro ⟨u, w, rfl, rfl, hopen⟩
    rw [Nat.zero_add]
    exact matched_iff_openBraces.mpr hopen
  · intro h
    obtain ⟨u, v, w, rfl, rfl, rfl, -⟩ := matched_iff.mp h
    have hsplit : u ++ '{' :: (v ++ '}' :: w) = (u ++ '{' :: v) ++ '}' :: w := by simp
    have hlen : u.length + 1 + v.length = (u ++ '{' :: v).length := by simp; omega
    rw [hsplit, hlen] at h
    exact ⟨u ++ '{' :: v, w, hsplit, by rw [hlen, Nat.zero_add], matched_iff_openBraces.mp h⟩

end LanguageService
