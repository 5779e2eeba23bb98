import LanguageService.Proofs.Pattern.Fits

/-!
# Matches that begin with words

The matches of a pattern are found from left to right, and the search goes on behind a match.  A
match that covers a word and some of the characters behind it, but no part of another word, leaves
all other words to be tried; so the words of the line can be tried one by one.

* `matchesBehind a p b`    the matches that begin in `b`, before which `p` stands
* `matchesBehind_skip`, `matchesBehind_match`   places without a match, and a match
* `AtWordStarts`           matches begin only where words begin
* `BeginsWithWord`         every match begins with a word and covers no part of another one
* `all_of_beginsWithWord`  the matches on a line are those of its words
-/

namespace LanguageService
namespace Pattern

variable {a : Pattern}

/-! ## the search for matches -/

/-- the matches that begin in `b`, before which `p` stands; no earlier match reaches into `b` -/
def matchesBehind (a : Pattern) (p b : Line) : List Match :=
  a.matchesFrom p.length p.getLast? 0 false b

/-- no match is empty -/
def NeverEmpty (a : Pattern) : Prop :=
  ∀ p b m, a.matchAt? (.between p b) = some m → m.isEmpty = false

theorem matchAt?_end (h : a.NeverEmpty) (p : Line) : a.matchAt? (.between p []) = none := by
  cases hm : a.matchAt? (.between p []) with
  | none => rfl
  | some m =>
    obtain ⟨x, y, gs, hxy, -, rfl⟩ := fits_of_matchAt? hm
    obtain ⟨rfl, -⟩ := List.append_eq_nil_iff.mp hxy.symm
    exact absurd (h p [] _ hm) (by simp [Match.isEmpty])

theorem nextAt?_eq_matchAt? (h : a.NeverEmpty) (touching : Bool) (p b : Line) :
    a.nextAt? touching (.between p b) = a.matchAt? (.between p b) := by
  rw [nextAt?]
  cases hm : a.matchAt? (.between p b) with
  | none => rfl
  | some m => rw [Option.filter_some, h p b m hm, Bool.and_false, Bool.not_false, if_pos rfl]

theorem matchesFrom_nil (h : a.NeverEmpty) (touching : Bool) (p : Line) :
    a.matchesFrom p.length p.getLast? 0 touching [] = (a.matchAt? (.between p [])).toList := by
  have hnext := nextAt?_eq_matchAt? h touching p []
  rw [matchesFrom, if_pos rfl]
  exact congrArg Option.toList hnext

theorem matchesFrom_cons (h : a.NeverEmpty) (touching : Bool) (p : Line) (c : Char) (b : Line) :
    a.matchesFrom p.length p.getLast? 0 touching (c :: b) =
      match a.matchAt? (.between p (c :: b)) with
      | none => a.matchesBehind (p ++ [c]) b
      | some m => m :: a.matchesFrom (p ++ [c]).length (p ++ [c]).getLast?
          (m.span.stop - m.span.start - 1) true b := by
  have hnext : a.nextAt? touching ⟨p.length, p.getLast?, c :: b⟩ =
      a.matchAt? (.between p (c :: b)) := nextAt?_eq_matchAt? h touching p (c :: b)
  have hlast : (p ++ [c]).getLast? = some c := by simp
  rw [matchesFrom, hnext, matchesBehind, hlast, List.length_append, List.length_singleton]
  cases hm : a.matchAt? (.between p (c :: b)) with
  | none => rfl
  | some m =>
    simp only
    rw [h p _ m hm, Bool.not_false]

theorem matchesFrom_eq_matchesBehind (h : a.NeverEmpty) (touching : Bool) (p b : Line) :
    a.matchesFrom p.length p.getLast? 0 touching b = a.matchesBehind p b := by
  cases b with
  | nil => rw [matchesBehind, matchesFrom_nil h, matchesFrom_nil h]
  | cons c b => rw [matchesBehind, matchesFrom_cons h, matchesFrom_cons h]

theorem matchesFrom_covered (h : a.NeverEmpty) (x y p : Line) (touching : Bool) :
    a.matchesFrom p.length p.getLast? x.length touching (x ++ y) = a.matchesBehind (p ++ x) y := by
  induction x generalizing p with
  | nil => rw [List.append_nil, List.length_nil, List.nil_append, matchesFrom_eq_matchesBehind h]
  | cons c x ih =>
    have hstep := ih (p ++ [c])
    have hlast : (p ++ [c]).getLast? = some c := by simp
    rw [hlast, List.length_append, List.length_singleton, List.append_assoc,
      List.singleton_append] at hstep
    exact hstep

theorem matchesBehind_skip (h : a.NeverEmpty) (x y p : Line)
    (hnone : ∀ x₁ x₂, x = x₁ ++ x₂ → x₂ ≠ [] → a.matchAt? (.between (p ++ x₁) (x₂ ++ y)) = none) :
    a.matchesBehind p (x ++ y) = a.matchesBehind (p ++ x) y := by
  induction x generalizing p with
  | nil => rw [List.append_nil, List.nil_append]
  | cons c x ih =>
    have hfirst := hnone [] (c :: x) rfl (List.cons_ne_nil c x)
    rw [List.append_nil, List.cons_append] at hfirst
    rw [List.cons_append, matchesBehind, matchesFrom_cons h, hfirst]
    have hrest := ih (p ++ [c]) fun x₁ x₂ hx hne => by
      have := hnone (c :: x₁) x₂ (by rw [hx]; rfl) hne
      rwa [List.append_assoc]
    rwa [List.append_assoc] at hrest

theorem matchesBehind_match (h : a.NeverEmpty) {x y p : Line} {gs : List (Nat × Span)}
    (hx : x ≠ [])
    (hm : a.matchAt? (.between p (x ++ y)) = some ⟨⟨p.length, p.length + x.length⟩, gs⟩) :
    a.matchesBehind p (x ++ y) =
      ⟨⟨p.length, p.length + x.length⟩, gs⟩ :: a.matchesBehind (p ++ x) y := by
  obtain ⟨c, x, rfl⟩ := List.exists_cons_of_ne_nil hx
  have hcovered : p.length + (c :: x).length - p.length - 1 = x.length := by
    rw [List.length_cons]
    omega
  rw [List.cons_append] at hm
  rw [List.cons_append, matchesBehind, matchesFrom_cons h, hm]
  simp only
  rw [hcovered, matchesFrom_covered h, List.append_assoc, List.singleton_append]

theorem all_of_whole (h : a.NeverEmpty) {x : Line} {gs : List (Nat × Span)} (hx : x ≠ [])
    (hm : a.matchAt? (.between [] x) = some ⟨⟨0, x.length⟩, gs⟩) :
    a.all x = [⟨⟨0, x.length⟩, gs⟩] := by
  have hend : a.matchesBehind ([] ++ x) [] = [] := by
    rw [matchesBehind, matchesFrom_nil h, matchAt?_end h, Option.toList_none]
  have hline : a.matchAt? (.between [] (x ++ [])) =
      some ⟨⟨([] : Line).length, ([] : Line).length + x.length⟩, gs⟩ := by
    rw [List.append_nil, List.length_nil, Nat.zero_add, hm]
  have hfirst := matchesBehind_match h hx hline
  rw [hend, List.append_nil, List.length_nil, Nat.zero_add] at hfirst
  exact hfirst

/-! ## patterns that match only where a word begins -/

/-- No match is empty, and each begins where a word begins. -/
structure AtWordStarts (a : Pattern) : Prop where
  neverEmpty : a.NeverEmpty
  elsewhere : ∀ p b, endsInWord p = true ∨ startsInWord b = false →
    a.matchAt? (.between p b) = none

namespace AtWordStarts

variable (h : AtWordStarts a)
include h

theorem matchesBehind_gap {g : Line} (hg : ∀ c ∈ g, isWord c = false) (b p : Line) :
    a.matchesBehind p (g ++ b) = a.matchesBehind (p ++ g) b := by
  refine matchesBehind_skip h.neverEmpty g b p fun g₁ g₂ hsplit hne => ?_
  obtain ⟨c, r, rfl⟩ := List.exists_cons_of_ne_nil hne
  have hc : isWord c = false := hg c (by rw [hsplit]; simp)
  exact h.elsewhere _ _ (Or.inr hc)

theorem matchesBehind_inside {w : Line} (hw : ∀ c ∈ w, isWord c = true) {p : Line}
    (hp : endsInWord p = true) (b : Line) :
    a.matchesBehind p (w ++ b) = a.matchesBehind (p ++ w) b := by
  refine matchesBehind_skip h.neverEmpty w b p fun w₁ w₂ hsplit _ => ?_
  refine h.elsewhere _ _ (Or.inl ?_)
  by_cases hne : w₁ = []
  · rwa [hne, List.append_nil]
  · have hw₁ : IsWordText w₁ := ⟨hne, fun c hc => hw c (by rw [hsplit]; simp [hc])⟩
    rw [endsInWord_append _ hne, hw₁.endsInWord]

/-- where no match begins with a word, the search goes on behind the word -/
theorem matchesBehind_unmatched {p w r : Line} (hw : IsWordText w)
    (hm : a.matchAt? (.between p (w ++ r)) = none) :
    a.matchesBehind p (w ++ r) = a.matchesBehind (p ++ w) r := by
  -- the first character of the word is tried, the others stand inside it
  obtain ⟨c, v, rfl⟩ := List.exists_cons_of_ne_nil hw.ne_nil
  rw [List.cons_append] at hm
  have hc : isWord c = true := hw.isWord c List.mem_cons_self
  have hedge : endsInWord (p ++ [c]) = true := by rw [endsInWord_concat, hc]
  have hinside := h.matchesBehind_inside (fun d hd => hw.isWord d (List.mem_cons_of_mem _ hd))
    hedge r
  rw [List.append_assoc, List.singleton_append] at hinside
  rw [← hinside, List.cons_append, matchesBehind, matchesFrom_cons h.neverEmpty, hm]

end AtWordStarts

/-! ## patterns that begin with a word -/

/-- a match that covers a word and `k` characters behind it -/
def wordMatch (groups : Span → List (Nat × Span)) (s : Span) (k : Nat) : Match :=
  ⟨⟨s.start, s.stop + k⟩, groups s⟩

/-- Every match begins with a word and covers it.  `reach w r` says whether there is one at the
word `w` with the text `r` behind it, and how many characters of `r` it covers; none of them is a
word character. -/
structure BeginsWithWord (a : Pattern) (reach : Line → Line → Option Nat)
    (groups : Span → List (Nat × Span)) : Prop where
  word : ∀ p w r, endsInWord p = false → IsWordText w → startsInWord r = false →
    a.matchAt? (.between p (w ++ r)) =
      (reach w r).map (wordMatch groups ⟨p.length, p.length + w.length⟩)
  elsewhere : ∀ p b, endsInWord p = true ∨ startsInWord b = false →
    a.matchAt? (.between p b) = none
  gap : ∀ w r k, reach w r = some k → k ≤ r.length ∧ ∀ c ∈ r.take k, isWord c = false

variable {reach : Line → Line → Option Nat} {groups : Span → List (Nat × Span)}

/-- what is found at a word of a line -/
def foundAt (reach : Line → Line → Option Nat) (groups : Span → List (Nat × Span)) (l : Line)
    (s : Span) : Option Match :=
  (reach (s.chars l) (l.drop s.stop)).map (wordMatch groups s)

theorem foundAt_between (p w r : Line) :
    foundAt reach groups (p ++ (w ++ r)) ⟨p.length, p.length + w.length⟩ =
      (reach w r).map (wordMatch groups ⟨p.length, p.length + w.length⟩) := by
  have hdrop : (p ++ (w ++ r)).drop (p.length + w.length) = r := by
    rw [← List.append_assoc, ← List.length_append, List.drop_left]
  rw [foundAt, Span.chars_between, hdrop]

namespace BeginsWithWord

variable (h : BeginsWithWord a reach groups)
include h

theorem neverEmpty : a.NeverEmpty := by
  intro p b m hm
  by_cases hat : endsInWord p = true ∨ startsInWord b = false
  · rw [h.elsewhere p b hat] at hm
    cases hm
  · obtain ⟨hp, hb⟩ := not_or.mp hat
    obtain ⟨c, r, rfl⟩ : ∃ c r, b = c :: r := by
      cases b with
      | nil => exact absurd startsInWord_nil hb
      | cons c r => exact ⟨c, r, rfl⟩
    have hc : isWord c = true := (Bool.not_eq_false _).mp hb
    have htake : (c :: r).takeWhile isWord = c :: r.takeWhile isWord := by
      rw [List.takeWhile_cons, if_pos hc]
    have hw : IsWordText ((c :: r).takeWhile isWord) :=
      ⟨by rw [htake]; exact List.cons_ne_nil _ _, List.all_eq_true.mp List.all_takeWhile⟩
    have hword := h.word p _ _ (Bool.eq_false_iff.mpr hp) hw (head?_dropWhile_any isWord (c :: r))
    rw [List.takeWhile_append_dropWhile, hm] at hword
    obtain ⟨k, -, rfl⟩ := Option.map_eq_some_iff.mp hword.symm
    have hpos : 0 < ((c :: r).takeWhile isWord).length := List.length_pos_iff.mpr hw.ne_nil
    refine beq_eq_false_iff_ne.mpr ?_
    show p.length ≠ p.length + ((c :: r).takeWhile isWord).length + k
    omega

theorem atWordStarts : AtWordStarts a := ⟨h.neverEmpty, h.elsewhere⟩

/-- a word is tried, and the search goes on behind it -/
theorem matchesBehind_word {p w r : Line} (hp : endsInWord p = false) (hw : IsWordText w)
    (hr : startsInWord r = false) : a.matchesBehind p (w ++ r) =
      (foundAt reach groups (p ++ (w ++ r)) ⟨p.length, p.length + w.length⟩).toList ++
        a.matchesBehind (p ++ w) r := by
  have hm := h.word p w r hp hw hr
  rw [foundAt_between]
  cases hreach : reach w r with
  | none =>
    rw [hreach, Option.map_none] at hm
    rw [Option.map_none, Option.toList_none, List.nil_append,
      h.atWordStarts.matchesBehind_unmatched hw hm]
  | some k =>
    obtain ⟨hk, hgap⟩ := h.gap w r k hreach
    have hsplit : w ++ r = (w ++ r.take k) ++ r.drop k := by
      rw [List.append_assoc, List.take_append_drop]
    have hlen : p.length + w.length + k = p.length + (w ++ r.take k).length := by
      rw [List.length_append, List.length_take, Nat.min_eq_left hk, Nat.add_assoc]
    rw [hreach, Option.map_some, wordMatch, hlen, hsplit] at hm
    have hne : w ++ r.take k ≠ [] := List.append_ne_nil_of_left_ne_nil hw.ne_nil _
    have hrest := h.atWordStarts.matchesBehind_gap hgap (r.drop k) (p ++ w)
    rw [List.take_append_drop, List.append_assoc] at hrest
    rw [hsplit, matchesBehind_match h.neverEmpty hne hm, hrest, Option.map_some, wordMatch, hlen]
    rfl

theorem matchesBehind_eq (b p : Line) (hedge : endsInWord p = false ∨ startsInWord b = false) :
    a.matchesBehind p b =
      (wordRunsFrom p.length false b).filterMap (foundAt reach groups (p ++ b)) := by
  induction b using word_induction generalizing p with
  | nil =>
    rw [matchesBehind, matchesFrom_nil h.neverEmpty, h.elsewhere p [] (Or.inr rfl)]
    rfl
  | gap c l hc ih =>
    have hnext := ih (p ++ [c]) (Or.inl (by rw [endsInWord_concat, hc]))
    rw [← List.singleton_append,
      h.atWordStarts.matchesBehind_gap (List.forall_mem_singleton.mpr hc), hnext,
      List.singleton_append, wordRunsFrom_gap hc, List.append_assoc, List.length_append]
    rfl
  | word w l hw hl ih =>
    have hp := hw.edge_before hedge
    have hnext := ih (p ++ w) (Or.inr hl)
    rw [h.matchesBehind_word hp hw hl, hnext, wordRunsFrom_word hw hl, List.append_assoc,
      List.length_append]
    cases hfound : foundAt reach groups (p ++ (w ++ l)) ⟨p.length, p.length + w.length⟩ with
    | none => rw [List.filterMap_cons_none hfound]; rfl
    | some m => rw [List.filterMap_cons_some hfound]; rfl

end BeginsWithWord

/-- The matches on a line are those of its words, from left to right. -/
theorem all_of_beginsWithWord (h : BeginsWithWord a reach groups) (l : Line) :
    a.all l = (wordRuns l).filterMap (foundAt reach groups l) :=
  h.matchesBehind_eq l [] (Or.inl endsInWord_nil)

end Pattern
end LanguageService
