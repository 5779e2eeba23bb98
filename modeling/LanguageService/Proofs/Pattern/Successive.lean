import Mathlib.Data.List.Basic
import LanguageService.Proofs.Pattern.Spans
import LanguageService.Proofs.Pattern.WordMatches

/-!
# Successive matches

The matches on a line are found from left to right, and the search goes on behind each of them.  So
none overlaps another, and a match that is left out begins inside one that is found.

* `Successive P spans`      stretches that are found so
* `Successive.unique`       they are determined by the stretches that could be found
* `neverEmpty_of_consumes`  a pattern that takes a character
* `matchesFrom_apart`, `exists_mem_matchesFrom`   where the search finds its matches
* `successive_all`          the matches on a line
* `exists_mem_all_iff`      whether there are any
* `MatchesApart a l`        no match begins inside another one, so that all are found
* `all_eq_filter`           the matches of a pattern that asks for more
-/

namespace LanguageService

/-- Stretches that satisfy `P`, from left to right and apart from each other; wherever another one
begins, there lies one of these. -/
structure Successive (P : Span → Prop) (spans : List Span) : Prop where
  found : ∀ s ∈ spans, P s
  apart : spans.Pairwise fun s t => s.stop ≤ t.start
  complete : ∀ t, P t → ∃ s ∈ spans, s.start ≤ t.start ∧ t.start < s.stop

section
variable {P : Span → Prop} {s t : Span} {spans : List Span}

/-- the ones behind the first, among the stretches behind it -/
theorem Successive.tail (h : Successive P (s :: spans)) :
    Successive (fun t => P t ∧ s.stop ≤ t.start) spans where
  found := fun t ht =>
    ⟨h.found t (List.mem_cons_of_mem _ ht), (List.pairwise_cons.mp h.apart).1 t ht⟩
  apart := (List.pairwise_cons.mp h.apart).2
  complete := by
    intro t ht
    obtain ⟨r, hr, hle, hlt⟩ := h.complete t ht.1
    rcases List.mem_cons.mp hr with rfl | hr
    · exact absurd ht.2 (Nat.not_le_of_gt hlt)
    · exact ⟨r, hr, hle, hlt⟩

theorem Successive.start_le (h : Successive P (s :: spans)) (hs : s.start ≤ s.stop) (ht : P t) :
    s.start ≤ t.start := by
  obtain ⟨r, hr, hle, -⟩ := h.complete t ht
  rcases List.mem_cons.mp hr with rfl | hr
  · exact hle
  · exact Nat.le_trans hs (Nat.le_trans ((List.pairwise_cons.mp h.apart).1 r hr) hle)

/-- Where stretches are determined by their starts, these are determined by all of them. -/
theorem Successive.unique (hordered : ∀ s, P s → s.start ≤ s.stop)
    (hstart : ∀ s t, P s → P t → s.start = t.start → s = t) {spans' : List Span}
    (h : Successive P spans) (h' : Successive P spans') : spans = spans' := by
  induction spans generalizing P spans' with
  | nil =>
    cases spans' with
    | nil => rfl
    | cons t spans' =>
      obtain ⟨r, hr, -⟩ := h.complete t (h'.found t List.mem_cons_self)
      exact absurd hr List.not_mem_nil
  | cons s spans ih =>
    have hs := h.found s List.mem_cons_self
    cases spans' with
    | nil =>
      obtain ⟨r, hr, -⟩ := h'.complete s hs
      exact absurd hr List.not_mem_nil
    | cons t spans' =>
      have ht := h'.found t List.mem_cons_self
      have hsame : s = t := hstart s t hs ht
        (Nat.le_antisymm (h.start_le (hordered s hs) ht) (h'.start_le (hordered t ht) hs))
      subst hsame
      have htails := ih (fun r hr => hordered r hr.1)
        (fun r q hr hq => hstart r q hr.1 hq.1) h.tail h'.tail
      rw [htails]

end

namespace Pattern

variable {a : Pattern}

theorem neverEmpty_of_consumes (ha : a.consumes = true) : a.NeverEmpty := by
  intro p b m hm
  obtain ⟨x, y, gs, rfl, hf, rfl⟩ := fits_of_matchAt? hm
  have hpos := List.length_pos_iff.mpr (ne_nil_of_consumes ha hf)
  refine beq_eq_false_iff_ne.mpr ?_
  show p.length ≠ p.length + x.length
  omega

theorem start_lt_stop_of_matchAt? (h : a.NeverEmpty) {p b : Line} {m : Match}
    (hm : a.matchAt? (.between p b) = some m) :
    m.span.start = p.length ∧ p.length < m.span.stop := by
  have hne := beq_eq_false_iff_ne.mp (h p b m hm)
  obtain ⟨x, y, gs, rfl, -, rfl⟩ := fits_of_matchAt? hm
  exact ⟨rfl, Nat.lt_of_le_of_ne (Nat.le_add_right _ _) hne⟩

theorem matchesFrom_inside (p : Line) (k : Nat) (touching : Bool) (c : Char) (b : Line) :
    a.matchesFrom p.length p.getLast? (k + 1) touching (c :: b) =
      a.matchesFrom (p ++ [c]).length (p ++ [c]).getLast? k touching b := by
  have hlast : (p ++ [c]).getLast? = some c := by simp
  rw [hlast, List.length_append, List.length_singleton]
  rfl

theorem matchesFrom_apart (h : a.NeverEmpty) (b p : Line) (covered : Nat) (touching : Bool) :
    (∀ m ∈ a.matchesFrom p.length p.getLast? covered touching b,
      p.length + covered ≤ m.span.start) ∧
    (a.matchesFrom p.length p.getLast? covered touching b).Pairwise
      fun m n => m.span.stop ≤ n.span.start := by
  induction b generalizing p covered touching with
  | nil =>
    cases covered with
    | succ k => exact ⟨fun m hm => absurd hm List.not_mem_nil, List.Pairwise.nil⟩
    | zero =>
      rw [matchesFrom_nil h, matchAt?_end h]
      exact ⟨fun m hm => absurd hm List.not_mem_nil, List.Pairwise.nil⟩
  | cons c b ih =>
    have hlen : (p ++ [c]).length = p.length + 1 := by
      rw [List.length_append, List.length_singleton]
    cases covered with
    | succ k =>
      rw [matchesFrom_inside]
      obtain ⟨hbehind, hapart⟩ := ih (p ++ [c]) k touching
      refine ⟨fun m hm => ?_, hapart⟩
      have := hbehind m hm
      omega
    | zero =>
      rw [matchesFrom_cons h]
      cases hm : a.matchAt? (.between p (c :: b)) with
      | none =>
        obtain ⟨hbehind, hapart⟩ := ih (p ++ [c]) 0 false
        refine ⟨fun m hm => ?_, hapart⟩
        have := hbehind m hm
        omega
      | some m =>
        obtain ⟨hstart, hstop⟩ := start_lt_stop_of_matchAt? h hm
        obtain ⟨hbehind, hapart⟩ := ih (p ++ [c]) (m.span.stop - m.span.start - 1) true
        refine ⟨fun n hn => ?_, List.pairwise_cons.mpr ⟨fun n hn => ?_, hapart⟩⟩
        · rcases List.mem_cons.mp hn with rfl | hn
          · exact Nat.le_of_eq hstart.symm
          · have := hbehind n hn
            omega
        · have := hbehind n hn
          omega

/-- Where a match begins behind what is covered, one is found that reaches this place. -/
theorem exists_mem_matchesFrom (h : a.NeverEmpty) (b p : Line) (covered : Nat) (touching : Bool)
    {x y : Line} (hb : b = x ++ y) (hcovered : covered ≤ x.length)
    (hmatch : a.matchAt? (.between (p ++ x) y) ≠ none) :
    ∃ m ∈ a.matchesFrom p.length p.getLast? covered touching b,
      m.span.start ≤ p.length + x.length ∧ p.length + x.length < m.span.stop := by
  induction b generalizing p covered touching x with
  | nil =>
    obtain ⟨-, rfl⟩ := List.append_eq_nil_iff.mp hb.symm
    exact absurd (matchAt?_end h _) hmatch
  | cons c b ih =>
    have hnext {k : Nat} {touching : Bool} {x : Line} (hb : b = x ++ y) (hk : k ≤ x.length)
        (hmatch : a.matchAt? (.between (p ++ c :: x) y) ≠ none) :
        ∃ m ∈ a.matchesFrom (p ++ [c]).length (p ++ [c]).getLast? k touching b,
          m.span.start ≤ p.length + (c :: x).length ∧ p.length + (c :: x).length < m.span.stop := by
      rw [← List.singleton_append, ← List.append_assoc] at hmatch
      have hplace : (p ++ [c]).length + x.length = p.length + (c :: x).length := by
        rw [List.length_append, List.length_singleton, List.length_cons]
        omega
      have hfound := ih (p ++ [c]) k touching hb hk hmatch
      rwa [hplace] at hfound
    cases covered with
    | succ k =>
      rw [matchesFrom_inside]
      cases x with
      | nil => exact absurd hcovered (Nat.not_succ_le_zero k)
      | cons d x =>
        obtain ⟨rfl, hrest⟩ := List.cons.inj hb
        exact hnext hrest (Nat.le_of_succ_le_succ hcovered) hmatch
    | zero =>
      rw [matchesFrom_cons h]
      cases hm : a.matchAt? (.between p (c :: b)) with
      | none =>
        cases x with
        | nil =>
          rw [List.append_nil, ← List.nil_append y, ← hb] at hmatch
          exact absurd hm hmatch
        | cons d x =>
          obtain ⟨rfl, hrest⟩ := List.cons.inj hb
          exact hnext hrest (Nat.zero_le _) hmatch
      | some m =>
        obtain ⟨hstart, hstop⟩ := start_lt_stop_of_matchAt? h hm
        by_cases hreach : p.length + x.length < m.span.stop
        · exact ⟨m, List.mem_cons_self, by omega, hreach⟩
        · -- the place stands behind this match
          cases x with
          | nil => exact absurd hstop hreach
          | cons d x =>
            obtain ⟨rfl, hrest⟩ := List.cons.inj hb
            rw [List.length_cons] at hreach
            obtain ⟨n, hn, hplace⟩ := hnext (k := m.span.stop - m.span.start - 1) hrest
              (by omega) hmatch
            exact ⟨n, List.mem_cons_of_mem _ hn, hplace⟩

/-- The matches on a line. -/
theorem successive_all (h : a.NeverEmpty) (l : Line) :
    Successive (fun s => ∃ m, a.Finds l m ∧ m.span = s) ((a.all l).map Match.span) where
  found := by
    intro s hs
    obtain ⟨m, hm, rfl⟩ := List.mem_map.mp hs
    exact ⟨m, finds_of_mem_all hm, rfl⟩
  apart := List.pairwise_map.mpr (matchesFrom_apart h l [] 0 false).2
  complete := by
    rintro t ⟨m, ⟨p, b, hl, hm⟩, rfl⟩
    obtain ⟨hstart, -⟩ := start_lt_stop_of_matchAt? h hm
    obtain ⟨n, hn, hle, hlt⟩ := exists_mem_matchesFrom h l [] 0 false hl (Nat.zero_le _)
      (by rw [List.nil_append, hm]; exact Option.some_ne_none m)
    rw [List.length_nil, Nat.zero_add, ← hstart] at hle hlt
    exact ⟨n.span, List.mem_map_of_mem hn, hle, hlt⟩

theorem exists_mem_all_iff (h : a.NeverEmpty) {l : Line} :
    (∃ m, m ∈ a.all l) ↔ a.occurs l = true := by
  rw [occurs, Option.isSome_iff_exists]
  constructor
  · intro hall
    obtain ⟨m, hm⟩ := hall
    obtain ⟨p, b, hl, hat⟩ := finds_of_mem_all hm
    exact exists_first?_of_matchAt? hl (by rw [hat]; exact Option.some_ne_none m)
  · intro hfirst
    obtain ⟨m, hm⟩ := hfirst
    obtain ⟨s, hs, -⟩ := (successive_all h l).complete m.span ⟨m, finds_of_first? hm, rfl⟩
    obtain ⟨n, hn, -⟩ := List.mem_map.mp hs
    exact ⟨n, hn⟩

/-! ## matches that do not overlap -/

/-- No match on the line begins inside another one. -/
def MatchesApart (a : Pattern) (l : Line) : Prop :=
  ∀ m n, a.Finds l m → a.Finds l n → m.span.start ≤ n.span.start → n.span.start < m.span.stop →
    m = n

theorem mem_all_iff (h : a.NeverEmpty) {l : Line} (hapart : MatchesApart a l) {m : Match} :
    m ∈ a.all l ↔ a.Finds l m := by
  constructor
  · exact finds_of_mem_all
  · intro hm
    obtain ⟨s, hs, hle, hlt⟩ := (successive_all h l).complete m.span ⟨m, hm, rfl⟩
    obtain ⟨n, hn, rfl⟩ := List.mem_map.mp hs
    rwa [← hapart n m (finds_of_mem_all hn) hm hle hlt]

theorem all_pairwise (h : a.NeverEmpty) (l : Line) :
    (a.all l).Pairwise fun m n => m.span.start < n.span.start := by
  refine (matchesFrom_apart h l [] 0 false).2.imp_of_mem fun {m n} hm _ hapart => ?_
  obtain ⟨p, b, -, hat⟩ := finds_of_mem_all hm
  have hpos := start_lt_stop_of_matchAt? h hat
  omega

/-- A pattern that asks for more than another one finds those of its matches that satisfy it. -/
theorem all_eq_filter {b : Pattern} (ha : a.NeverEmpty) (hb : b.NeverEmpty) {l : Line}
    (hapart : MatchesApart a l) {P : Match → Prop} [DecidablePred P]
    (hfinds : ∀ m, b.Finds l m ↔ a.Finds l m ∧ P m) : b.all l = (a.all l).filter P := by
  have hapart' : MatchesApart b l := fun m n hm hn =>
    hapart m n ((hfinds m).mp hm).1 ((hfinds n).mp hn).1
  have hmem : ∀ m, m ∈ b.all l ↔ m ∈ (a.all l).filter P := by
    intro m
    rw [mem_all_iff hb hapart', hfinds, List.mem_filter, mem_all_iff ha hapart,
      decide_eq_true_eq]
  have hsorted := all_pairwise hb l
  have hsorted' := (all_pairwise ha l).filter fun m => decide (P m)
  have hnodup {matched : List Match}
      (h : matched.Pairwise fun m n => m.span.start < n.span.start) : matched.Nodup := by
    refine List.nodup_iff_pairwise_ne.mpr (h.imp fun {m n} hlt heq => ?_)
    rw [heq] at hlt
    exact Nat.lt_irrefl _ hlt
  refine List.Perm.eq_of_pairwise (fun m n _ _ hmn hnm => ?_) hsorted hsorted'
    ((List.perm_ext_iff_of_nodup (hnodup hsorted) (hnodup hsorted')).mpr hmem)
  exact absurd (Nat.lt_trans hmn hnm) (Nat.lt_irrefl _)

end Pattern
end LanguageService
