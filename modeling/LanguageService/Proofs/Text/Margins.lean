import LanguageService.Text.Trim
import LanguageService.Proofs.Text.Words

/-!
# Blank margins

A line is its trimmed text between two margins of white space.  What begins or ends with anything
but white space begins or ends inside the margins.

* `Trimmed t`            no white space at either end
* `exists_margins`, `trim_margins`   a line is its trimmed text between margins, and only that one
* `prefix_of_blank`, `suffix_of_blank`   how a cut of a line lies to its margins
* `column_margin`        columns behind a margin
-/

namespace LanguageService

/-- no white space at either end -/
structure Trimmed (t : Line) : Prop where
  first : t.head?.any isBlank = false
  last : t.getLast?.any isBlank = false

theorem allBlank_takeWhile (l : Line) : AllBlank (l.takeWhile isBlank) :=
  List.all_eq_true.mp List.all_takeWhile

theorem allBlank_reverse {g : Line} (hg : AllBlank g) : AllBlank g.reverse :=
  fun c hc => hg c (List.mem_reverse.mp hc)

/-! ## trimming -/

theorem dropWhile_append_of_blank {g : Line} (hg : AllBlank g) (x : Line) :
    (g ++ x).dropWhile isBlank = x.dropWhile isBlank :=
  List.dropWhile_append_of_pos hg

theorem dropWhile_of_first {x : Line} (hx : x.head?.any isBlank = false) :
    x.dropWhile isBlank = x := by
  cases x with
  | nil => rfl
  | cons c x =>
    have hc : ¬ isBlank c = true := Bool.eq_false_iff.mp hx
    rw [List.dropWhile_cons, if_neg hc]

theorem trimEnd_append {h : Line} (hh : AllBlank h) (x : Line) : trimEnd (x ++ h) = trimEnd x := by
  rw [trimEnd, List.reverse_append, dropWhile_append_of_blank (allBlank_reverse hh), trimEnd]

theorem trimEnd_of_last {x : Line} (hx : x.getLast?.any isBlank = false) : trimEnd x = x := by
  rw [trimEnd, dropWhile_of_first (by rwa [List.head?_reverse]), List.reverse_reverse]

theorem exists_append_trimEnd (x : Line) : ∃ h, AllBlank h ∧ x = trimEnd x ++ h := by
  refine ⟨(x.reverse.takeWhile isBlank).reverse, allBlank_reverse (allBlank_takeWhile _), ?_⟩
  rw [trimEnd, ← List.reverse_append, List.takeWhile_append_dropWhile, List.reverse_reverse]

theorem last_trimEnd (x : Line) : (trimEnd x).getLast?.any isBlank = false := by
  rw [trimEnd, List.getLast?_reverse]
  exact head?_dropWhile_any isBlank x.reverse

theorem exists_margins (l : Line) :
    ∃ h, AllBlank h ∧ l = l.takeWhile isBlank ++ (trim l ++ h) := by
  obtain ⟨h, hh, heq⟩ := exists_append_trimEnd (trimStart l)
  refine ⟨h, hh, ?_⟩
  rw [trim, ← heq, trimStart, List.takeWhile_append_dropWhile]

theorem trimmed_trim (l : Line) : Trimmed (trim l) := by
  refine ⟨?_, last_trimEnd _⟩
  obtain ⟨h, -, heq⟩ := exists_append_trimEnd (trimStart l)
  have hfirst : (trimStart l).head?.any isBlank = false := head?_dropWhile_any isBlank l
  rw [heq] at hfirst
  show (trimEnd (trimStart l)).head?.any isBlank = false
  cases ht : trimEnd (trimStart l) with
  | nil => rfl
  | cons c t =>
    rw [ht] at hfirst
    exact hfirst

theorem trim_margins {g t h : Line} (hg : AllBlank g) (ht : Trimmed t) (hh : AllBlank h) :
    trim (g ++ (t ++ h)) = t := by
  rw [trim, trimStart, dropWhile_append_of_blank hg]
  cases t with
  | nil =>
    have hnil : trimStart h = [] := (trimStart_eq_nil_iff h).mpr (List.all_eq_true.mpr hh)
    rw [List.nil_append, ← trimStart, hnil]
    rfl
  | cons c t =>
    have hfirst : (c :: t ++ h).head?.any isBlank = false := ht.first
    rw [dropWhile_of_first hfirst, trimEnd_append hh, trimEnd_of_last ht.last]

theorem trimEnd_margins {g t h : Line} (ht : Trimmed t) (hne : t ≠ []) (hh : AllBlank h) :
    trimEnd (g ++ (t ++ h)) = g ++ t := by
  have hlast : (g ++ t).getLast?.any isBlank = false := by
    obtain ⟨x, c, rfl⟩ := (List.eq_nil_or_concat t).resolve_left hne
    have hlast := ht.last
    rw [List.concat_eq_append, List.getLast?_concat] at hlast
    rw [List.concat_eq_append, ← List.append_assoc, List.getLast?_concat]
    exact hlast
  rw [← List.append_assoc, trimEnd_append hh, trimEnd_of_last hlast]

/-! ## cuts of a line -/

theorem not_isBlank_of_isWord {c : Char} (h : isWord c = true) : isBlank c = false := by
  by_cases hc : isBlank c = true
  · rw [not_isWord_of_isBlank hc] at h
    exact absurd h (by decide)
  · exact Bool.eq_false_iff.mpr hc

/-- what does not begin with white space begins behind the left margin -/
theorem prefix_of_blank {g x p b : Line} {c : Char} (hg : AllBlank g) (hc : isBlank c = false)
    (h : g ++ x = p ++ c :: b) : ∃ p₀, p = g ++ p₀ ∧ x = p₀ ++ c :: b := by
  rcases List.append_eq_append_iff.mp h with ⟨p₀, hp, hx⟩ | ⟨y, hgy, hb⟩
  · exact ⟨p₀, hp, hx⟩
  · cases y with
    | nil =>
      refine ⟨[], ?_, hb.symm⟩
      rw [hgy, List.append_nil, List.append_nil]
    | cons d y =>
      obtain ⟨rfl, -⟩ := List.cons.inj hb
      have hblank : isBlank c = true := by
        refine hg c ?_
        rw [hgy]
        exact List.mem_append_right _ List.mem_cons_self
      rw [hc] at hblank
      exact absurd hblank (by decide)

theorem suffix_of_blank {t h u r : Line} {c : Char} (hh : AllBlank h) (hc : isBlank c = false)
    (heq : t ++ h = u ++ c :: r) : ∃ r₀, r = r₀ ++ h ∧ t = u ++ c :: r₀ := by
  rcases List.append_eq_append_iff.mp heq with ⟨y, hu, hhy⟩ | ⟨y, ht, hr⟩
  · have hblank : isBlank c = true := by
      refine hh c ?_
      rw [hhy]
      exact List.mem_append_right _ List.mem_cons_self
    rw [hc] at hblank
    exact absurd hblank (by decide)
  · cases y with
    | nil =>
      have hblank : isBlank c = true := by
        refine hh c ?_
        rw [← List.nil_append h, ← hr]
        exact List.mem_cons_self
      rw [hc] at hblank
      exact absurd hblank (by decide)
    | cons d y =>
      obtain ⟨rfl, rfl⟩ := List.cons.inj hr
      exact ⟨y, rfl, ht⟩

/-! ## what margins leave alone -/

theorem endsInWord_append_left {g : Line} (hg : AllBlank g) (p : Line) :
    endsInWord (g ++ p) = endsInWord p := by
  cases p with
  | nil => rw [List.append_nil, endsInWord_of_blank hg, endsInWord_nil]
  | cons c p => rw [endsInWord_append _ (List.cons_ne_nil _ _)]

theorem startsInWord_append_right {h : Line} (hh : AllBlank h) (r : Line) :
    startsInWord (r ++ h) = startsInWord r := by
  cases r with
  | nil => rw [List.nil_append, startsInWord_of_blank hh, startsInWord_nil]
  | cons c r => rfl

theorem wordsOf_margins {g h : Line} (hg : AllBlank g) (hh : AllBlank h) (t : Line) :
    wordsOf (g ++ (t ++ h)) = wordsOf t := by
  rw [wordsOf_append (Or.inl (endsInWord_of_blank hg)),
    wordsOf_append (Or.inr (startsInWord_of_blank hh)), wordsOf_of_blank hg, wordsOf_of_blank hh,
    List.nil_append, List.append_nil]

theorem count_margins {g h : Line} (hg : AllBlank g) (hh : AllBlank h) (t : Line) {c : Char}
    (hc : isBlank c = false) : (g ++ (t ++ h)).count c = t.count c := by
  have hzero : ∀ x : Line, AllBlank x → x.count c = 0 := by
    intro x hx
    refine List.count_eq_zero.mpr fun hmem => ?_
    have hblank := hx c hmem
    rw [hc] at hblank
    exact absurd hblank (by decide)
  rw [List.count_append, List.count_append, hzero g hg, hzero h hh, Nat.zero_add, Nat.add_zero]

theorem column_margin (g t h : Line) {k : Nat} (hk : k ≤ t.length) :
    column (g ++ (t ++ h)) (g.length + k) = width g + column t k := by
  rw [column, List.take_length_add_append, List.take_append_of_le_length hk, width_append, column]

end LanguageService
