import LanguageService.Text.Position

/-!
# Scanning a line

A scanner goes over a line from left to right.  At each place it takes a stretch of characters and
goes on behind it, or takes nothing and moves one character on.

* `scan reach l`           the stretches that are taken, if `reach` says how many characters are
* `scanFrom_skip`, `scanFrom_take`   one step of a scanner
* `run_induction p`        induction on the runs of a class of characters and the gaps between them
* `maximalRuns p l`        the scanner that takes whole runs of a class
* `mem_maximalRuns_iff`    it takes exactly the maximal runs
-/

namespace LanguageService

/-! ## scanners -/

/-- The stretches that are taken from `l`, before which `pos` characters stand; the last of them
covers the next `covered` characters.  `reach` says of a text how many characters are taken from
its beginning. -/
def scanFrom (reach : Line → Nat) (pos covered : Nat) : Line → List Span
  | [] => []
  | c :: l =>
    match covered with
    | k + 1 => scanFrom reach (pos + 1) k l
    | 0 =>
      match reach (c :: l) with
      | 0 => scanFrom reach (pos + 1) 0 l
      | n + 1 => ⟨pos, pos + (n + 1)⟩ :: scanFrom reach (pos + 1) n l

/-- the stretches that are taken from a line, from left to right -/
def scan (reach : Line → Nat) (l : Line) : List Span :=
  scanFrom reach 0 0 l

section
variable {reach : Line → Nat}

theorem scanFrom_skip {c : Char} {l : Line} (h : reach (c :: l) = 0) (pos : Nat) :
    scanFrom reach pos 0 (c :: l) = scanFrom reach (pos + 1) 0 l := by
  rw [scanFrom, h]

theorem scanFrom_covered (x y : Line) (pos : Nat) :
    scanFrom reach pos x.length (x ++ y) = scanFrom reach (pos + x.length) 0 y := by
  induction x generalizing pos with
  | nil => rfl
  | cons c x ih =>
    rw [List.length_cons, List.cons_append, scanFrom, ih, Nat.add_assoc, Nat.add_comm 1]

theorem scanFrom_take {x y : Line} (hx : x ≠ []) (h : reach (x ++ y) = x.length) (pos : Nat) :
    scanFrom reach pos 0 (x ++ y) =
      ⟨pos, pos + x.length⟩ :: scanFrom reach (pos + x.length) 0 y := by
  obtain ⟨c, x, rfl⟩ := List.exists_cons_of_ne_nil hx
  rw [List.cons_append] at h ⊢
  rw [scanFrom, h, List.length_cons]
  simp only
  rw [scanFrom_covered, Nat.add_assoc, Nat.add_comm 1]

end

/-! ## runs of a class -/

section
variable {p : Char → Bool}

theorem takeWhile_append_of_run {a b : Line} (ha : ∀ c ∈ a, p c = true)
    (hb : b.head?.any p = false) : (a ++ b).takeWhile p = a := by
  rw [List.takeWhile_append_of_pos ha]
  cases b with
  | nil => rw [List.takeWhile_nil, List.append_nil]
  | cons c b =>
    have hc : p c = false := hb
    rw [List.takeWhile_cons, hc]
    exact List.append_nil a

theorem run_unique {a b a' b' : Line} (ha : ∀ c ∈ a, p c = true) (hb : b.head?.any p = false)
    (ha' : ∀ c ∈ a', p c = true) (hb' : b'.head?.any p = false) (h : a ++ b = a' ++ b') :
    a = a' ∧ b = b' := by
  have e : a = a' := by
    rw [← takeWhile_append_of_run ha hb, h, takeWhile_append_of_run ha' hb']
  subst e
  exact ⟨rfl, List.append_cancel_left h⟩

theorem head?_dropWhile_any (p : Char → Bool) (l : Line) : (l.dropWhile p).head?.any p = false := by
  induction l with
  | nil => rfl
  | cons c l ih =>
    rw [List.dropWhile_cons]
    by_cases h : p c = true
    · rw [if_pos h, ih]
    · rw [if_neg h]
      exact Bool.eq_false_iff.mpr h

theorem head?_any_append {a : Line} (b : Line) (ha : a ≠ []) :
    (a ++ b).head?.any p = a.head?.any p := by
  obtain ⟨c, a, rfl⟩ := List.exists_cons_of_ne_nil ha
  rfl

theorem getLast?_any_append (a : Line) {b : Line} (hb : b ≠ []) :
    (a ++ b).getLast?.any p = b.getLast?.any p := by
  rw [List.getLast?_append, List.getLast?_eq_some_getLast hb, Option.some_or]

theorem head?_any_of_run {a : Line} (ha : a ≠ []) (hf : ∀ c ∈ a, p c = true) :
    a.head?.any p = true := by
  obtain ⟨c, a, rfl⟩ := List.exists_cons_of_ne_nil ha
  exact hf c List.mem_cons_self

theorem getLast?_any_of_run {a : Line} (ha : a ≠ []) (hf : ∀ c ∈ a, p c = true) :
    a.getLast?.any p = true := by
  rw [List.getLast?_eq_some_getLast ha]
  exact hf _ (List.getLast_mem ha)

end

/-- Induction on the runs of a class and the gaps between them. -/
@[elab_as_elim]
theorem run_induction (p : Char → Bool) {motive : Line → Prop} (nil : motive [])
    (gap : ∀ c l, p c = false → motive l → motive (c :: l))
    (run : ∀ w l, w ≠ [] → (∀ c ∈ w, p c = true) → l.head?.any p = false → motive l →
      motive (w ++ l))
    (l : Line) : motive l := by
  match l with
  | [] => exact nil
  | c :: r =>
    by_cases hc : p c = true
    · have hne : (c :: r).takeWhile p ≠ [] := by
        rw [List.takeWhile_cons, if_pos hc]
        exact List.cons_ne_nil _ _
      have hlt : ((c :: r).dropWhile p).length < (c :: r).length := by
        rw [List.dropWhile_cons, if_pos hc, List.length_cons]
        exact Nat.lt_succ_of_le (List.dropWhile_sublist _).length_le
      have := run _ _ hne (List.all_eq_true.mp List.all_takeWhile) (head?_dropWhile_any p (c :: r))
        (run_induction p nil gap run ((c :: r).dropWhile p))
      rwa [List.takeWhile_append_dropWhile] at this
    · exact gap c r (Bool.eq_false_iff.mpr hc) (run_induction p nil gap run r)
termination_by l.length
decreasing_by
  · exact hlt
  · exact Nat.lt_succ_self r.length

/-- how many characters of a class a text begins with -/
def runLength (p : Char → Bool) (l : Line) : Nat :=
  (l.takeWhile p).length

/-- the maximal runs of a class, from left to right -/
def maximalRuns (p : Char → Bool) (l : Line) : List Span :=
  scan (runLength p) l

/-- A stretch of a class that no character of the class touches. -/
def IsRun (p : Char → Bool) (l : Line) (s : Span) : Prop :=
  ∃ before w after, l = before ++ (w ++ after) ∧ before.getLast?.any p = false ∧ w ≠ [] ∧
    (∀ c ∈ w, p c = true) ∧ after.head?.any p = false ∧
    s = ⟨before.length, before.length + w.length⟩

section
variable {p : Char → Bool}

theorem scanFrom_gap {c : Char} (hc : p c = false) (l : Line) (pos : Nat) :
    scanFrom (runLength p) pos 0 (c :: l) = scanFrom (runLength p) (pos + 1) 0 l := by
  refine scanFrom_skip ?_ pos
  rw [runLength, List.takeWhile_cons, hc]
  rfl

theorem scanFrom_run {w l : Line} (hne : w ≠ []) (hw : ∀ c ∈ w, p c = true)
    (hl : l.head?.any p = false) (pos : Nat) : scanFrom (runLength p) pos 0 (w ++ l) =
      ⟨pos, pos + w.length⟩ :: scanFrom (runLength p) (pos + w.length) 0 l := by
  refine scanFrom_take hne ?_ pos
  rw [runLength, takeWhile_append_of_run hw hl]

/-- a cut that splits no run splits the list of runs -/
theorem scanFrom_runLength_append {a b : Line}
    (h : a.getLast?.any p = false ∨ b.head?.any p = false) (pos : Nat) :
    scanFrom (runLength p) pos 0 (a ++ b) =
      scanFrom (runLength p) pos 0 a ++ scanFrom (runLength p) (pos + a.length) 0 b := by
  induction a using run_induction p generalizing pos with
  | nil => rfl
  | gap c l hc ih =>
    have h' : l.getLast?.any p = false ∨ b.head?.any p = false := by
      cases l with
      | nil => exact Or.inl rfl
      | cons d l =>
        rwa [← List.singleton_append, getLast?_any_append _ (List.cons_ne_nil _ _)] at h
    rw [List.cons_append, scanFrom_gap hc, scanFrom_gap hc, ih h', List.length_cons,
      Nat.add_right_comm, Nat.add_assoc]
  | run w l hne hw hl ih =>
    have h' : (l.getLast?.any p = false ∨ b.head?.any p = false) ∧
        (l ++ b).head?.any p = false := by
      cases l with
      | nil =>
        rw [List.append_nil, getLast?_any_of_run hne hw] at h
        have hb := h.resolve_left (by decide)
        exact ⟨Or.inr hb, hb⟩
      | cons d l =>
        rw [getLast?_any_append _ (List.cons_ne_nil _ _)] at h
        exact ⟨h, hl⟩
    rw [List.append_assoc, scanFrom_run hne hw h'.2, scanFrom_run hne hw hl, ih h'.1,
      List.cons_append, List.length_append, Nat.add_assoc]

theorem exists_of_mem_scanFrom (l : Line) (pos : Nat) :
    ∀ s ∈ scanFrom (runLength p) pos 0 l, ∃ before w after, l = before ++ (w ++ after) ∧
      before.getLast?.any p = false ∧ w ≠ [] ∧ (∀ c ∈ w, p c = true) ∧
      after.head?.any p = false ∧ s = ⟨pos + before.length, pos + before.length + w.length⟩ := by
  induction l using run_induction p generalizing pos with
  | nil => exact fun s hs => absurd hs List.not_mem_nil
  | gap c l hc ih =>
    intro s hs
    rw [scanFrom_gap hc] at hs
    obtain ⟨a, w, b, rfl, ha, hne, hw, hb, rfl⟩ := ih _ s hs
    refine ⟨c :: a, w, b, rfl, ?_, hne, hw, hb, ?_⟩
    · cases a with
      | nil => exact hc
      | cons d a => rwa [← List.singleton_append, getLast?_any_append _ (List.cons_ne_nil _ _)]
    · rw [List.length_cons, Nat.add_assoc pos, Nat.add_comm 1]
  | run w l hne hw hl ih =>
    intro s hs
    rw [scanFrom_run hne hw hl] at hs
    rcases List.mem_cons.mp hs with rfl | hs
    · exact ⟨[], w, l, rfl, rfl, hne, hw, hl, rfl⟩
    · obtain ⟨a, v, b, rfl, ha, hvne, hv, hb, rfl⟩ := ih _ s hs
      have hane : a ≠ [] := by
        rintro rfl
        rw [List.nil_append, head?_any_append _ hvne, head?_any_of_run hvne hv] at hl
        exact absurd hl (by decide)
      refine ⟨w ++ a, v, b, (List.append_assoc _ _ _).symm, ?_, hvne, hv, hb, ?_⟩
      · rwa [getLast?_any_append _ hane]
      · rw [List.length_append, Nat.add_assoc pos]

/-- the runs that are taken are exactly the maximal ones -/
theorem mem_maximalRuns_iff (p : Char → Bool) (l : Line) (s : Span) :
    s ∈ maximalRuns p l ↔ IsRun p l s := by
  constructor
  · intro hs
    obtain ⟨a, w, b, hl, ha, hne, hw, hb, rfl⟩ := exists_of_mem_scanFrom l 0 s hs
    exact ⟨a, w, b, hl, ha, hne, hw, hb, by rw [Nat.zero_add]⟩
  · rintro ⟨a, w, b, rfl, ha, hne, hw, hb, rfl⟩
    rw [maximalRuns, scan, scanFrom_runLength_append (Or.inl ha), scanFrom_run hne hw hb, Nat.zero_add]
    exact List.mem_append_right _ List.mem_cons_self

end
end LanguageService
