import LanguageService.Pattern.Lemmas
import LanguageService.Proofs.Text.Words

/-!
# What a pattern fits

The readings of a pattern are listed best first; here they are described without an order, by the
text that is read and the text on both sides of it.

* `Cursor.between p b`   the cursor on the line `p ++ b`, behind `p`
* `Fits a p x y gs`      `a` reads `x` on the line `p ++ (x ++ y)` and closes the groups `gs`
* `fits_seq`, `fits_literal`, `fits_times`, …   what derived patterns fit
* `mem_run_iff`          the readings of a pattern are the texts that it fits
* `matchAt?_eq_some_of_unique` if only one text fits, then that is the match
* `first?_eq_some_iff`   the leftmost match, by the text before it
-/

namespace LanguageService

/-- the cursor on the line `p ++ b` behind `p` -/
def Cursor.between (p b : Line) : Cursor := ⟨p.length, p.getLast?, b⟩

theorem Cursor.between_step (p : Line) (c : Char) (b : Line) :
    (⟨p.length + 1, some c, b⟩ : Cursor) = between (p ++ [c]) b := by
  simp [between]

theorem Cursor.advance_between (p x y : Line) :
    (between p (x ++ y)).advance x.length = between (p ++ x) y := by
  induction x generalizing p with
  | nil => rw [List.append_nil]; rfl
  | cons c x ih =>
    show Cursor.advance x.length ⟨p.length + 1, some c, x ++ y⟩ = _
    rw [between_step, ih, List.append_assoc]
    rfl

namespace Pattern

/-! ## the texts that a pattern fits -/

/-- Steps one after the other, none of them empty. -/
inductive Repeats (step : Line → Line → Line → List (Nat × Span) → Prop) :
    Line → Line → Line → List (Nat × Span) → Prop where
  | done (p y : Line) : Repeats step p [] y []
  | more {p x x₁ x₂ y : Line} {gs g₁ g₂ : List (Nat × Span)} : x₁ ≠ [] →
      step p x₁ (x₂ ++ y) g₁ → Repeats step (p ++ x₁) x₂ y g₂ → x = x₁ ++ x₂ → gs = g₂ ++ g₁ →
      Repeats step p x y gs

/-- The pattern reads `x` between `p` and `y`, and closes the groups `gs`, last first. -/
def Fits : Pattern → Line → Line → Line → List (Nat × Span) → Prop
  | empty, _, x, _, gs => x = [] ∧ gs = []
  | one f, _, x, _, gs => ∃ c, f c = true ∧ x = [c] ∧ gs = []
  | many f, _, x, _, gs => (∀ c ∈ x, f c = true) ∧ gs = []
  | wordEdge, p, x, y, gs => endsInWord p ≠ startsInWord y ∧ x = [] ∧ gs = []
  | lineStart, p, x, _, gs => p = [] ∧ x = [] ∧ gs = []
  | lineEnd, _, x, y, gs => y = [] ∧ x = [] ∧ gs = []
  | seq a b, p, x, y, gs => ∃ x₁ x₂ g₁ g₂, Fits a p x₁ (x₂ ++ y) g₁ ∧ Fits b (p ++ x₁) x₂ y g₂ ∧
      x = x₁ ++ x₂ ∧ gs = g₂ ++ g₁
  | alt a b, p, x, y, gs => Fits a p x y gs ∨ Fits b p x y gs
  | star a, p, x, y, gs => Repeats (Fits a) p x y gs
  | group i a, p, x, y, gs => ∃ g, Fits a p x y g ∧
      gs = (i, ⟨p.length, p.length + x.length⟩) :: g

/-! ## one construct at a time -/

theorem fits_seq {a b : Pattern} {p x y : Line} {gs : List (Nat × Span)} :
    Fits (seq a b) p x y gs ↔ ∃ x₁ x₂ g₁ g₂, Fits a p x₁ (x₂ ++ y) g₁ ∧
      Fits b (p ++ x₁) x₂ y g₂ ∧ x = x₁ ++ x₂ ∧ gs = g₂ ++ g₁ := Iff.rfl

theorem fits_wordEdge {p x y : Line} {gs : List (Nat × Span)} :
    Fits wordEdge p x y gs ↔ endsInWord p ≠ startsInWord y ∧ x = [] ∧ gs = [] := Iff.rfl

theorem fits_wordEdge_seq {b : Pattern} {p x y : Line} {gs : List (Nat × Span)} :
    Fits (seq wordEdge b) p x y gs ↔ endsInWord p ≠ startsInWord (x ++ y) ∧ Fits b p x y gs := by
  rw [fits_seq]
  constructor
  · rintro ⟨_, x, _, g, ⟨he, rfl, rfl⟩, hb, rfl, rfl⟩
    rw [List.append_nil] at hb ⊢
    exact ⟨he, hb⟩
  · rintro ⟨he, hb⟩
    exact ⟨[], x, [], gs, ⟨he, rfl, rfl⟩, by rwa [List.append_nil], rfl, (List.append_nil _).symm⟩

theorem fits_literal (t : Line) {p x y : Line} {gs : List (Nat × Span)} :
    Fits (literal t) p x y gs ↔ x = t ∧ gs = [] := by
  induction t generalizing p x gs with
  | nil => exact Iff.rfl
  | cons c t ih =>
    have hone : ∀ {p x y gs}, Fits (one (· == c)) p x y gs ↔ x = [c] ∧ gs = [] := by
      intro p x y gs
      constructor
      · rintro ⟨d, hd, rfl, rfl⟩
        rw [beq_iff_eq.mp hd]
        exact ⟨rfl, rfl⟩
      · rintro ⟨rfl, rfl⟩
        exact ⟨c, beq_self_eq_true c, rfl, rfl⟩
    cases t with
    | nil => exact hone
    | cons d t =>
      show Fits (seq (one (· == c)) (literal (d :: t))) p x y gs ↔ _
      rw [fits_seq]
      constructor
      · rintro ⟨x₁, x₂, g₁, g₂, h₁, h₂, rfl, rfl⟩
        obtain ⟨rfl, rfl⟩ := hone.mp h₁
        obtain ⟨rfl, rfl⟩ := ih.mp h₂
        exact ⟨rfl, rfl⟩
      · rintro ⟨rfl, rfl⟩
        exact ⟨[c], d :: t, [], [], hone.mpr ⟨rfl, rfl⟩, ih.mpr ⟨rfl, rfl⟩, rfl, rfl⟩

theorem fits_anyOf {as : List Pattern} {p x y : Line} {gs : List (Nat × Span)} :
    Fits (anyOf as) p x y gs ↔ ∃ a ∈ as, Fits a p x y gs := by
  induction as with
  | nil =>
    refine iff_of_false ?_ ?_
    · rintro ⟨c, hc, -⟩
      cases hc
    · rintro ⟨a, ha, -⟩
      exact List.not_mem_nil ha
  | cons a as ih =>
    have hcons : (∃ b ∈ a :: as, Fits b p x y gs) ↔
        Fits a p x y gs ∨ ∃ b ∈ as, Fits b p x y gs := by
      simp only [List.mem_cons, exists_eq_or_imp]
    rw [hcons]
    cases as with
    | nil =>
      refine ⟨Or.inl, fun h => h.resolve_right ?_⟩
      rintro ⟨b, hb, -⟩
      exact List.not_mem_nil hb
    | cons b as => exact or_congr_right ih

theorem fits_many1 {f : Char → Bool} {p x y : Line} {gs : List (Nat × Span)} :
    Fits (many1 f) p x y gs ↔ x ≠ [] ∧ (∀ c ∈ x, f c = true) ∧ gs = [] := by
  constructor
  · rintro ⟨_, x, _, _, ⟨c, hc, rfl, rfl⟩, ⟨hx, rfl⟩, rfl, rfl⟩
    refine ⟨List.cons_ne_nil _ _, ?_, rfl⟩
    intro d hd
    rcases List.mem_cons.mp hd with rfl | hd
    · exact hc
    · exact hx d hd
  · rintro ⟨hne, hx, rfl⟩
    obtain ⟨c, r, rfl⟩ := List.exists_cons_of_ne_nil hne
    exact ⟨[c], r, [], [], ⟨c, hx c List.mem_cons_self, rfl, rfl⟩,
      ⟨fun d hd => hx d (List.mem_cons_of_mem _ hd), rfl⟩, rfl, rfl⟩

theorem fits_times {f : Char → Bool} {n : Nat} {p x y : Line} {gs : List (Nat × Span)} :
    Fits (times n (one f)) p x y gs ↔ x.length = n ∧ (∀ c ∈ x, f c = true) ∧ gs = [] := by
  have hone {p x y : Line} {gs : List (Nat × Span)} : Fits (one f) p x y gs ↔
      x.length = 1 ∧ (∀ c ∈ x, f c = true) ∧ gs = [] := by
    constructor
    · rintro ⟨c, hc, rfl, rfl⟩
      exact ⟨rfl, List.forall_mem_singleton.mpr hc, rfl⟩
    · rintro ⟨hlen, hx, rfl⟩
      obtain ⟨c, rfl⟩ := List.length_eq_one_iff.mp hlen
      exact ⟨c, hx c List.mem_cons_self, rfl, rfl⟩
  induction n generalizing p x y gs with
  | zero =>
    constructor
    · rintro ⟨rfl, rfl⟩
      exact ⟨rfl, fun c hc => absurd hc List.not_mem_nil, rfl⟩
    · rintro ⟨hlen, -, rfl⟩
      exact ⟨List.eq_nil_of_length_eq_zero hlen, rfl⟩
  | succ n ih =>
    cases n with
    | zero => exact hone
    | succ n =>
      show Fits (seq (one f) (times (n + 1) (one f))) p x y gs ↔ _
      rw [fits_seq]
      constructor
      · rintro ⟨_, x, _, _, ⟨c, hc, rfl, rfl⟩, hrest, rfl, rfl⟩
        obtain ⟨hlen, hx, rfl⟩ := ih.mp hrest
        exact ⟨congrArg Nat.succ hlen, List.forall_mem_cons.mpr ⟨hc, hx⟩, rfl⟩
      · rintro ⟨hlen, hx, rfl⟩
        obtain ⟨c, x, rfl⟩ := List.exists_cons_of_length_eq_add_one hlen
        obtain ⟨hc, hx⟩ := List.forall_mem_cons.mp hx
        exact ⟨[c], x, [], [], ⟨c, hc, rfl, rfl⟩, ih.mpr ⟨Nat.succ.inj hlen, hx, rfl⟩, rfl, rfl⟩

/-! ## the readings of a pattern -/

/-- a reading that has come from `p` to the end of `p ++ x` -/
def readingAfter (p x y : Line) (gs : List (Nat × Span)) : Reading := ⟨.between (p ++ x) y, gs⟩

theorem readingAfter_nil (p y : Line) (g : List (Nat × Span)) :
    readingAfter p [] y ([] ++ g) = ⟨.between p y, g⟩ := by
  rw [readingAfter, List.append_nil]
  rfl

theorem readingAfter_append (p x₁ x₂ y : Line) (g₁ g₂ g : List (Nat × Span)) :
    readingAfter p (x₁ ++ x₂) y (g₂ ++ g₁ ++ g) =
      readingAfter (p ++ x₁) x₂ y (g₂ ++ (g₁ ++ g)) := by
  rw [readingAfter, readingAfter, List.append_assoc, List.append_assoc]

theorem exists_readingAfter_nil_iff (P : Line → Prop) (p b : Line) (g : List (Nat × Span))
    (t : Reading) :
    (∃ x y gs, b = x ++ y ∧ (P y ∧ x = [] ∧ gs = []) ∧ t = readingAfter p x y (gs ++ g)) ↔
      P b ∧ t = ⟨.between p b, g⟩ := by
  constructor
  · rintro ⟨x, y, gs, rfl, ⟨hy, rfl, rfl⟩, rfl⟩
    exact ⟨hy, readingAfter_nil p y g⟩
  · rintro ⟨hb, rfl⟩
    exact ⟨[], b, [], rfl, ⟨hb, rfl, rfl⟩, (readingAfter_nil p b g).symm⟩

theorem mem_manyFrom_iff (f : Char → Bool) (b p : Line) (acc : List Cursor) (c : Cursor) :
    c ∈ manyFrom f p.length p.getLast? acc b ↔
      c ∈ acc ∨ ∃ x y, b = x ++ y ∧ (∀ d ∈ x, f d = true) ∧ c = .between (p ++ x) y := by
  induction b generalizing p acc with
  | nil =>
    rw [manyFrom, List.mem_cons, Or.comm]
    refine or_congr_right ⟨fun h => ⟨[], [], rfl, by simp, by rw [h, List.append_nil]; rfl⟩, ?_⟩
    rintro ⟨x, y, hxy, -, rfl⟩
    obtain ⟨rfl, rfl⟩ := List.append_eq_nil_iff.mp hxy.symm
    rw [List.append_nil]
    rfl
  | cons d b ih =>
    have hstop : (⟨p.length, p.getLast?, d :: b⟩ : Cursor) = .between (p ++ []) (d :: b) := by
      rw [List.append_nil]
      rfl
    have hlen : p.length + 1 = (p ++ [d]).length := by
      rw [List.length_append, List.length_singleton]
    have hlast : some d = (p ++ [d]).getLast? := by simp
    unfold manyFrom
    split
    · next hd =>
      rw [hlen, hlast, ih, List.mem_cons, hstop, or_assoc, or_left_comm]
      refine or_congr_right ⟨?_, ?_⟩
      · rintro (rfl | ⟨x, y, rfl, hx, rfl⟩)
        · exact ⟨[], d :: b, rfl, by simp, rfl⟩
        · refine ⟨d :: x, y, rfl, ?_, by rw [List.append_assoc]; rfl⟩
          intro e he
          rcases List.mem_cons.mp he with rfl | he
          · exact hd
          · exact hx e he
      · rintro ⟨x, y, hxy, hx, rfl⟩
        cases x with
        | nil => exact Or.inl (by rw [hxy]; rfl)
        | cons e x =>
          obtain ⟨rfl, rfl⟩ := List.cons.inj hxy
          exact Or.inr ⟨x, y, rfl, fun e he => hx e (List.mem_cons_of_mem _ he),
            by rw [List.append_assoc]; rfl⟩
    · next hd =>
      rw [List.mem_cons, hstop, or_comm]
      refine or_congr_right ⟨fun h => ⟨[], d :: b, rfl, by simp, h⟩, ?_⟩
      rintro ⟨x, y, hxy, hx, rfl⟩
      cases x with
      | nil => rw [hxy]; rfl
      | cons e x =>
        obtain ⟨rfl, rfl⟩ := List.cons.inj hxy
        exact absurd (hx d List.mem_cons_self) hd

theorem mem_starFrom_iff {step : Reading → List Reading}
    {R : Line → Line → Line → List (Nat × Span) → Prop}
    (hstep : ∀ p b g t, t ∈ step ⟨.between p b, g⟩ ↔
      ∃ x y gs, b = x ++ y ∧ R p x y gs ∧ t = readingAfter p x y (gs ++ g))
    (fuel : Nat) (p b : Line) (g : List (Nat × Span)) (t : Reading) (hb : b.length ≤ fuel) :
    t ∈ starFrom step fuel ⟨.between p b, g⟩ ↔
      ∃ x y gs, b = x ++ y ∧ Repeats R p x y gs ∧ t = readingAfter p x y (gs ++ g) := by
  induction fuel generalizing p b g with
  | zero =>
    obtain rfl := List.eq_nil_of_length_eq_zero (Nat.le_zero.mp hb)
    rw [starFrom, List.mem_singleton]
    refine ⟨fun h => ⟨[], [], [], rfl, .done p [], h.trans (readingAfter_nil p [] g).symm⟩, ?_⟩
    rintro ⟨x, y, gs, hxy, hr, rfl⟩
    obtain ⟨rfl, rfl⟩ := List.append_eq_nil_iff.mp hxy.symm
    cases hr with
    | done => exact readingAfter_nil p [] g
    | more hne _ _ hx _ => exact absurd (List.append_eq_nil_iff.mp hx.symm).1 hne
  | succ fuel ih =>
    rw [starFrom, List.mem_append, List.mem_flatMap, List.mem_singleton]
    constructor
    · rintro (⟨r, hr, ht⟩ | rfl)
      · obtain ⟨hr, hlt⟩ := List.mem_filter.mp hr
        obtain ⟨x₁, b', g₁, rfl, hx₁, rfl⟩ := (hstep _ _ _ _).mp hr
        have hshort : b'.length < (x₁ ++ b').length := of_decide_eq_true hlt
        rw [List.length_append] at hshort hb
        obtain ⟨x₂, y, g₂, rfl, hx₂, rfl⟩ := (ih _ _ _ (by omega)).mp ht
        refine ⟨x₁ ++ x₂, y, g₂ ++ g₁, (List.append_assoc _ _ _).symm, .more ?_ hx₁ hx₂ rfl rfl,
          (readingAfter_append p x₁ x₂ y g₁ g₂ g).symm⟩
        rintro rfl
        simp at hshort
      · exact ⟨[], b, [], rfl, .done p b, (readingAfter_nil p b g).symm⟩
    · rintro ⟨x, y, gs, rfl, hr, rfl⟩
      cases hr with
      | done => exact Or.inr (readingAfter_nil p y g)
      | @more _ _ x₁ x₂ _ _ g₁ g₂ hne hx₁ hx₂ hx hgs =>
        subst hx hgs
        have hpos : 0 < x₁.length := List.length_pos_iff.mpr hne
        rw [List.length_append, List.length_append] at hb
        refine Or.inl ⟨readingAfter p x₁ (x₂ ++ y) (g₁ ++ g), List.mem_filter.mpr ⟨?_, ?_⟩, ?_⟩
        · exact (hstep _ _ _ _).mpr ⟨x₁, x₂ ++ y, g₁, List.append_assoc _ _ _, hx₁, rfl⟩
        · refine decide_eq_true ?_
          show (x₂ ++ y).length < (x₁ ++ x₂ ++ y).length
          rw [List.append_assoc, @List.length_append _ x₁]
          omega
        · exact (ih _ _ _ (by rw [List.length_append]; omega)).mpr
            ⟨x₂, y, g₂, rfl, hx₂, readingAfter_append p x₁ x₂ y g₁ g₂ g⟩

theorem mem_run_lineStart {p b : Line} {g : List (Nat × Span)} {t : Reading} :
    t ∈ run lineStart ⟨.between p b, g⟩ ↔ p = [] ∧ t = ⟨.between p b, g⟩ := by
  show t ∈ (if p.length = 0 then _ else _) ↔ _
  split
  · next hp => rw [List.mem_singleton, and_iff_right (List.length_eq_zero_iff.mp hp)]
  · next hp => exact iff_of_false List.not_mem_nil fun h => hp (List.length_eq_zero_iff.mpr h.1)

theorem mem_run_lineEnd {p b : Line} {g : List (Nat × Span)} {t : Reading} :
    t ∈ run lineEnd ⟨.between p b, g⟩ ↔ b = [] ∧ t = ⟨.between p b, g⟩ := by
  show t ∈ (if b.isEmpty then _ else _) ↔ _
  split
  · next hb => rw [List.mem_singleton, and_iff_right (List.isEmpty_iff.mp hb)]
  · next hb => exact iff_of_false List.not_mem_nil fun h => hb (List.isEmpty_iff.mpr h.1)

theorem mem_run_many {f : Char → Bool} {p b : Line} {g : List (Nat × Span)} {t : Reading} :
    t ∈ run (many f) ⟨.between p b, g⟩ ↔
      ∃ x y, b = x ++ y ∧ (∀ d ∈ x, f d = true) ∧ t = readingAfter p x y g := by
  show t ∈ (manyFrom f p.length p.getLast? [] b).map _ ↔ _
  rw [List.mem_map]
  constructor
  · rintro ⟨c, hc, rfl⟩
    rcases (mem_manyFrom_iff f b p [] c).mp hc with h | ⟨x, y, hb, hx, rfl⟩
    · exact absurd h List.not_mem_nil
    · exact ⟨x, y, hb, hx, rfl⟩
  · rintro ⟨x, y, hb, hx, rfl⟩
    exact ⟨.between (p ++ x) y, (mem_manyFrom_iff f b p [] _).mpr (Or.inr ⟨x, y, hb, hx, rfl⟩),
      rfl⟩

/-- the readings of a pattern are the texts that it fits -/
theorem mem_run_iff (a : Pattern) (p b : Line) (g : List (Nat × Span)) (t : Reading) :
    t ∈ a.run ⟨.between p b, g⟩ ↔
      ∃ x y gs, b = x ++ y ∧ a.Fits p x y gs ∧ t = readingAfter p x y (gs ++ g) := by
  induction a generalizing p b g t with
  | empty =>
    have hstay := exists_readingAfter_nil_iff (fun _ => True) p b g t
    simp only [true_and] at hstay
    rw [run_empty, List.mem_singleton]
    exact hstay.symm
  | one f =>
    rw [mem_run_one]
    constructor
    · rintro ⟨c, y, hb, hc, rfl⟩
      refine ⟨[c], y, [], hb, ⟨c, hc, rfl, rfl⟩, ?_⟩
      show (⟨⟨p.length + 1, some c, y⟩, g⟩ : Reading) = _
      rw [Cursor.between_step]
      rfl
    · rintro ⟨x, y, gs, rfl, ⟨c, hc, rfl, rfl⟩, rfl⟩
      refine ⟨c, y, rfl, hc, ?_⟩
      show _ = (⟨⟨p.length + 1, some c, y⟩, g⟩ : Reading)
      rw [Cursor.between_step]
      rfl
  | many f =>
    rw [mem_run_many]
    constructor
    · rintro ⟨x, y, hb, hx, ht⟩
      exact ⟨x, y, [], hb, ⟨hx, rfl⟩, ht⟩
    · rintro ⟨x, y, gs, hb, ⟨hx, rfl⟩, ht⟩
      exact ⟨x, y, hb, hx, ht⟩
  | wordEdge =>
    rw [mem_run_wordEdge]
    refine (and_congr_left' bne_iff_ne).trans ?_
    exact (exists_readingAfter_nil_iff (fun y => endsInWord p ≠ startsInWord y) p b g t).symm
  | lineStart =>
    rw [mem_run_lineStart]
    exact (exists_readingAfter_nil_iff (fun _ => p = []) p b g t).symm
  | lineEnd =>
    rw [mem_run_lineEnd]
    exact (exists_readingAfter_nil_iff (fun y => y = []) p b g t).symm
  | seq a b' iha ihb =>
    rw [mem_run_seq]
    constructor
    · rintro ⟨r, hr, ht⟩
      obtain ⟨x₁, b₁, g₁, rfl, h₁, rfl⟩ := (iha _ _ _ _).mp hr
      obtain ⟨x₂, y, g₂, rfl, h₂, rfl⟩ := (ihb _ _ _ _).mp ht
      exact ⟨x₁ ++ x₂, y, g₂ ++ g₁, (List.append_assoc _ _ _).symm,
        ⟨x₁, x₂, g₁, g₂, h₁, h₂, rfl, rfl⟩, (readingAfter_append p x₁ x₂ y g₁ g₂ g).symm⟩
    · rintro ⟨x, y, gs, rfl, ⟨x₁, x₂, g₁, g₂, h₁, h₂, rfl, rfl⟩, rfl⟩
      exact ⟨readingAfter p x₁ (x₂ ++ y) (g₁ ++ g),
        (iha _ _ _ _).mpr ⟨x₁, x₂ ++ y, g₁, List.append_assoc _ _ _, h₁, rfl⟩,
        (ihb _ _ _ _).mpr ⟨x₂, y, g₂, rfl, h₂, readingAfter_append p x₁ x₂ y g₁ g₂ g⟩⟩
  | alt a b' iha ihb =>
    rw [mem_run_alt]
    constructor
    · rintro (h | h)
      · obtain ⟨x, y, gs, hb, hf, ht⟩ := (iha _ _ _ _).mp h
        exact ⟨x, y, gs, hb, Or.inl hf, ht⟩
      · obtain ⟨x, y, gs, hb, hf, ht⟩ := (ihb _ _ _ _).mp h
        exact ⟨x, y, gs, hb, Or.inr hf, ht⟩
    · rintro ⟨x, y, gs, hb, hf | hf, ht⟩
      · exact Or.inl ((iha _ _ _ _).mpr ⟨x, y, gs, hb, hf, ht⟩)
      · exact Or.inr ((ihb _ _ _ _).mpr ⟨x, y, gs, hb, hf, ht⟩)
  | star a iha => exact mem_starFrom_iff iha _ p b g t (Nat.le_refl _)
  | group i a iha =>
    show t ∈ (a.run ⟨.between p b, g⟩).map _ ↔ _
    rw [List.mem_map]
    constructor
    · rintro ⟨r, hr, rfl⟩
      obtain ⟨x, y, gs, rfl, hf, rfl⟩ := (iha _ _ _ _).mp hr
      refine ⟨x, y, _, rfl, ⟨gs, hf, rfl⟩, ?_⟩
      rw [← List.length_append]
      rfl
    · rintro ⟨x, y, gs, rfl, ⟨gs, hf, rfl⟩, rfl⟩
      refine ⟨readingAfter p x y (gs ++ g), (iha _ _ _ _).mpr ⟨x, y, gs, rfl, hf, rfl⟩, ?_⟩
      rw [← List.length_append]
      rfl

/-! ## matches -/

theorem fits_of_matchAt? {a : Pattern} {p b : Line} {m : Match}
    (h : a.matchAt? (.between p b) = some m) : ∃ x y gs, b = x ++ y ∧ a.Fits p x y gs ∧
      m = ⟨⟨p.length, p.length + x.length⟩, gs⟩ := by
  obtain ⟨t, ht, rfl⟩ := Option.map_eq_some_iff.mp h
  obtain ⟨x, y, gs, rfl, hf, rfl⟩ := (mem_run_iff a p b [] t).mp (List.mem_of_head? ht)
  refine ⟨x, y, gs, rfl, hf, ?_⟩
  rw [← List.length_append, readingAfter, List.append_nil]
  rfl

theorem matchAt?_eq_none_iff (a : Pattern) (p b : Line) :
    a.matchAt? (.between p b) = none ↔ ∀ x y gs, b = x ++ y → ¬ a.Fits p x y gs := by
  rw [matchAt?, Option.map_eq_none_iff, List.head?_eq_none_iff]
  constructor
  · intro h x y gs hb hf
    have := (mem_run_iff a p b [] _).mpr ⟨x, y, gs, hb, hf, rfl⟩
    rw [h] at this
    exact List.not_mem_nil this
  · intro h
    refine List.eq_nil_iff_forall_not_mem.mpr fun t ht => ?_
    obtain ⟨x, y, gs, hb, hf, -⟩ := (mem_run_iff a p b [] t).mp ht
    exact h x y gs hb hf

theorem matchAt?_eq_some_of_unique {a : Pattern} {p x y : Line} {gs : List (Nat × Span)}
    (hf : a.Fits p x y gs)
    (huniq : ∀ x' y' gs', x ++ y = x' ++ y' → a.Fits p x' y' gs' → x' = x ∧ gs' = gs) :
    a.matchAt? (.between p (x ++ y)) = some ⟨⟨p.length, p.length + x.length⟩, gs⟩ := by
  cases h : a.matchAt? (.between p (x ++ y)) with
  | none => exact absurd hf ((matchAt?_eq_none_iff a p _).mp h x y gs rfl)
  | some m =>
    obtain ⟨x', y', gs', hb, hf', rfl⟩ := fits_of_matchAt? h
    obtain ⟨rfl, rfl⟩ := huniq x' y' gs' hb hf'
    rfl

/-! ## the leftmost match -/

theorem firstFrom_eq_some_iff (a : Pattern) (b p : Line) (m : Match) :
    a.firstFrom p.length p.getLast? b = some m ↔ ∃ x y, b = x ++ y ∧
      a.matchAt? (.between (p ++ x) y) = some m ∧
      ∀ x' y', b = x' ++ y' → x'.length < x.length → a.matchAt? (.between (p ++ x') y') = none := by
  induction b generalizing p with
  | nil =>
    constructor
    · exact fun h => ⟨[], [], rfl, by rw [List.append_nil]; exact h, fun x' y' _ hlt =>
        absurd hlt (Nat.not_lt_zero _)⟩
    · rintro ⟨x, y, hxy, hm, -⟩
      obtain ⟨rfl, rfl⟩ := List.append_eq_nil_iff.mp hxy.symm
      rw [List.append_nil] at hm
      exact hm
  | cons c b ih =>
    have hstep : a.firstFrom (p.length + 1) (some c) b =
        a.firstFrom (p ++ [c]).length (p ++ [c]).getLast? b := by simp
    have hhere : a.matchAt? ⟨p.length, p.getLast?, c :: b⟩ =
        a.matchAt? (.between (p ++ []) (c :: b)) := by
      rw [List.append_nil]
      rfl
    rw [firstFrom, hstep, hhere]
    split
    · next m' hm' =>
      constructor
      · rintro h
        obtain rfl := Option.some.inj h
        exact ⟨[], c :: b, rfl, hm', fun x' y' _ hlt => absurd hlt (Nat.not_lt_zero _)⟩
      · rintro ⟨x, y, hxy, hm, hmin⟩
        cases x with
        | nil => rw [← hm', hxy]; exact hm
        | cons d x =>
          rw [hmin [] (c :: b) rfl (Nat.succ_pos _)] at hm'
          exact absurd hm' (by simp)
    · next hnone =>
      rw [ih]
      constructor
      · rintro ⟨x, y, rfl, hm, hmin⟩
        refine ⟨c :: x, y, rfl, by rw [← hm, List.append_assoc]; rfl, ?_⟩
        intro x' y' hxy hlt
        cases x' with
        | nil => rw [show y' = c :: (x ++ y) from hxy.symm]; exact hnone
        | cons d x' =>
          obtain ⟨rfl, htail⟩ := List.cons.inj hxy
          have := hmin x' y' htail (Nat.lt_of_succ_lt_succ hlt)
          rwa [List.append_assoc] at this
      · rintro ⟨x, y, hxy, hm, hmin⟩
        cases x with
        | nil =>
          rw [show y = c :: b from hxy.symm, hnone] at hm
          exact absurd hm (by simp)
        | cons d x =>
          obtain ⟨rfl, rfl⟩ := List.cons.inj hxy
          refine ⟨x, y, rfl, by rw [← hm, List.append_assoc]; rfl, fun x' y' hxy hlt => ?_⟩
          have := hmin (c :: x') y' (by rw [hxy]; rfl) (Nat.succ_lt_succ hlt)
          rwa [List.append_assoc]

/-- the leftmost match, by the text before it -/
theorem first?_eq_some_iff (a : Pattern) (l : Line) (m : Match) :
    a.first? l = some m ↔ ∃ p b, l = p ++ b ∧ a.matchAt? (.between p b) = some m ∧
      ∀ p' b', l = p' ++ b' → p'.length < p.length → a.matchAt? (.between p' b') = none :=
  firstFrom_eq_some_iff a l [] m

theorem first?_eq_none_iff (a : Pattern) (l : Line) :
    a.first? l = none ↔ ∀ p b, l = p ++ b → a.matchAt? (.between p b) = none := by
  rw [first?, firstFrom_eq_none_iff]
  constructor
  · rintro h p b rfl
    have := h p.length (by rw [List.length_append]; exact Nat.le_add_right _ _)
    rwa [show (⟨0, none, p ++ b⟩ : Cursor) = .between [] (p ++ b) from rfl,
      Cursor.advance_between] at this
  · intro h k hk
    have := h (l.take k) (l.drop k) (List.take_append_drop k l).symm
    rw [← List.nil_append (l.take k), ← Cursor.advance_between, List.take_append_drop,
      List.length_take, Nat.min_eq_left hk] at this
    exact this

theorem exists_matchAt?_of_first? {a : Pattern} {l : Line} {m : Match} (h : a.first? l = some m) :
    ∃ p b, l = p ++ b ∧ a.matchAt? (.between p b) = some m := by
  obtain ⟨p, b, hl, hm, -⟩ := (first?_eq_some_iff a l m).mp h
  exact ⟨p, b, hl, hm⟩

theorem exists_first?_of_matchAt? {a : Pattern} {l p b : Line} (hl : l = p ++ b)
    (h : a.matchAt? (.between p b) ≠ none) : ∃ m, a.first? l = some m := by
  cases hfirst : a.first? l with
  | some m => exact ⟨m, rfl⟩
  | none => exact absurd ((first?_eq_none_iff a l).mp hfirst p b hl) h

end Pattern
end LanguageService
