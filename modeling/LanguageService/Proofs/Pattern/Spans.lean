import LanguageService.Proofs.Pattern.Fits

/-!
# What matches and their groups read

* `Pattern.Finds a l m`    the match is one that the pattern has on the line
* `Pattern.Reads a l s`    the pattern fits the stretch of the line
* `Pattern.groupsOf a`     the groups of a pattern, each with the pattern inside it
* `reads_of_finds`         a match is read by its pattern, and each group by the pattern inside it
* `Span.Within s l`        the span begins no later than it ends, and ends on the line
* `consumes`               the pattern takes a character at least, so that what it reads is not empty
-/

namespace LanguageService

structure Span.Within (s : Span) (l : Line) : Prop where
  ordered : s.start ≤ s.stop
  inside : s.stop ≤ l.length

theorem Match.mem_groups_of_group? {m : Match} {i : Nat} {s : Span} (h : m.group? i = some s) :
    (i, s) ∈ m.groups := by
  obtain ⟨l₁, l₂, heq, -⟩ := List.lookup_eq_some_iff.mp h
  rw [heq]
  exact List.mem_append_right _ List.mem_cons_self

namespace Pattern

/-! ## the matches of a pattern on a line -/

/-- the pattern has this match somewhere on the line -/
def Finds (a : Pattern) (l : Line) (m : Match) : Prop :=
  ∃ p b, l = p ++ b ∧ a.matchAt? (.between p b) = some m

theorem finds_of_first? {a : Pattern} {l : Line} {m : Match} (h : a.first? l = some m) :
    a.Finds l m :=
  exists_matchAt?_of_first? h

theorem matchAt?_of_nextAt? {a : Pattern} {touching : Bool} {c : Cursor} {m : Match}
    (h : a.nextAt? touching c = some m) : a.matchAt? c = some m :=
  (Option.filter_eq_some_iff.mp h).1

theorem finds_of_mem_matchesFrom {a : Pattern} (b p : Line) (covered : Nat) (touching : Bool) :
    ∀ m ∈ a.matchesFrom p.length p.getLast? covered touching b, a.Finds (p ++ b) m := by
  induction b generalizing p covered touching with
  | nil =>
    intro m hm
    rw [matchesFrom] at hm
    split at hm
    · exact ⟨p, [], rfl, matchAt?_of_nextAt? (Option.mem_toList.mp hm)⟩
    · exact absurd hm List.not_mem_nil
  | cons c b ih =>
    intro m hm
    have hlen : p.length + 1 = (p ++ [c]).length := by
      rw [List.length_append, List.length_singleton]
    have hlast : some c = (p ++ [c]).getLast? := by simp
    have hline : p ++ c :: b = (p ++ [c]) ++ b := by rw [List.append_assoc, List.singleton_append]
    cases covered with
    | succ k =>
      rw [matchesFrom, hlen, hlast] at hm
      rw [hline]
      exact ih _ _ _ m hm
    | zero =>
      rw [matchesFrom, hlen, hlast] at hm
      split at hm
      · rw [hline]
        exact ih _ _ _ m hm
      · next m' hnext =>
        rcases List.mem_cons.mp hm with rfl | hm
        · exact ⟨p, c :: b, rfl, matchAt?_of_nextAt? hnext⟩
        · rw [hline]
          exact ih _ _ _ m hm

theorem finds_of_mem_all {a : Pattern} {l : Line} {m : Match} (h : m ∈ a.all l) : a.Finds l m :=
  finds_of_mem_matchesFrom l [] 0 false m h

/-! ## what is read -/

/-- the pattern fits the stretch of the line -/
def Reads (a : Pattern) (l : Line) (s : Span) : Prop :=
  ∃ p x y gs, l = p ++ (x ++ y) ∧ a.Fits p x y gs ∧ s = ⟨p.length, p.length + x.length⟩

/-- the groups of a pattern, each with the pattern inside it -/
def groupsOf : Pattern → List (Nat × Pattern)
  | seq a b | alt a b => a.groupsOf ++ b.groupsOf
  | star a => a.groupsOf
  | group i a => (i, a) :: a.groupsOf
  | _ => []

/-- each of the groups `gs` is read by the pattern inside it -/
def GroupsRead (a : Pattern) (l : Line) (gs : List (Nat × Span)) : Prop :=
  ∀ g ∈ gs, ∃ b, (g.1, b) ∈ a.groupsOf ∧ b.Reads l g.2

theorem groupsRead_nil (a : Pattern) (l : Line) : a.GroupsRead l [] :=
  fun _ hg => absurd hg List.not_mem_nil

theorem GroupsRead.mono {a b : Pattern} {l : Line} {gs : List (Nat × Span)}
    (h : a.GroupsRead l gs) (hsub : ∀ k ∈ a.groupsOf, k ∈ b.groupsOf) : b.GroupsRead l gs := by
  intro g hg
  obtain ⟨c, hc, hreads⟩ := h g hg
  exact ⟨c, hsub _ hc, hreads⟩

theorem GroupsRead.append {a : Pattern} {l : Line} {gs gs' : List (Nat × Span)}
    (h : a.GroupsRead l gs) (h' : a.GroupsRead l gs') : a.GroupsRead l (gs' ++ gs) := by
  intro g hg
  rcases List.mem_append.mp hg with hg | hg
  · exact h' g hg
  · exact h g hg

theorem groupsRead_of_fits {a : Pattern} {p x y : Line} {gs : List (Nat × Span)}
    (h : a.Fits p x y gs) : a.GroupsRead (p ++ (x ++ y)) gs := by
  induction a generalizing p x y gs with
  | empty =>
    obtain ⟨-, rfl⟩ := h
    exact groupsRead_nil _ _
  | one f =>
    obtain ⟨c, -, -, rfl⟩ := h
    exact groupsRead_nil _ _
  | many f =>
    obtain ⟨-, rfl⟩ := h
    exact groupsRead_nil _ _
  | wordEdge =>
    obtain ⟨-, -, rfl⟩ := h
    exact groupsRead_nil _ _
  | lineStart =>
    obtain ⟨-, -, rfl⟩ := h
    exact groupsRead_nil _ _
  | lineEnd =>
    obtain ⟨-, -, rfl⟩ := h
    exact groupsRead_nil _ _
  | seq a b iha ihb =>
    obtain ⟨x₁, x₂, g₁, g₂, ha, hb, rfl, rfl⟩ := h
    have hleft := iha ha
    have hright := ihb hb
    rw [List.append_assoc] at hright ⊢
    exact (hleft.mono fun _ => List.mem_append_left _).append
      (hright.mono fun _ => List.mem_append_right _)
  | alt a b iha ihb =>
    rcases h with h | h
    · exact (iha h).mono fun _ => List.mem_append_left _
    · exact (ihb h).mono fun _ => List.mem_append_right _
  | star a iha =>
    replace h : Repeats (Fits a) p x y gs := h
    induction h with
    | done p y => exact groupsRead_nil _ _
    | more _ hstep _ hx hgs ih =>
      subst hx hgs
      have hfirst := iha hstep
      rw [List.append_assoc] at ih ⊢
      exact GroupsRead.append (hfirst.mono fun _ hk => hk) ih
  | group i a iha =>
    obtain ⟨g, ha, rfl⟩ := h
    intro k hk
    rcases List.mem_cons.mp hk with rfl | hk
    · exact ⟨a, List.mem_cons_self, p, x, y, g, rfl, ha, rfl⟩
    · exact (iha ha).mono (fun _ => List.mem_cons_of_mem _) k hk

/-- a match is read by its pattern, and each group by the pattern inside it -/
theorem reads_of_finds {a : Pattern} {l : Line} {m : Match} (h : a.Finds l m) :
    a.Reads l m.span ∧ a.GroupsRead l m.groups := by
  obtain ⟨p, b, rfl, hm⟩ := h
  obtain ⟨x, y, gs, rfl, hf, rfl⟩ := fits_of_matchAt? hm
  exact ⟨⟨p, x, y, gs, rfl, hf, rfl⟩, groupsRead_of_fits hf⟩

theorem reads_of_group? {a : Pattern} {l : Line} {m : Match} (h : a.Finds l m) {i : Nat} {s : Span}
    (hs : m.group? i = some s) : ∃ b, (i, b) ∈ a.groupsOf ∧ b.Reads l s :=
  (reads_of_finds h).2 _ (Match.mem_groups_of_group? hs)

/-! ## bounds -/

theorem within_of_reads {a : Pattern} {l : Line} {s : Span} (h : a.Reads l s) : s.Within l := by
  obtain ⟨p, x, y, gs, rfl, -, rfl⟩ := h
  refine ⟨Nat.le_add_right _ _, ?_⟩
  rw [List.length_append, List.length_append]
  exact Nat.add_le_add_left (Nat.le_add_right _ _) _

theorem within_of_group? {a : Pattern} {l : Line} {m : Match} (h : a.Finds l m) {i : Nat}
    {s : Span} (hs : m.group? i = some s) : s.Within l := by
  obtain ⟨b, -, hreads⟩ := reads_of_group? h hs
  exact within_of_reads hreads

/-- a match and its groups lie on the line -/
theorem within_of_finds {a : Pattern} {l : Line} {m : Match} (h : a.Finds l m) :
    m.span.Within l ∧ ∀ i, (m.group i).Within l := by
  have hspan := within_of_reads (reads_of_finds h).1
  refine ⟨hspan, fun i => ?_⟩
  rw [Match.group]
  cases hs : m.group? i with
  | none => exact hspan
  | some s => exact within_of_group? h hs

/-! ## patterns that take a character -/

/-- the pattern fits no empty text -/
def consumes : Pattern → Bool
  | one _ => true
  | seq a b => a.consumes || b.consumes
  | alt a b => a.consumes && b.consumes
  | group _ a => a.consumes
  | _ => false

theorem ne_nil_of_consumes {a : Pattern} (ha : a.consumes = true) {p x y : Line}
    {gs : List (Nat × Span)} (h : a.Fits p x y gs) : x ≠ [] := by
  induction a generalizing p x y gs with
  | one f =>
    obtain ⟨c, -, rfl, -⟩ := h
    exact List.cons_ne_nil _ _
  | seq a b iha ihb =>
    obtain ⟨x₁, x₂, g₁, g₂, hfa, hfb, rfl, -⟩ := h
    rcases Bool.or_eq_true_iff.mp ha with ha | hb
    · exact List.append_ne_nil_of_left_ne_nil (iha ha hfa) _
    · exact List.append_ne_nil_of_right_ne_nil _ (ihb hb hfb)
  | alt a b iha ihb =>
    obtain ⟨ha, hb⟩ := Bool.and_eq_true_iff.mp ha
    rcases h with h | h
    · exact iha ha h
    · exact ihb hb h
  | group i a iha =>
    obtain ⟨g, hf, -⟩ := h
    exact iha ha hf
  | _ => cases ha

theorem nonempty_of_reads {a : Pattern} (ha : a.consumes = true) {l : Line} {s : Span}
    (h : a.Reads l s) : s.start < s.stop := by
  obtain ⟨p, x, y, gs, rfl, hf, rfl⟩ := h
  exact Nat.lt_add_of_pos_right (List.length_pos_iff.mpr (ne_nil_of_consumes ha hf))

/-- a match and its groups are not empty if the pattern and its groups take a character -/
theorem nonempty_of_finds {a : Pattern} (ha : a.consumes = true)
    (hgroups : (a.groupsOf.all fun k => k.2.consumes) = true) {l : Line} {m : Match}
    (h : a.Finds l m) : m.span.start < m.span.stop ∧ ∀ i, (m.group i).start < (m.group i).stop := by
  have hspan := nonempty_of_reads ha (reads_of_finds h).1
  refine ⟨hspan, fun i => ?_⟩
  rw [Match.group]
  cases hs : m.group? i with
  | none => exact hspan
  | some s =>
    obtain ⟨b, hb, hreads⟩ := reads_of_group? h hs
    exact nonempty_of_reads (List.all_eq_true.mp hgroups _ hb) hreads

end Pattern
end LanguageService
