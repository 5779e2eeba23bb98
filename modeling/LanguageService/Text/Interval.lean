/-!
# Sets of code points as interval lists

A character property of the Unicode standard is written as the increasing list of the closed
intervals of code points that have it.

* `Intervals.has n t`   is `n` in one of the intervals of `t`?
* `Intervals.has_iff`   on an increasing list, exactly when some listed interval holds `n`.
-/

namespace LanguageService

/-- Increasing, disjoint closed intervals of code points. -/
abbrev Intervals := List (Nat × Nat)

namespace Intervals

/-- Membership; the search stops at the first interval that begins after `n`. -/
def has (n : Nat) : Intervals → Bool
  | [] => false
  | (lo, hi) :: rest => if n < lo then false else if n ≤ hi then true else has n rest

/-- Each interval ends before the next one begins. -/
def Increasing (t : Intervals) : Prop :=
  t.Pairwise fun a b => a.2 < b.1

theorem has_iff {t : Intervals} (ht : Increasing t) (hne : ∀ r ∈ t, r.1 ≤ r.2) (n : Nat) :
    has n t = true ↔ ∃ r ∈ t, r.1 ≤ n ∧ n ≤ r.2 := by
  induction t with
  | nil => simp [has]
  | cons r rest ih =>
    obtain ⟨hr, hrest⟩ := List.pairwise_cons.mp ht
    have ih' := ih hrest fun q hq => hne q (List.mem_cons_of_mem _ hq)
    have h0 := hne r List.mem_cons_self
    unfold has
    split
    · next hlo =>
      refine ⟨fun h => absurd h Bool.false_ne_true, ?_⟩
      rintro ⟨q, hq, h1, h2⟩
      rcases List.mem_cons.mp hq with rfl | hq
      · exact absurd h1 (by omega)
      · have := hr q hq
        omega
    · next hlo =>
      split
      · next hhi => exact ⟨fun _ => ⟨r, List.mem_cons_self, by omega, hhi⟩, fun _ => rfl⟩
      · next hhi =>
        rw [ih']
        refine ⟨fun ⟨q, hq, h⟩ => ⟨q, List.mem_cons_of_mem _ hq, h⟩, ?_⟩
        rintro ⟨q, hq, h1, h2⟩
        rcases List.mem_cons.mp hq with rfl | hq
        · exact absurd h2 hhi
        · exact ⟨q, hq, h1, h2⟩

end Intervals
end LanguageService
