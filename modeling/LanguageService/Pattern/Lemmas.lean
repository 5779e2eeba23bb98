import LanguageService.Pattern.Match

/-!
# Readings and matches, one construct at a time

* `mem_run_one`, `mem_run_seq`, …   which readings a pattern has, by its outermost construct
* `firstFrom_eq_none_iff`           there is no match exactly when none begins at any place
-/

namespace LanguageService

namespace Pattern

theorem run_empty (s : Reading) : run empty s = [s] := rfl

theorem run_seq (a b : Pattern) (s : Reading) : run (seq a b) s = (run a s).flatMap (run b) := rfl

theorem run_alt (a b : Pattern) (s : Reading) : run (alt a b) s = run a s ++ run b s := rfl

theorem mem_run_seq {a b : Pattern} {s t : Reading} :
    t ∈ run (seq a b) s ↔ ∃ r ∈ run a s, t ∈ run b r := by
  rw [run_seq, List.mem_flatMap]

theorem mem_run_alt {a b : Pattern} {s t : Reading} :
    t ∈ run (alt a b) s ↔ t ∈ run a s ∨ t ∈ run b s := by
  rw [run_alt, List.mem_append]

theorem mem_run_one {p : Char → Bool} {s t : Reading} :
    t ∈ run (one p) s ↔ ∃ c rest, s.cursor.rest = c :: rest ∧ p c = true ∧
      t = { s with cursor := ⟨s.cursor.pos + 1, some c, rest⟩ } := by
  obtain ⟨⟨pos, before, rest⟩, groups⟩ := s
  cases rest with
  | nil => simp [run]
  | cons c rest =>
    constructor
    · intro h
      simp only [run] at h
      split at h
      · next hp => exact ⟨c, rest, rfl, hp, List.mem_singleton.mp h⟩
      · exact absurd h List.not_mem_nil
    · rintro ⟨d, rest', hrest, hp, rfl⟩
      obtain ⟨rfl, rfl⟩ := List.cons.inj hrest
      simp only [run]
      rw [if_pos hp]
      exact List.mem_singleton.mpr rfl

theorem mem_run_wordEdge {s t : Reading} :
    t ∈ run wordEdge s ↔ s.cursor.isWordEdge = true ∧ t = s := by
  simp only [run]
  by_cases h : s.cursor.isWordEdge = true
  · rw [if_pos h, List.mem_singleton]
    exact ⟨fun e => ⟨h, e⟩, fun e => e.2⟩
  · rw [if_neg h]
    exact ⟨fun e => absurd e List.not_mem_nil, fun e => absurd e.1 h⟩

/-- there is no match exactly when none begins at any place -/
theorem firstFrom_eq_none_iff (a : Pattern) (pos : Nat) (before : Option Char) (l : Line) :
    a.firstFrom pos before l = none ↔
      ∀ k ≤ l.length, a.matchAt? (Cursor.advance k ⟨pos, before, l⟩) = none := by
  induction l generalizing pos before with
  | nil =>
    refine ⟨fun h k hk => ?_, fun h => h 0 (Nat.le_refl 0)⟩
    obtain rfl := Nat.le_zero.mp hk
    exact h
  | cons c rest ih =>
    unfold firstFrom
    constructor
    · intro h k hk
      split at h
      · exact absurd h (by simp)
      · next h0 =>
        cases k with
        | zero => exact h0
        | succ k => exact (ih (pos + 1) (some c)).mp h k (Nat.le_of_succ_le_succ hk)
    · intro h
      split
      · next m hm => rw [← hm]; exact h 0 (Nat.zero_le _)
      · exact (ih (pos + 1) (some c)).mpr fun k hk => h (k + 1) (Nat.succ_le_succ hk)

end Pattern
end LanguageService
