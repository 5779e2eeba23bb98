import LanguageService.Proofs.Pattern.Preference
import LanguageService.Proofs.Pattern.Successive

/-!
# Matches found by a scanner

Where the text from a place on decides whether a pattern matches there, and how far, the matches on
a line are what a scanner takes from it.

* `Pattern.TakenBy a reach l`   at each place of the line the match takes what `reach` says
* `all_eq_scan`                 then the matches are the stretches that the scanner takes
* `takenBy_of_fits`             a pattern with one reading at most
* `takenBy_many1`               a repetition of characters
-/

namespace LanguageService
namespace Pattern

/-- At each place of the line the match takes as many characters as `reach` says of the text from
there on, and there is none if it says 0.  A match closes no group. -/
def TakenBy (a : Pattern) (reach : Line → Nat) (l : Line) : Prop :=
  ∀ p b, l = p ++ b → a.matchAt? (.between p b) =
    if reach b = 0 then none else some ⟨⟨p.length, p.length + reach b⟩, []⟩

variable {a : Pattern} {reach : Line → Nat} {l : Line}

theorem matchesFrom_eq_scanFrom (hne : a.NeverEmpty) (h : a.TakenBy reach l) (b p : Line)
    (covered : Nat) (touching : Bool) (hl : l = p ++ b) :
    a.matchesFrom p.length p.getLast? covered touching b =
      (scanFrom reach p.length covered b).map fun s => ⟨s, []⟩ := by
  induction b generalizing p covered touching with
  | nil =>
    cases covered with
    | succ k => rfl
    | zero =>
      rw [matchesFrom_nil hne, matchAt?_end hne]
      rfl
  | cons c b ih =>
    have hlen : (p ++ [c]).length = p.length + 1 := by
      rw [List.length_append, List.length_singleton]
    have hnext : l = p ++ [c] ++ b := by rw [List.append_assoc, List.singleton_append, hl]
    cases covered with
    | succ k =>
      rw [matchesFrom_inside, ih _ k touching hnext, hlen]
      rfl
    | zero =>
      rw [matchesFrom_cons hne, h p (c :: b) hl, scanFrom]
      cases hreach : reach (c :: b) with
      | zero =>
        rw [if_pos rfl, ← hlen]
        exact ih _ 0 false hnext
      | succ n =>
        have hcovered : p.length + (n + 1) - p.length - 1 = n := by omega
        rw [if_neg (Nat.succ_ne_zero n)]
        simp only
        rw [hcovered, ih _ n true hnext, hlen]
        rfl

/-- The matches on the line are the stretches that the scanner takes. -/
theorem all_eq_scan (hne : a.NeverEmpty) (h : a.TakenBy reach l) :
    a.all l = (scan reach l).map fun s => ⟨s, []⟩ :=
  matchesFrom_eq_scanFrom hne h l [] 0 false rfl

/-- A pattern whose readings all have the length that `reach` says, and that has one wherever this
is not 0. -/
theorem takenBy_of_fits (ha : a.consumes = true)
    (sound : ∀ p x y gs, a.Fits p x y gs → x.length = reach (x ++ y) ∧ gs = [])
    (complete : ∀ p b, l = p ++ b → reach b ≠ 0 → ∃ x y, b = x ++ y ∧ a.Fits p x y []) :
    a.TakenBy reach l := by
  intro p b hl
  by_cases h0 : reach b = 0
  · rw [if_pos h0, matchAt?_eq_none_iff]
    intro x y gs hb hf
    have hlen := (sound p x y gs hf).1
    rw [← hb, h0] at hlen
    exact ne_nil_of_consumes ha hf (List.eq_nil_of_length_eq_zero hlen)
  · obtain ⟨x, y, rfl, hf⟩ := complete p b hl h0
    have hlen := (sound p x y [] hf).1
    rw [if_neg h0, ← hlen]
    refine matchAt?_eq_some_of_unique hf ?_
    intro x' y' gs hxy hf'
    obtain ⟨hlen', hgs⟩ := sound p x' y' gs hf'
    rw [← hxy, ← hlen] at hlen'
    exact ⟨(List.append_inj_left hxy hlen'.symm).symm, hgs⟩

theorem takenBy_many1 (f : Char → Bool) (l : Line) : (many1 f).TakenBy (runLength f) l :=
  fun p b _ => matchAt?_many1 f p b

theorem all_many1 (f : Char → Bool) (l : Line) :
    (many1 f).all l = (maximalRuns f l).map fun s => ⟨s, []⟩ :=
  all_eq_scan (neverEmpty_of_consumes rfl) (takenBy_many1 f l)

end Pattern
end LanguageService
