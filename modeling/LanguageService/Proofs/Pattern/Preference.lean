import LanguageService.Proofs.Pattern.Fits

/-!
# The preferred reading

Where a pattern fits several texts, the first reading in order of preference is its match.  A
repetition of characters prefers as many as there are; a sequence whose first part can go on in one
way only leaves the preference to its second part; and an alternative prefers its left side.

* `exists_of_head?_run_seq`   the preferred reading of a sequence, part by part
* `head?_manyFrom`, `matchAt?_many1`   a repetition takes all that it can
* `matchAt?_seq_of_unique`    a sequence whose first part can go on in one way only
* `matchAt?_seq_alt`          an alternative in front of a sequence
* `ReadsOnly`                 a text that is read in one way only, part by part
-/

namespace LanguageService
namespace Pattern

theorem exists_of_head?_run_seq {a b : Pattern} {s t : Reading}
    (h : (run (seq a b) s).head? = some t) : ∃ r ∈ run a s, (run b r).head? = some t := by
  rw [run_seq, List.head?_flatMap] at h
  exact List.exists_of_findSome?_eq_some h

/-! ## repetitions -/

theorem head?_manyFrom (f : Char → Bool) (b p : Line) (acc : List Cursor) :
    (manyFrom f p.length p.getLast? acc b).head? =
      some (.between (p ++ b.takeWhile f) (b.dropWhile f)) := by
  induction b generalizing p acc with
  | nil =>
    rw [List.takeWhile_nil, List.append_nil]
    rfl
  | cons c b ih =>
    have hlen : p.length + 1 = (p ++ [c]).length := by
      rw [List.length_append, List.length_singleton]
    have hlast : some c = (p ++ [c]).getLast? := by simp
    unfold manyFrom
    by_cases hc : f c = true
    · rw [if_pos hc, List.takeWhile_cons, if_pos hc, List.dropWhile_cons, if_pos hc, hlen, hlast,
        ih, List.append_assoc]
      rfl
    · rw [if_neg hc, List.takeWhile_cons, if_neg hc, List.dropWhile_cons, if_neg hc,
        List.append_nil]
      rfl

theorem matchAt?_many1 (f : Char → Bool) (p b : Line) :
    (many1 f).matchAt? (.between p b) = if (b.takeWhile f).length = 0 then none
      else some ⟨⟨p.length, p.length + (b.takeWhile f).length⟩, []⟩ := by
  cases b with
  | nil => rfl
  | cons c b =>
    have hone : run (one f) ⟨.between p (c :: b), []⟩ =
        if f c then [⟨.between (p ++ [c]) b, []⟩] else [] := by
      rw [← Cursor.between_step]
      rfl
    rw [matchAt?, many1, run_seq, hone, List.takeWhile_cons]
    by_cases hc : f c = true
    · have hmany : run (many f) ⟨.between (p ++ [c]) b, []⟩ =
          (manyFrom f (p ++ [c]).length (p ++ [c]).getLast? [] b).map fun k => ⟨k, []⟩ := rfl
      have hlen : (p ++ [c] ++ b.takeWhile f).length = p.length + (c :: b.takeWhile f).length := by
        rw [List.append_assoc, List.length_append, List.singleton_append]
      have hne : (c :: b.takeWhile f).length ≠ 0 := Nat.succ_ne_zero _
      rw [if_pos hc, if_pos hc, List.flatMap_singleton, hmany, List.head?_map, head?_manyFrom,
        if_neg hne, ← hlen]
      rfl
    · rw [if_neg hc, if_neg hc]
      rfl

/-! ## sequences -/

/-- If all readings of a sequence begin with the same one of its first part, then the second part
decides from there on. -/
theorem matchAt?_seq_of_unique {a b : Pattern} {p x y : Line} (ha : a.Fits p x y [])
    (honly : ∀ x₁ x₂ z g₁ g₂, x ++ y = x₁ ++ (x₂ ++ z) → a.Fits p x₁ (x₂ ++ z) g₁ →
      b.Fits (p ++ x₁) x₂ z g₂ → x₁ = x ∧ g₁ = []) :
    (seq a b).matchAt? (.between p (x ++ y)) =
      (b.matchAt? (.between (p ++ x) y)).map fun m => ⟨⟨p.length, m.span.stop⟩, m.groups⟩ := by
  have hx : (⟨.between (p ++ x) y, []⟩ : Reading) ∈ run a ⟨.between p (x ++ y), []⟩ :=
    (mem_run_iff a p _ [] _).mpr ⟨x, y, [], rfl, ha, rfl⟩
  have hothers : ∀ r ∈ run a ⟨.between p (x ++ y), []⟩, ∀ t, (run b r).head? = some t →
      r = ⟨.between (p ++ x) y, []⟩ := by
    intro r hr t ht
    obtain ⟨x₁, y₁, g₁, hxy, hfa, rfl⟩ := (mem_run_iff a p _ [] r).mp hr
    obtain ⟨x₂, z, g₂, rfl, hfb, -⟩ := (mem_run_iff b (p ++ x₁) y₁ _ t).mp (List.mem_of_head? ht)
    obtain ⟨rfl, rfl⟩ := honly x₁ x₂ z g₁ g₂ hxy hfa hfb
    rw [List.append_cancel_left hxy]
    rfl
  have hhead : (run (seq a b) ⟨.between p (x ++ y), []⟩).head? =
      (run b ⟨.between (p ++ x) y, []⟩).head? := by
    cases h : (run (seq a b) ⟨.between p (x ++ y), []⟩).head? with
    | none =>
      rw [run_seq, List.head?_flatMap] at h
      exact (List.findSome?_eq_none_iff.mp h _ hx).symm
    | some t =>
      obtain ⟨r, hr, ht⟩ := exists_of_head?_run_seq h
      rw [← hothers r hr t ht, ht]
  rw [matchAt?, hhead, matchAt?, Option.map_map]
  rfl

theorem matchAt?_seq_alt (a b c : Pattern) (k : Cursor) :
    (seq (alt a b) c).matchAt? k = ((seq a c).matchAt? k).or ((seq b c).matchAt? k) := by
  rw [matchAt?, run_seq, run_alt, List.flatMap_append, List.head?_append, Option.map_or]
  rfl

/-! ## texts that are read in one way only -/

/-- The pattern reads `x` between `p` and `y`, and nothing else of the text behind `p`. -/
structure ReadsOnly (a : Pattern) (p x y : Line) (gs : List (Nat × Span)) : Prop where
  fits : a.Fits p x y gs
  only : ∀ x' y' gs', x ++ y = x' ++ y' → a.Fits p x' y' gs' → x' = x ∧ gs' = gs

namespace ReadsOnly

variable {a b : Pattern} {p x y : Line} {gs : List (Nat × Span)}

theorem matchAt?_eq (h : a.ReadsOnly p x y gs) : a.matchAt? (.between p (x ++ y)) =
    some ⟨⟨p.length, p.length + x.length⟩, gs⟩ :=
  matchAt?_eq_some_of_unique h.fits h.only

theorem literal (t : Line) (p y : Line) : (literal t).ReadsOnly p t y [] where
  fits := (fits_literal t).mpr ⟨rfl, rfl⟩
  only := fun _ _ _ _ hf => (fits_literal t).mp hf

/-- A part that the rest of the pattern can follow in one way only. -/
theorem seq {x₁ x₂ : Line} {g₁ g₂ : List (Nat × Span)} (ha : a.Fits p x₁ (x₂ ++ y) g₁)
    (honly : ∀ x t g, x₁ ++ (x₂ ++ y) = x ++ t → a.Fits p x t g →
      (∃ z z' g', t = z ++ z' ∧ b.Fits (p ++ x) z z' g') → x = x₁ ∧ g = g₁)
    (hb : b.ReadsOnly (p ++ x₁) x₂ y g₂) :
    (seq a b).ReadsOnly p (x₁ ++ x₂) y (g₂ ++ g₁) where
  fits := ⟨x₁, x₂, g₁, g₂, ha, hb.fits, rfl, rfl⟩
  only := by
    rintro _ y' _ hxy ⟨v, z, g, g', hv, hz, rfl, rfl⟩
    rw [List.append_assoc, List.append_assoc] at hxy
    obtain ⟨rfl, rfl⟩ := honly v (z ++ y') g hxy hv ⟨z, y', g', rfl, hz⟩
    obtain ⟨rfl, rfl⟩ := hb.only z y' g' (List.append_cancel_left hxy) hz
    exact ⟨rfl, rfl⟩

theorem literal_seq (t : Line) (hb : b.ReadsOnly (p ++ t) x y gs) :
    (Pattern.seq (.literal t) b).ReadsOnly p (t ++ x) y gs := by
  have h := seq ((fits_literal t).mpr ⟨rfl, rfl⟩) (fun _ _ _ _ hf _ => (fits_literal t).mp hf) hb
  rwa [List.append_nil] at h

theorem skip_seq (ha : a.ReadsOnly p [] (x ++ y) []) (hb : b.ReadsOnly p x y gs) :
    (Pattern.seq a b).ReadsOnly p x y gs := by
  have h := seq ha.fits (fun v t g hxy hf _ => ha.only v t g hxy hf) (by rwa [List.append_nil])
  rwa [List.append_nil] at h

end ReadsOnly

end Pattern
end LanguageService
