import LanguageService.Proofs.Language.Calls
import LanguageService.Proofs.Pattern.Successive

/-!
# Calls of a given name

The name may be any text.  A text with a parenthesis in it can begin inside a call of itself, and
then only one of both is found; calls of other names never overlap.

* `CallText name l s`         a call of the name, by the text around it
* `CallText.eq_of_start_eq`   calls that begin at the same place
* `CallText.eq_of_overlap`    calls of a name without parentheses
* `finds_call_iff`            the matches of the pattern
* `successive_call`           the calls that are found on a line
-/

namespace LanguageService

/-- A word edge, the name, white space and an opening parenthesis: `s` is what the last three
cover. -/
def CallText (name l : Line) (s : Span) : Prop :=
  ∃ p gap y, l = p ++ (name ++ (gap ++ '(' :: y)) ∧ AllBlank gap ∧
    endsInWord p ≠ startsInWord (name ++ (gap ++ '(' :: y)) ∧
    s = ⟨p.length, p.length + (name.length + (gap.length + 1))⟩

theorem paren_not_mem_of_blank {g : Line} (hg : AllBlank g) : '(' ∉ g := by
  intro hmem
  have hblank := hg _ hmem
  rw [not_isBlank_paren] at hblank
  cases hblank

theorem paren_unique {x x' y y' : Line} (hx : '(' ∉ x) (hx' : '(' ∉ x')
    (h : x ++ '(' :: y = x' ++ '(' :: y') : x = x' ∧ y = y' := by
  have hplain : ∀ {z : Line}, '(' ∉ z → ∀ c ∈ z, (c != '(') = true := by
    intro z hz c hc
    rw [bne_iff_ne]
    rintro rfl
    exact hz hc
  obtain ⟨rfl, htail⟩ := run_unique (p := (· != '(')) (hplain hx) rfl (hplain hx') rfl h
  exact ⟨rfl, (List.cons.inj htail).2⟩

section
variable {name l : Line} {s t : Span}

theorem CallText.start_lt_stop (h : CallText name l s) : s.start < s.stop := by
  obtain ⟨p, gap, y, -, -, -, rfl⟩ := h
  show p.length < p.length + (name.length + (gap.length + 1))
  omega

theorem CallText.stop_le (h : CallText name l s) : s.stop ≤ l.length := by
  obtain ⟨p, gap, y, rfl, -, -, rfl⟩ := h
  simp only [List.length_append, List.length_cons]
  omega

theorem CallText.eq_of_start_eq (hs : CallText name l s) (ht : CallText name l t)
    (hstart : s.start = t.start) : s = t := by
  obtain ⟨p, g, y, hl, hg, -, rfl⟩ := hs
  obtain ⟨p', g', y', hl', hg', -, rfl⟩ := ht
  obtain ⟨rfl, htail⟩ := List.append_inj (hl.symm.trans hl') hstart
  obtain ⟨rfl, -⟩ := paren_unique (paren_not_mem_of_blank hg) (paren_not_mem_of_blank hg')
    (List.append_cancel_left htail)
  rfl

/-- If a text moves to the right along itself over blanks, then it moves over blanks only. -/
theorem allBlank_of_shifted {u x g g' : Line} (hg : AllBlank g) (hg' : AllBlank g')
    (h : u ++ (x ++ g') = x ++ g) : AllBlank u := by
  have hnone : ∀ {z : Line}, AllBlank z → z.countP (fun c => !isBlank c) = 0 := by
    intro z hz
    rw [List.countP_eq_zero]
    intro c hc
    rw [hz c hc]
    decide
  have hcount := congrArg (List.countP fun c => !isBlank c) h
  rw [List.countP_append, List.countP_append, List.countP_append, hnone hg, hnone hg'] at hcount
  have hu : u.countP (fun c => !isBlank c) = 0 := by omega
  intro c hc
  by_contra hblank
  exact List.countP_eq_zero.mp hu c hc (by rw [Bool.eq_false_iff.mpr hblank]; rfl)

/-- Between blanks there is no word edge, so a call does not begin inside another one. -/
theorem CallText.eq_of_overlap (hname : '(' ∉ name) (hs : CallText name l s)
    (ht : CallText name l t) (hle : s.start ≤ t.start) (hlt : t.start < s.stop) : s = t := by
  refine hs.eq_of_start_eq ht (Nat.le_antisymm hle (Nat.le_of_not_lt fun hafter => ?_))
  obtain ⟨p, g, y, hl, hg, -, rfl⟩ := hs
  obtain ⟨p', g', y', hl', hg', hedge, rfl⟩ := ht
  have hpg : '(' ∉ name ++ g := by
    rw [List.mem_append, not_or]
    exact ⟨hname, paren_not_mem_of_blank hg⟩
  -- what stands between the two starts
  obtain ⟨u, rfl⟩ : p <+: p' := List.prefix_of_prefix_length_le
    ⟨_, hl.symm⟩ ⟨_, hl'.symm⟩ hle
  have hline : u ++ (name ++ (g' ++ '(' :: y')) = name ++ (g ++ '(' :: y) := by
    rw [hl, List.append_assoc] at hl'
    exact (List.append_cancel_left hl').symm
  simp only [List.length_append] at hlt hafter
  have hu : u <+: name ++ g := by
    refine List.prefix_of_prefix_length_le ⟨_, hline⟩ ⟨'(' :: y, List.append_assoc _ _ _⟩ ?_
    rw [List.length_append]
    omega
  have hplain : '(' ∉ u ++ (name ++ g') := by
    simp only [List.mem_append, not_or]
    exact ⟨fun hmem => hpg (hu.subset hmem), hname, paren_not_mem_of_blank hg'⟩
  have hparens : (u ++ (name ++ g')) ++ '(' :: y' = (name ++ g) ++ '(' :: y := by
    simpa only [List.append_assoc] using hline
  have hshifted : u ++ (name ++ g') = name ++ g := (paren_unique hplain hpg hparens).1
  have hblank := allBlank_of_shifted hg hg' hshifted
  have hne : u ≠ [] := by
    rintro rfl
    simp at hafter
  have hbefore : endsInWord (p ++ u) = false := by
    rw [endsInWord_append p hne, endsInWord_of_blank hblank]
  have hbehind : startsInWord (name ++ (g' ++ '(' :: y')) = false := by
    cases name with
    | nil =>
      cases g' with
      | nil => exact not_isWord_paren
      | cons c g' => exact not_isWord_of_isBlank (hg' c List.mem_cons_self)
    | cons c name =>
      -- the name begins like what stands before it
      obtain ⟨d, u, rfl⟩ := List.exists_cons_of_ne_nil hne
      obtain ⟨rfl, -⟩ := List.cons.inj hshifted
      exact not_isWord_of_isBlank (hblank d List.mem_cons_self)
  exact hedge (hbefore.trans hbehind.symm)

end

/-! ## matches -/

namespace Pattern

theorem fits_namedCall {name : String} {p x y : Line} {gs : List (Nat × Span)} :
    Fits (Shape.call name) p x y gs ↔ endsInWord p ≠ startsInWord (x ++ y) ∧
      ∃ g, x = name.toList ++ (g ++ ['(']) ∧ AllBlank g ∧ gs = [] := by
  show Fits (seq wordEdge (seq (nameText name) (seq blanks (literal ['('])))) p x y gs ↔ _
  rw [fits_wordEdge_seq]
  refine and_congr_right fun _ => ?_
  constructor
  · rintro ⟨_, _, _, _, hname, ⟨g, _, _, _, hblanks, hparen, rfl, rfl⟩, rfl, rfl⟩
    obtain ⟨rfl, rfl⟩ := fits_nameText.mp hname
    obtain ⟨hg, rfl⟩ := fits_blanks.mp hblanks
    obtain ⟨rfl, rfl⟩ := (fits_literal _).mp hparen
    exact ⟨g, rfl, hg, rfl⟩
  · rintro ⟨g, rfl, hg, rfl⟩
    exact ⟨name.toList, g ++ ['('], [], [], fits_nameText.mpr ⟨rfl, rfl⟩,
      ⟨g, ['('], [], [], fits_blanks.mpr ⟨hg, rfl⟩, (fits_literal _).mpr ⟨rfl, rfl⟩, rfl, rfl⟩,
      rfl, rfl⟩

theorem finds_call_iff {name : String} {l : Line} {s : Span} :
    (∃ m, (Shape.call name).Finds l m ∧ m.span = s) ↔ CallText name.toList l s := by
  have hassoc (g y : Line) : name.toList ++ (g ++ ['(']) ++ y = name.toList ++ (g ++ '(' :: y) := by
    simp only [List.append_assoc, List.singleton_append]
  have hlen (g : Line) :
      (name.toList ++ (g ++ ['('])).length = name.toList.length + (g.length + 1) := by
    simp only [List.length_append, List.length_singleton]
  constructor
  · rintro ⟨m, ⟨p, b, rfl, hm⟩, rfl⟩
    obtain ⟨x, y, gs, rfl, hf, rfl⟩ := fits_of_matchAt? hm
    obtain ⟨hedge, g, rfl, hg, rfl⟩ := fits_namedCall.mp hf
    rw [hassoc] at hedge
    exact ⟨p, g, y, by rw [hassoc], hg, hedge, by rw [hlen]⟩
  · rintro ⟨p, g, y, rfl, hg, hedge, rfl⟩
    rw [← hassoc, ← hlen]
    rw [← hassoc] at hedge
    have hfits : Fits (Shape.call name) p (name.toList ++ (g ++ ['('])) y [] :=
      fits_namedCall.mpr ⟨hedge, g, rfl, hg, rfl⟩
    refine ⟨_, ⟨p, _, rfl, matchAt?_eq_some_of_unique hfits ?_⟩, rfl⟩
    intro x' y' gs' hline hf
    obtain ⟨-, g', rfl, hg', rfl⟩ := fits_namedCall.mp hf
    rw [hassoc, hassoc] at hline
    obtain ⟨rfl, -⟩ := paren_unique (paren_not_mem_of_blank hg) (paren_not_mem_of_blank hg')
      (List.append_cancel_left hline)
    exact ⟨rfl, rfl⟩

theorem neverEmpty_call (name : String) : (Shape.call name).NeverEmpty := by
  refine neverEmpty_of_consumes ?_
  show (false || ((nameText name).consumes || (false || true))) = true
  rw [Bool.false_or, Bool.false_or, Bool.or_true]

theorem successive_call (name : String) (l : Line) :
    Successive (CallText name.toList l) (((Shape.call name).all l).map Match.span) := by
  have hall := successive_all (neverEmpty_call name) l
  have hcalls : (fun s => ∃ m, (Shape.call name).Finds l m ∧ m.span = s) =
      CallText name.toList l :=
    funext fun s => propext finds_call_iff
  rwa [hcalls] at hall

end Pattern

theorem Successive.eq_call {name : String} {l : Line} {spans : List Span}
    (h : Successive (CallText name.toList l) spans) :
    spans = ((Shape.call name).all l).map Match.span :=
  Successive.unique (fun _ hs => Nat.le_of_lt hs.start_lt_stop)
    (fun _ _ hs ht => hs.eq_of_start_eq ht) h (Pattern.successive_call name l)

/-- all calls of a name without parentheses are found -/
theorem mem_call_iff {name : String} (hname : '(' ∉ name.toList) {l : Line} {s : Span} :
    s ∈ ((Shape.call name).all l).map Match.span ↔ CallText name.toList l s := by
  have hsuccessive := Pattern.successive_call name l
  constructor
  · exact hsuccessive.found s
  · intro hs
    obtain ⟨t, ht, hle, hlt⟩ := hsuccessive.complete s hs
    rwa [← (hsuccessive.found t ht).eq_of_overlap hname hs hle hlt]

end LanguageService
