import LanguageService.Proofs.Source.Correspondence
import LanguageService.Proofs.Text.Margins

/-!
# Lines with other margins

Lines with the same trimmed text are the same to the analysis: only columns move, by the difference
of the left margins.

* `IgnoresMargin Tail`   white space behind a declaration is no part of it
* `DeclaredAt.margins`, `DeclaredAt.inner`   a declaration lies between the margins of its line
* `Shifted l l'`         places that move with the left margin
* `lineMatch_of_trim_eq` lines with one trimmed text correspond
-/

namespace LanguageService

/-- UTF-16 units of the white space in front -/
def marginWidth (l : Line) : Nat :=
  width (l.takeWhile isBlank)

/-- Both ends of the span move with the left margin. -/
def Shifted (l l' : Line) (s s' : Span) : Prop :=
  column l' s'.start + marginWidth l = column l s.start + marginWidth l' ∧
    column l' s'.stop + marginWidth l = column l s.stop + marginWidth l'

/-! ## tails -/

/-- White space at the end does not matter. -/
def IgnoresMargin (Tail : Line → Prop) : Prop :=
  ∀ r h, AllBlank h → (Tail (r ++ h) ↔ Tail r)

theorem variableTail_margin : IgnoresMargin VariableTail := by
  intro r h hh
  constructor
  · rintro ⟨g, s, heq, hg⟩
    obtain ⟨s₀, -, hr⟩ := suffix_of_blank hh not_isBlank_eq heq
    exact ⟨g, s₀, hr, hg⟩
  · rintro ⟨g, s, rfl, hg⟩
    exact ⟨g, s ++ h, List.append_assoc _ _ _, hg⟩

theorem functionTail_margin : IgnoresMargin FunctionTail := by
  intro r h hh
  constructor
  · rintro ⟨g, g', s, heq, hg, hg', hs⟩
    have hsplit : r ++ h = (g ++ '=' :: (g' ++ ['f', 'u', 'n'])) ++ 'c' :: s := by
      rw [heq]
      simp only [List.append_assoc, List.cons_append]
      rfl
    obtain ⟨s₀, rfl, hr⟩ := suffix_of_blank hh (by decide) hsplit
    rw [startsInWord_append_right hh] at hs
    refine ⟨g, g', s₀, ?_, hg, hg', hs⟩
    rw [hr]
    simp only [List.append_assoc, List.cons_append]
    rfl
  · rintro ⟨g, g', s, rfl, hg, hg', hs⟩
    refine ⟨g, g', s ++ h, ?_, hg, hg', by rwa [startsInWord_append_right hh]⟩
    simp only [List.append_assoc, List.cons_append]

theorem importTail_margin : IgnoresMargin ImportTail := by
  intro r h hh
  cases r with
  | nil =>
    have hblank : ImportTail h := by
      have := head?_any_of_blank hh (b := []) rfl
      rwa [List.append_nil] at this
    exact ⟨fun _ => rfl, fun _ => hblank⟩
  | cons c r => exact Iff.rfl

theorem assignmentTail_margin : IgnoresMargin AssignmentTail := by
  intro r h hh
  constructor
  · rintro ⟨g, g', c, s, heq, hg, hg', hc, hblank⟩
    have hsplit : r ++ h = (g ++ '=' :: g') ++ c :: s := by
      rw [heq, List.append_assoc, List.cons_append]
    obtain ⟨s₀, -, hr⟩ := suffix_of_blank hh hblank hsplit
    exact ⟨g, g', c, s₀, by rw [hr, List.append_assoc, List.cons_append], hg, hg', hc, hblank⟩
  · rintro ⟨g, g', c, s, rfl, hg, hg', hc, hblank⟩
    refine ⟨g, g', c, s ++ h, ?_, hg, hg', hc, hblank⟩
    simp only [List.append_assoc, List.cons_append]

/-! ## between the margins -/

theorem trimmed_of_words {w v : Line} (hw : IsWordText w) (hv : IsWordText v) (x : Line) :
    Trimmed (w ++ (x ++ v)) := by
  obtain ⟨c, y, rfl⟩ := List.exists_cons_of_ne_nil hw.ne_nil
  obtain ⟨z, d, rfl⟩ := (List.eq_nil_or_concat v).resolve_left hv.ne_nil
  rw [List.concat_eq_append] at hv ⊢
  refine ⟨not_isBlank_of_isWord (hw.isWord c List.mem_cons_self), ?_⟩
  rw [← List.append_assoc, ← List.append_assoc, List.getLast?_concat]
  exact not_isBlank_of_isWord (hv.isWord d (by simp))

theorem IsWordText.trimmed {w : Line} (hw : IsWordText w) : Trimmed w := by
  refine ⟨?_, ?_⟩
  · obtain ⟨c, y, rfl⟩ := List.exists_cons_of_ne_nil hw.ne_nil
    exact not_isBlank_of_isWord (hw.isWord c List.mem_cons_self)
  · obtain ⟨z, d, rfl⟩ := (List.eq_nil_or_concat w).resolve_left hw.ne_nil
    rw [List.concat_eq_append] at hw ⊢
    rw [List.getLast?_concat]
    exact not_isBlank_of_isWord (hw.isWord d (by simp))

theorem inner_of_trimmed {g t h p y r : Line} (hg : AllBlank g) (hh : AllBlank h) (hy : Trimmed y)
    (hne : y ≠ []) (heq : g ++ (t ++ h) = p ++ (y ++ r)) :
    ∃ p₀ r₀, p = g ++ p₀ ∧ r = r₀ ++ h ∧ t = p₀ ++ (y ++ r₀) := by
  obtain ⟨c, x, hx⟩ := List.exists_cons_of_ne_nil hne
  obtain ⟨z, d, hz⟩ := (List.eq_nil_or_concat y).resolve_left hne
  rw [List.concat_eq_append] at hz
  have hc : isBlank c = false := by
    have := hy.first
    rwa [hx] at this
  have hd : isBlank d = false := by
    have := hy.last
    rwa [hz, List.getLast?_concat] at this
  obtain ⟨p₀, rfl, ht⟩ : ∃ p₀, p = g ++ p₀ ∧ t ++ h = p₀ ++ (y ++ r) := by
    rw [hx, List.cons_append] at heq ⊢
    exact prefix_of_blank hg hc heq
  obtain ⟨r₀, rfl, hinner⟩ : ∃ r₀, r = r₀ ++ h ∧ t = (p₀ ++ z) ++ d :: r₀ := by
    refine suffix_of_blank hh hd ?_
    rw [ht, hz]
    simp only [List.append_assoc, List.cons_append, List.nil_append]
  refine ⟨p₀, r₀, rfl, rfl, ?_⟩
  rw [hinner, hz]
  simp only [List.append_assoc, List.cons_append, List.nil_append]

section
variable {keyword p gap nm r g t h : Line} {Tail : Line → Prop} (hTail : IgnoresMargin Tail)
  (hg : AllBlank g) (hh : AllBlank h)
include hTail hg hh

theorem DeclaredAt.margins (hd : DeclaredAt keyword Tail t p gap nm r) :
    DeclaredAt keyword Tail (g ++ (t ++ h)) (g ++ p) gap nm (r ++ h) := by
  refine ⟨?_, ?_, hd.gap_ne, hd.gap_blank, hd.name, (hTail r h hh).mpr hd.tail⟩
  · rw [hd.line]
    simp only [List.append_assoc]
  · rw [endsInWord_append_left hg]
    exact hd.edge

theorem DeclaredAt.inner (hk : IsWordText keyword)
    (hd : DeclaredAt keyword Tail (g ++ (t ++ h)) p gap nm r) :
    ∃ p₀ r₀, p = g ++ p₀ ∧ r = r₀ ++ h ∧ DeclaredAt keyword Tail t p₀ gap nm r₀ := by
  have hne : keyword ++ (gap ++ nm) ≠ [] := List.append_ne_nil_of_left_ne_nil hk.ne_nil _
  have hline : g ++ (t ++ h) = p ++ ((keyword ++ (gap ++ nm)) ++ r) := by
    rw [hd.line]
    simp only [List.append_assoc]
  obtain ⟨p₀, r₀, rfl, rfl, ht⟩ :=
    inner_of_trimmed hg hh (trimmed_of_words hk hd.name.isWordText gap) hne hline
  refine ⟨p₀, r₀, rfl, rfl, ?_, ?_, hd.gap_ne, hd.gap_blank, hd.name, (hTail r₀ h hh).mp hd.tail⟩
  · rw [ht]
    simp only [List.append_assoc]
  · rw [← endsInWord_append_left hg]
    exact hd.edge

end

section
variable {p nm r g t h : Line} (hg : AllBlank g) (hh : AllBlank h)
include hg hh

theorem AssignedAt.margins (ha : AssignedAt t p nm r) :
    AssignedAt (g ++ (t ++ h)) (g ++ p) nm (r ++ h) := by
  refine ⟨?_, ?_, ha.name, (assignmentTail_margin r h hh).mpr ha.tail⟩
  · rw [ha.line]
    simp only [List.append_assoc]
  · intro c hc
    rcases List.mem_append.mp hc with hc | hc
    · exact hg c hc
    · exact ha.blank c hc

theorem AssignedAt.inner (ha : AssignedAt (g ++ (t ++ h)) p nm r) :
    ∃ p₀ r₀, p = g ++ p₀ ∧ r = r₀ ++ h ∧ AssignedAt t p₀ nm r₀ := by
  obtain ⟨p₀, r₀, rfl, rfl, ht⟩ := inner_of_trimmed hg hh ha.name.isWordText.trimmed
    ha.name.isWordText.ne_nil ha.line
  exact ⟨p₀, r₀, rfl, rfl, ht, fun c hc => ha.blank c (List.mem_append_right _ hc), ha.name,
    (assignmentTail_margin r₀ h hh).mp ha.tail⟩

end

/-! ## corresponding lines -/

theorem shifted_margins {g t h g' h' : Line} (hm : marginWidth (g ++ (t ++ h)) = width g)
    (hm' : marginWidth (g' ++ (t ++ h')) = width g') {a b : Nat} (ha : a ≤ t.length)
    (hb : b ≤ t.length) : Shifted (g ++ (t ++ h)) (g' ++ (t ++ h'))
      ⟨g.length + a, g.length + b⟩ ⟨g'.length + a, g'.length + b⟩ := by
  rw [Shifted, hm, hm', column_margin g t h ha, column_margin g t h hb, column_margin g' t h' ha,
    column_margin g' t h' hb]
  omega

/-- What stands before and behind the same text between two pairs of margins. -/
def BetweenMargins (g h g' h' p r p' r' : Line) : Prop :=
  ∃ p₀ r₀, p = g ++ p₀ ∧ p' = g' ++ p₀ ∧ r = r₀ ++ h ∧ r' = r₀ ++ h'

theorem nameSpan_margin (keyword g p gap nm : Line) : nameSpan keyword (g ++ p) gap nm =
    ⟨g.length + (p ++ (keyword ++ gap)).length,
      g.length + ((p ++ (keyword ++ gap)).length + nm.length)⟩ := by
  rw [nameSpan, List.append_assoc, List.length_append, Nat.add_assoc]

section
variable {g t h g' h' : Line} (hg : AllBlank g) (hh : AllBlank h) (hg' : AllBlank g')
  (hh' : AllBlank h') (hm : marginWidth (g ++ (t ++ h)) = width g)
  (hm' : marginWidth (g' ++ (t ++ h')) = width g')
include hg hh hg' hh' hm hm'

theorem ofShape?_margins {a : Pattern} {keyword : Line} {Tail : Line → Prop}
    (hshape : DeclarationShape a keyword Tail) (hTail : IgnoresMargin Tail) (kind : SymbolKind) :
    Option.Rel (DeclarationMatch id Shifted (g ++ (t ++ h)) (g' ++ (t ++ h')))
      (Declaration.ofShape? kind a (g ++ (t ++ h)))
      (Declaration.ofShape? kind a (g' ++ (t ++ h'))) := by
  refine rel_mono (hshape.ofShape?_match kind (σ := id) (R := BetweenMargins g h g' h')
    ?_ ?_ ?_) ?_
  · rintro _ _ _ _ _ _ _ _ ⟨p₀, r₀, rfl, rfl, -, -⟩ ⟨q₀, s₀, rfl, rfl, -, -⟩ hle
    simp only [List.length_append] at hle ⊢
    omega
  · intro p gap nm r hd
    obtain ⟨p₀, r₀, rfl, rfl, h₀⟩ := hd.inner hTail hg hh hshape.isWordText
    exact ⟨g' ++ p₀, r₀ ++ h', ⟨p₀, r₀, rfl, rfl, rfl, rfl⟩, h₀.margins hTail hg' hh'⟩
  · intro p' gap nm r' hd'
    obtain ⟨p₀, r₀, rfl, rfl, h₀⟩ := hd'.inner hTail hg' hh' hshape.isWordText
    exact ⟨g ++ p₀, gap, nm, r₀ ++ h, ⟨p₀, r₀, rfl, rfl, rfl, rfl⟩, h₀.margins hTail hg hh⟩
  · rintro d d' ⟨_, _, _, _, gap, nm, ⟨p₀, r₀, rfl, rfl, rfl, rfl⟩, hd, hd', rfl, rfl⟩
    -- the name ends inside the trimmed text, so its columns move with the margin
    obtain ⟨p₁, r₁, hp, -, h₀⟩ := hd.inner hTail hg hh hshape.isWordText
    obtain rfl := List.append_cancel_left hp
    have hlen : t.length =
        p₀.length + (keyword.length + (gap.length + (nm.length + r₁.length))) := by
      rw [h₀.line]
      simp only [List.length_append]
    refine ⟨rfl, rfl, ?_, ?_⟩
    · rw [nameSpan_margin, nameSpan_margin]
      refine shifted_margins hm hm' ?_ ?_ <;>
        (simp only [List.length_append]; omega)
    · rw [hd.nameSpan_mem_wordRuns_iff, hd'.nameSpan_mem_wordRuns_iff,
        startsInWord_append_right hh, startsInWord_append_right hh']

theorem first?_margins :
    Option.Rel (DeclarationMatch id Shifted (g ++ (t ++ h)) (g' ++ (t ++ h')))
      (Declaration.first? (g ++ (t ++ h))) (Declaration.first? (g' ++ (t ++ h'))) := by
  have hfunction :=
    ofShape?_margins hg hh hg' hh' hm hm' shape_function functionTail_margin .function
  have hvariable := ofShape?_margins hg hh hg' hh' hm hm' shape_variable variableTail_margin .var
  have himport := ofShape?_margins hg hh hg' hh' hm hm' shape_import importTail_margin .imported
  exact rel_or (rel_or hfunction hvariable) himport

theorem assigned?_margins :
    Option.Rel (fun s s' => s'.text (g' ++ (t ++ h')) = s.text (g ++ (t ++ h)) ∧
      Shifted (g ++ (t ++ h)) (g' ++ (t ++ h')) s s')
      (assigned? (g ++ (t ++ h))) (assigned? (g' ++ (t ++ h'))) := by
  cases hl : assigned? (g ++ (t ++ h)) with
  | none =>
    have hl' : assigned? (g' ++ (t ++ h')) = none := by
      refine (assigned?_eq_none_iff _).mpr fun p' nm r' hat' => ?_
      obtain ⟨p₀, r₀, rfl, rfl, h₀⟩ := hat'.inner hg' hh'
      exact (assigned?_eq_none_iff _).mp hl _ nm _ (h₀.margins hg hh)
    rw [hl']
    exact .none
  | some s =>
    obtain ⟨p, nm, r, hat, rfl⟩ := exists_of_assigned? hl
    obtain ⟨p₀, r₀, rfl, rfl, h₀⟩ := hat.inner hg hh
    have hat' := h₀.margins hg' hh'
    rw [(assigned?_eq_some_iff _ _).mpr ⟨_, nm, _, hat', rfl⟩]
    have hlen : t.length = p₀.length + (nm.length + r₀.length) := by
      rw [h₀.line]
      simp only [List.length_append]
    refine .some ⟨?_, ?_⟩
    · rw [hat.line, hat'.line, Span.text, Span.text, Span.chars_between, Span.chars_between]
    · rw [List.length_append, List.length_append, Nat.add_assoc, Nat.add_assoc]
      exact shifted_margins hm hm' (by omega) (by omega)

end

theorem trimmedSpan_margins {g t h : Line} (ht : Trimmed t) (hh : AllBlank h)
    (hg : (g ++ (t ++ h)).takeWhile isBlank = g) :
    trimmedSpan (g ++ (t ++ h)) = ⟨g.length, g.length + t.length⟩ := by
  have hindent : indentWidth (g ++ (t ++ h)) = g.length := by rw [indentWidth, hg]
  rw [trimmedSpan, hindent]
  by_cases hne : t = []
  · -- a blank line is all margin
    have hblank : AllBlank (g ++ h) := by
      intro c hc
      rcases List.mem_append.mp hc with hc | hc
      · rw [← hg] at hc
        exact allBlank_takeWhile _ c hc
      · exact hh c hc
    rw [hne, List.nil_append, (trimEnd_eq_nil_iff _).mpr (List.all_eq_true.mpr hblank)]
    simp
  · rw [trimEnd_margins ht hne hh, List.length_append, Nat.max_eq_left (Nat.le_add_right _ _)]

/-- lines with one trimmed text correspond -/
theorem lineMatch_of_trim_eq {l l' : Line} (htrim : trim l' = trim l) :
    LineMatch id Shifted l l' := by
  have hg := allBlank_takeWhile l
  have hg' := allBlank_takeWhile l'
  have ht := trimmed_trim l
  have hm : marginWidth l = width (l.takeWhile isBlank) := rfl
  have hm' : marginWidth l' = width (l'.takeWhile isBlank) := rfl
  obtain ⟨h, hh, hl⟩ := exists_margins l
  obtain ⟨h', hh', hl'⟩ := exists_margins l'
  rw [htrim] at hl'
  obtain ⟨g, htake⟩ : ∃ g, l.takeWhile isBlank = g := ⟨_, rfl⟩
  obtain ⟨g', htake'⟩ : ∃ g', l'.takeWhile isBlank = g' := ⟨_, rfl⟩
  rw [htake] at hg hl hm
  rw [htake'] at hg' hl' hm'
  generalize trim l = t at ht hl hl'
  subst hl hl'
  refine ⟨first?_margins hg hh hg' hh' hm hm', ?_, ?_, ?_,
    assigned?_margins hg hh hg' hh' hm hm', ?_⟩
  · rw [wordsOf_margins hg hh, wordsOf_margins hg' hh', List.map_id]
  · intro c hc
    have hblank : isBlank c = false := eq_false_of_all (by decide) c hc
    rw [count_margins hg hh t hblank, count_margins hg' hh' t hblank]
  · rw [occurs_anyFunction, occurs_anyFunction]
    exact isSome_of_rel
      (ofShape?_margins hg hh hg' hh' hm hm' shape_function functionTail_margin .function)
  · rw [trimmedSpan_margins ht hh htake, trimmedSpan_margins ht hh' htake']
    exact shifted_margins hm hm' (Nat.zero_le _) (Nat.le_refl _)

end LanguageService
