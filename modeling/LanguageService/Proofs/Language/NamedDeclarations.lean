import LanguageService.Proofs.Language.Declarations

/-!
# Declarations of a given name

A declaration is also searched for under a given name, by one pattern that takes variables and
imports alike.  It asks more of an import than the pattern for any import does: the name must be a
whole word.

* `IntroducedAt`          a name is introduced at a place of a line, and stands at a span
* `introducedAt_of_matchAt?`, `matchAt?_of_introducedAt`   the pattern fits exactly such places
* `IntroducedAt.unique`   at one place a name is introduced once
* `IntroducedAt.start_lt` of two introductions the left one also has its name to the left
-/

namespace LanguageService

/-- anything that does not go on with the word -/
def WordTail (r : Line) : Prop :=
  startsInWord r = false

/-- Behind `p` the line introduces the name, as a variable or by an import; the name stands at the
span. -/
inductive IntroducedAt (name l p : Line) : Span → Prop where
  | binding {gap r : Line} (h : DeclaredAt declarationKeyword.toList VariableTail l p gap name r) :
      IntroducedAt name l p (nameSpan declarationKeyword.toList p gap name)
  | imported {gap r : Line} (h : DeclaredAt "import".toList WordTail l p gap name r) :
      IntroducedAt name l p (nameSpan "import".toList p gap name)

theorem WordTail.importTail {r : Line} (h : WordTail r) : ImportTail r := by
  cases r with
  | nil => rfl
  | cons c r => exact not_isNameChar_of_not_isWord h

/-! ## the pattern -/

open Pattern in
theorem fits_binding {name : String} {p x y : Line} {gs : List (Nat × Span)} :
    Fits (Shape.variableOf 1 (nameText name)) p x y gs ↔ endsInWord p = false ∧
      ∃ gap g, x = declarationKeyword.toList ++ (gap ++ (name.toList ++ (g ++ ['=']))) ∧
        gap ≠ [] ∧ AllBlank gap ∧ AllBlank g ∧
        gs = [(1, nameSpan declarationKeyword.toList p gap name.toList)] := by
  refine (fits_declared (fun _ _ _ _ => fits_nameText) isWordText_let
    fun _ _ _ _ => fits_equals).trans (and_congr_right fun _ => ?_)
  constructor
  · intro h
    obtain ⟨gap, nm, t, rfl, hne, hblank, rfl, ⟨g, rfl, hg⟩, rfl⟩ := h
    exact ⟨gap, g, rfl, hne, hblank, hg, rfl⟩
  · intro h
    obtain ⟨gap, g, rfl, hne, hblank, hg, rfl⟩ := h
    exact ⟨gap, name.toList, _, rfl, hne, hblank, rfl, ⟨g, rfl, hg⟩, rfl⟩

open Pattern in
theorem fits_imported {name : String} (hname : IsWordText name.toList) {p x y : Line}
    {gs : List (Nat × Span)} :
    Fits (seq (Shape.importOf 2 (nameText name)) wordEdge) p x y gs ↔ endsInWord p = false ∧
      ∃ gap, x = "import".toList ++ (gap ++ name.toList) ∧ gap ≠ [] ∧ AllBlank gap ∧
        startsInWord y = false ∧ gs = [(2, nameSpan "import".toList p gap name.toList)] := by
  have hedge (q : Line) : endsInWord (q ++ name.toList) ≠ startsInWord y ↔
      startsInWord y = false := by
    rw [hname.endsInWord_append]
    cases startsInWord y <;> decide
  rw [fits_seq]
  constructor
  · intro h
    obtain ⟨x, _, gs, _, himport, hword, rfl, rfl⟩ := h
    obtain ⟨hy, rfl, rfl⟩ := fits_wordEdge.mp hword
    obtain ⟨hp, gap, nm, rfl, hne, hblank, hnm⟩ := (fits_keyword isWordText_import).mp himport
    obtain ⟨rfl, rfl⟩ := (fits_group fun _ _ _ _ => fits_nameText).mp hnm
    rw [← List.append_assoc, ← List.append_assoc, hedge] at hy
    rw [List.append_nil]
    exact ⟨hp, gap, rfl, hne, hblank, hy, rfl⟩
  · intro h
    obtain ⟨hp, gap, rfl, hne, hblank, hy, rfl⟩ := h
    refine ⟨"import".toList ++ (gap ++ name.toList), [], _, [],
      (fits_keyword isWordText_import).mpr ⟨hp, gap, name.toList, rfl, hne, hblank,
        (fits_group fun _ _ _ _ => fits_nameText).mpr ⟨rfl, rfl⟩⟩, ?_, ?_, rfl⟩
    · refine fits_wordEdge.mpr ⟨?_, rfl, rfl⟩
      rw [← List.append_assoc, ← List.append_assoc, hedge]
      exact hy
    · rw [List.append_nil]

section
variable {name : String} (hname : IsName name.toList)
include hname

/-- a match of the pattern introduces the name, which is the group that took part -/
theorem introducedAt_of_matchAt? {p b : Line} {m : Match}
    (hm : (Shape.declaration name).matchAt? (.between p b) = some m) :
    ∃ s, IntroducedAt name.toList (p ++ b) p s ∧ (m.group? 1).or (m.group? 2) = some s := by
  obtain ⟨x, y, gs, rfl, hf, rfl⟩ := Pattern.fits_of_matchAt? hm
  rcases hf with hf | hf
  · obtain ⟨hp, gap, g, rfl, hne, hblank, hg, rfl⟩ := fits_binding.mp hf
    refine ⟨_, .binding (r := g ++ '=' :: y) ⟨?_, hp, hne, hblank, hname, g, y, rfl, hg⟩, rfl⟩
    simp only [List.append_assoc, List.singleton_append]
  · obtain ⟨hp, gap, rfl, hne, hblank, hy, rfl⟩ := (fits_imported hname.isWordText).mp hf
    refine ⟨_, .imported (r := y) ⟨?_, hp, hne, hblank, hname, hy⟩, rfl⟩
    simp only [List.append_assoc]

theorem matchAt?_of_introducedAt {p b : Line} {s : Span}
    (h : IntroducedAt name.toList (p ++ b) p s) :
    (Shape.declaration name).matchAt? (.between p b) ≠ none := by
  intro hnone
  have hno := (Pattern.matchAt?_eq_none_iff _ p b).mp hnone
  cases h with
  | @binding gap r h =>
    obtain ⟨hline, hp, hne, hblank, -, g, y, rfl, hg⟩ := h
    refine hno _ y _ ?_ (Or.inl (fits_binding.mpr ⟨hp, gap, g, rfl, hne, hblank, hg, rfl⟩))
    rw [List.append_cancel_left hline]
    simp only [List.append_assoc, List.singleton_append]
  | @imported gap r h =>
    obtain ⟨hline, hp, hne, hblank, -, hr⟩ := h
    refine hno _ r _ ?_ (Or.inr ((fits_imported hname.isWordText).mpr
      ⟨hp, gap, rfl, hne, hblank, hr, rfl⟩))
    rw [List.append_cancel_left hline]
    simp only [List.append_assoc]

end

/-! ## places on one line -/

/-- Another word that begins to the right of a declaration does not begin before the name. -/
theorem DeclaredAt.le_of_word {keyword l p gap nm r : Line} {Tail : Line → Prop}
    (h : DeclaredAt keyword Tail l p gap nm r) (hkw : IsWordText keyword) {q b : Line}
    (hl : l = q ++ b) (hq : endsInWord q = false) (hb : startsInWord b = true)
    (hlt : p.length < q.length) : (p ++ (keyword ++ gap)).length ≤ q.length :=
  le_of_startsInWord hkw (fun c hc => not_isWord_of_isBlank (h.gap_blank c hc))
    (h.line.symm.trans hl) hq hb hlt

theorem DeclaredAt.start_lt {keyword keyword' l p p' gap gap' nm nm' r r' : Line}
    {Tail Tail' : Line → Prop} (h : DeclaredAt keyword Tail l p gap nm r)
    (h' : DeclaredAt keyword' Tail' l p' gap' nm' r') (hkw : IsWordText keyword)
    (hkw' : IsWordText keyword') (hlt : p.length < p'.length) :
    (nameSpan keyword p gap nm).start < (nameSpan keyword' p' gap' nm').start := by
  have hb : LanguageService.startsInWord (keyword' ++ (gap' ++ (nm' ++ r'))) = true := by
    rw [hkw'.startsInWord_append]
  have hle := h.le_of_word hkw h'.line h'.edge hb hlt
  have hpos := List.length_pos_iff.mpr hkw'.ne_nil
  show (p ++ (keyword ++ gap)).length < (p' ++ (keyword' ++ gap')).length
  refine Nat.lt_of_le_of_lt hle ?_
  rw [List.length_append, List.length_append]
  omega

namespace IntroducedAt

variable {name l p p' : Line} {s s' : Span}

theorem declaredAt (h : IntroducedAt name l p s) : ∃ keyword Tail gap r,
    IsWordText keyword ∧ DeclaredAt keyword Tail l p gap name r ∧ s = nameSpan keyword p gap name := by
  cases h with
  | @binding gap r h => exact ⟨_, _, gap, r, isWordText_let, h, rfl⟩
  | @imported gap r h => exact ⟨_, _, gap, r, isWordText_import, h, rfl⟩

theorem exists_eq_append (h : IntroducedAt name l p s) : ∃ b, l = p ++ b := by
  obtain ⟨keyword, Tail, gap, r, -, hd, -⟩ := h.declaredAt
  exact ⟨_, hd.line⟩

theorem chars_eq (h : IntroducedAt name l p s) : s.chars l = name := by
  obtain ⟨keyword, Tail, gap, r, -, hd, rfl⟩ := h.declaredAt
  exact hd.chars_nameSpan

theorem le_length (h : IntroducedAt name l p s) : s.start ≤ l.length ∧ s.stop ≤ l.length := by
  obtain ⟨keyword, Tail, gap, r, -, hd, rfl⟩ := h.declaredAt
  rw [hd.line, nameSpan]
  simp only [List.length_append]
  omega

theorem not_both {gap gap' nm nm' r r' : Line} {Tail Tail' : Line → Prop}
    (h : DeclaredAt declarationKeyword.toList Tail l p gap nm r)
    (h' : DeclaredAt "import".toList Tail' l p gap' nm' r') : False := by
  have hlet : declarationKeyword.toList = 'l' :: ['e', 't'] := by decide
  have himport : "import".toList = 'i' :: ['m', 'p', 'o', 'r', 't'] := by decide
  have hline := List.append_cancel_left (h.line.symm.trans h'.line)
  rw [hlet, himport] at hline
  exact absurd (List.cons.inj hline).1 (by decide)

theorem unique (h : IntroducedAt name l p s) (h' : IntroducedAt name l p s') : s = s' := by
  cases h with
  | binding h =>
    cases h' with
    | binding h' => rw [(h.unique shape_variable.closes h').1]
    | imported h' => exact (not_both h h').elim
  | imported h =>
    cases h' with
    | binding h' => exact (not_both h' h).elim
    | imported h' => rw [(h.unique (fun _ hr => hr.importTail) h').1]

theorem start_lt (h : IntroducedAt name l p s) (h' : IntroducedAt name l p' s')
    (hlt : p.length < p'.length) : s.start < s'.start := by
  obtain ⟨keyword, Tail, gap, r, hkw, hd, rfl⟩ := h.declaredAt
  obtain ⟨keyword', Tail', gap', r', hkw', hd', rfl⟩ := h'.declaredAt
  exact hd.start_lt hd' hkw hkw' hlt

end IntroducedAt
end LanguageService
