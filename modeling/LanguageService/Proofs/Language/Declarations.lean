import LanguageService.Source.Symbol
import LanguageService.Proofs.Language.Words
import LanguageService.Proofs.Pattern.Preference

/-!
# Shapes of declarations

A declaration is a keyword that stands as a word, white space, a name, and a tail that depends on
the kind of the declaration.

* `VariableTail`, `FunctionTail`, `ImportTail`   the three tails
* `DeclaredAt`           a declaration at a place of a line, part by part
* `DeclarationShape`     a pattern that fits exactly such declarations
* `fits_declared`, `fits_functionOf`   what such patterns fit, part by part
* `shape_function`, `shape_variable`, `shape_import`   the three shapes of the language
* `ofShape?_eq_some_iff` the declaration found by a shape is the leftmost one of its kind
-/

namespace LanguageService

/-- White space, if any, and an equals sign. -/
def VariableTail (r : Line) : Prop :=
  ∃ g s, r = g ++ '=' :: s ∧ AllBlank g

/-- White space, an equals sign, white space and the function keyword as a word. -/
def FunctionTail (r : Line) : Prop :=
  ∃ g g' s, r = g ++ '=' :: (g' ++ (functionKeyword.toList ++ s)) ∧ AllBlank g ∧ AllBlank g' ∧
    startsInWord s = false

/-- Anything that does not go on with the name. -/
def ImportTail (r : Line) : Prop :=
  r.head?.any isNameChar = false

theorem FunctionTail.variableTail {r : Line} (h : FunctionTail r) : VariableTail r := by
  obtain ⟨g, g', s, rfl, hg, -, -⟩ := h
  exact ⟨g, _, rfl, hg⟩

/-- Behind `p` the line goes on with a keyword, the white space `gap`, the name `nm` and the
tail `r`. -/
structure DeclaredAt (keyword : Line) (Tail : Line → Prop) (l p gap nm r : Line) : Prop where
  line : l = p ++ (keyword ++ (gap ++ (nm ++ r)))
  edge : endsInWord p = false
  gap_ne : gap ≠ []
  gap_blank : AllBlank gap
  name : IsName nm
  tail : Tail r

/-- where the name stands -/
def nameSpan (keyword p gap nm : Line) : Span :=
  ⟨(p ++ (keyword ++ gap)).length, (p ++ (keyword ++ gap)).length + nm.length⟩

theorem not_isBlank_of_isName {w : Line} (hw : IsName w) (b : Line) :
    (w ++ b).head?.any isBlank = false := by
  obtain ⟨c, r, rfl, hc, -⟩ := hw
  show isBlank c = false
  by_cases hb : isBlank c = true
  · have := not_isWord_of_isBlank hb
    rw [isWord_of_isNameChar (isNameChar_of_isNameStart hc)] at this
    exact absurd this (by decide)
  · exact Bool.eq_false_iff.mpr hb

theorem head?_any_of_blank {g b : Line} (hg : AllBlank g) (hb : b.head?.any isNameChar = false) :
    (g ++ b).head?.any isNameChar = false := by
  cases g with
  | nil => exact hb
  | cons c g =>
    exact not_isNameChar_of_not_isWord (not_isWord_of_isBlank (hg c List.mem_cons_self))

theorem not_isBlank_eq : isBlank '=' = false := by decide

theorem not_isNameChar_eq : isNameChar '=' = false := by decide

namespace DeclaredAt

variable {keyword l p gap nm r : Line} {Tail : Line → Prop}

theorem line_eq (h : DeclaredAt keyword Tail l p gap nm r) :
    l = (p ++ (keyword ++ gap)) ++ (nm ++ r) := by
  rw [h.line]
  simp only [List.append_assoc]

theorem edge_before_name (h : DeclaredAt keyword Tail l p gap nm r) :
    endsInWord (p ++ (keyword ++ gap)) = false := by
  rw [← List.append_assoc, endsInWord_append _ h.gap_ne]
  exact endsInWord_of_blank h.gap_blank

theorem chars_nameSpan (h : DeclaredAt keyword Tail l p gap nm r) :
    (nameSpan keyword p gap nm).chars l = nm := by
  rw [h.line_eq]
  exact Span.chars_between _ nm r

theorem unique (hclose : ∀ r, Tail r → r.head?.any isNameChar = false)
    (h : DeclaredAt keyword Tail l p gap nm r) {gap' nm' r' : Line}
    (h' : DeclaredAt keyword Tail l p gap' nm' r') : gap = gap' ∧ nm = nm' ∧ r = r' := by
  have hline := h.line.symm.trans h'.line
  obtain ⟨hgap, hrest⟩ := run_unique h.gap_blank (not_isBlank_of_isName h.name r) h'.gap_blank
    (not_isBlank_of_isName h'.name r')
    (List.append_cancel_left (List.append_cancel_left hline))
  exact ⟨hgap, run_unique h.name.isNameChar (hclose r h.tail) h'.name.isNameChar
    (hclose r' h'.tail) hrest⟩

/-- the name is a whole word exactly if the tail does not go on with it -/
theorem nameSpan_mem_wordRuns_iff (h : DeclaredAt keyword Tail l p gap nm r) :
    nameSpan keyword p gap nm ∈ wordRuns l ↔ startsInWord r = false := by
  rw [mem_wordRuns_iff]
  constructor
  · rintro ⟨a, w, b, hab, -, -, hb, hspan⟩
    have hlen : (p ++ (keyword ++ gap)).length = a.length := congrArg Span.start hspan
    have hstop : (p ++ (keyword ++ gap)).length + nm.length = a.length + w.length :=
      congrArg Span.stop hspan
    obtain ⟨-, hrest⟩ := List.append_inj (h.line_eq.symm.trans hab) hlen
    obtain ⟨-, rfl⟩ := List.append_inj hrest (by omega)
    exact hb
  · exact fun hr => ⟨_, nm, r, h.line_eq, h.edge_before_name, h.name.isWordText, hr, rfl⟩

end DeclaredAt

/-- The pattern fits exactly the declarations with a given keyword and tail, and closes the name as
its group 1. -/
structure DeclarationShape (a : Pattern) (keyword : Line) (Tail : Line → Prop) : Prop where
  isWordText : IsWordText keyword
  closes : ∀ r, Tail r → r.head?.any isNameChar = false
  sound : ∀ p b m, a.matchAt? (.between p b) = some m → ∃ gap nm r,
    DeclaredAt keyword Tail (p ++ b) p gap nm r ∧ m.group 1 = nameSpan keyword p gap nm
  complete : ∀ p b gap nm r, DeclaredAt keyword Tail (p ++ b) p gap nm r →
    a.matchAt? (.between p b) ≠ none

/-! ## the three shapes -/

theorem isWordText_let : IsWordText declarationKeyword.toList :=
  ⟨by decide, List.all_eq_true.mp (by decide +kernel)⟩

theorem isWordText_import : IsWordText "import".toList :=
  ⟨by decide, List.all_eq_true.mp (by decide +kernel)⟩

theorem isWordText_func : IsWordText functionKeyword.toList :=
  ⟨by decide, List.all_eq_true.mp (by decide +kernel)⟩

namespace Pattern

theorem fits_keyword {keyword : String} (hkw : IsWordText keyword.toList) {b : Pattern}
    {p x y : Line} {gs : List (Nat × Span)} :
    Fits (seq wordEdge (seq (nameText keyword) (seq blanks1 b))) p x y gs ↔
      endsInWord p = false ∧ ∃ gap t, x = keyword.toList ++ (gap ++ t) ∧ gap ≠ [] ∧ AllBlank gap ∧
        Fits b (p ++ (keyword.toList ++ gap)) t y gs := by
  rw [fits_wordEdge_seq]
  constructor
  · rintro ⟨he, _, _, _, _, h₁, ⟨gap, t, _, gs, h₂, hb, rfl, rfl⟩, rfl, rfl⟩
    obtain ⟨rfl, rfl⟩ := fits_nameText.mp h₁
    obtain ⟨hne, hblank, rfl⟩ := fits_blanks1.mp h₂
    rw [List.append_assoc, hkw.startsInWord_append] at he
    rw [List.append_assoc] at hb
    rw [List.append_nil, List.append_nil]
    exact ⟨Bool.eq_false_iff.mpr he, gap, t, rfl, hne, hblank, hb⟩
  · rintro ⟨hp, gap, t, rfl, hne, hblank, hb⟩
    rw [List.append_assoc, hkw.startsInWord_append, hp]
    rw [← List.append_assoc] at hb
    exact ⟨by decide, keyword.toList, gap ++ t, [], gs, fits_nameText.mpr ⟨rfl, rfl⟩,
      ⟨gap, t, [], gs, fits_blanks1.mpr ⟨hne, hblank, rfl⟩, hb, rfl, (List.append_nil gs).symm⟩,
      rfl, (List.append_nil gs).symm⟩

section
variable {a : Pattern} {N : Line → Prop} (ha : ∀ p x y gs, Fits a p x y gs ↔ N x ∧ gs = [])
include ha

theorem fits_group {i : Nat} {p x y : Line} {gs : List (Nat × Span)} :
    Fits (group i a) p x y gs ↔ N x ∧ gs = [(i, ⟨p.length, p.length + x.length⟩)] := by
  constructor
  · intro h
    obtain ⟨g, hg, rfl⟩ := h
    obtain ⟨hx, rfl⟩ := (ha _ _ _ _).mp hg
    exact ⟨hx, rfl⟩
  · intro h
    obtain ⟨hx, rfl⟩ := h
    exact ⟨[], (ha _ _ _ _).mpr ⟨hx, rfl⟩, rfl⟩

theorem fits_group_seq {b : Pattern} {i : Nat} {T : Line → Line → Prop}
    (hb : ∀ p x y gs, Fits b p x y gs ↔ T x y ∧ gs = []) {p x y : Line}
    {gs : List (Nat × Span)} : Fits (seq (group i a) b) p x y gs ↔
      ∃ nm t, x = nm ++ t ∧ N nm ∧ T t y ∧ gs = [(i, ⟨p.length, p.length + nm.length⟩)] := by
  rw [fits_seq]
  constructor
  · rintro ⟨nm, t, _, _, h₁, h₂, rfl, rfl⟩
    obtain ⟨hnm, rfl⟩ := (fits_group ha).mp h₁
    obtain ⟨ht, rfl⟩ := (hb _ _ _ _).mp h₂
    exact ⟨nm, t, rfl, hnm, ht, rfl⟩
  · rintro ⟨nm, t, rfl, hnm, ht, rfl⟩
    exact ⟨nm, t, _, [], (fits_group ha).mpr ⟨hnm, rfl⟩, (hb _ _ _ _).mpr ⟨ht, rfl⟩, rfl, rfl⟩

/-- A keyword as a word, white space, a name as a group, and then a pattern that closes no group. -/
theorem fits_declared {keyword : String} (hkw : IsWordText keyword.toList) {b : Pattern} {i : Nat}
    {T : Line → Line → Prop} (hb : ∀ p x y gs, Fits b p x y gs ↔ T x y ∧ gs = []) {p x y : Line}
    {gs : List (Nat × Span)} :
    Fits (seq wordEdge (seq (nameText keyword) (seq blanks1 (seq (group i a) b)))) p x y gs ↔
      endsInWord p = false ∧ ∃ gap nm t, x = keyword.toList ++ (gap ++ (nm ++ t)) ∧ gap ≠ [] ∧
        AllBlank gap ∧ N nm ∧ T t y ∧ gs = [(i, nameSpan keyword.toList p gap nm)] := by
  refine (fits_keyword hkw).trans (and_congr_right fun _ => ?_)
  constructor
  · intro h
    obtain ⟨gap, _, rfl, hne, hblank, hrest⟩ := h
    obtain ⟨nm, t, rfl, hnm, ht, rfl⟩ := (fits_group_seq ha hb).mp hrest
    exact ⟨gap, nm, t, rfl, hne, hblank, hnm, ht, rfl⟩
  · intro h
    obtain ⟨gap, nm, t, rfl, hne, hblank, hnm, ht, rfl⟩ := h
    exact ⟨gap, nm ++ t, rfl, hne, hblank, (fits_group_seq ha hb).mpr ⟨nm, t, rfl, hnm, ht, rfl⟩⟩

end

theorem fits_equals {p x y : Line} {gs : List (Nat × Span)} :
    Fits (seq blanks (literal ['='])) p x y gs ↔
      (∃ g, x = g ++ ['='] ∧ AllBlank g) ∧ gs = [] := by
  rw [fits_seq]
  constructor
  · rintro ⟨g, _, _, _, h₁, h₂, rfl, rfl⟩
    obtain ⟨hg, rfl⟩ := fits_blanks.mp h₁
    obtain ⟨rfl, rfl⟩ := (fits_literal _).mp h₂
    exact ⟨⟨g, rfl, hg⟩, rfl⟩
  · rintro ⟨⟨g, rfl, hg⟩, rfl⟩
    exact ⟨g, ['='], [], [], fits_blanks.mpr ⟨hg, rfl⟩, (fits_literal _).mpr ⟨rfl, rfl⟩, rfl, rfl⟩

theorem fits_equals_func {p x y : Line} {gs : List (Nat × Span)} :
    Fits (seq blanks (seq (literal ['=']) (seq blanks (seq (nameText functionKeyword) wordEdge))))
      p x y gs ↔ (∃ g g', x = g ++ '=' :: (g' ++ functionKeyword.toList) ∧ AllBlank g ∧
        AllBlank g' ∧ startsInWord y = false) ∧ gs = [] := by
  have hedge : ∀ q, (endsInWord (q ++ functionKeyword.toList) ≠ startsInWord y) ↔
      startsInWord y = false := by
    intro q
    rw [isWordText_func.endsInWord_append]
    cases startsInWord y <;> decide
  simp only [fits_seq, fits_wordEdge, fits_nameText, fits_blanks, fits_literal]
  constructor
  · rintro ⟨g, _, _, _, ⟨hg, rfl⟩, ⟨_, _, _, _, ⟨rfl, rfl⟩, ⟨g', _, _, _, ⟨hg', rfl⟩,
      ⟨_, _, _, _, ⟨rfl, rfl⟩, ⟨hy, rfl, rfl⟩, rfl, rfl⟩, rfl, rfl⟩, rfl, rfl⟩, rfl, rfl⟩
    rw [List.append_nil]
    exact ⟨⟨g, g', rfl, hg, hg', (hedge _).mp hy⟩, rfl⟩
  · rintro ⟨⟨g, g', rfl, hg, hg', hy⟩, rfl⟩
    exact ⟨g, _, [], [], ⟨hg, rfl⟩, ⟨['='], _, [], [], ⟨rfl, rfl⟩, ⟨g', _, [], [], ⟨hg', rfl⟩,
      ⟨functionKeyword.toList, [], [], [], ⟨rfl, rfl⟩, ⟨(hedge _).mpr hy, rfl, rfl⟩,
        (List.append_nil _).symm, rfl⟩, rfl, rfl⟩, rfl, rfl⟩, rfl, rfl⟩

/-! ## names are read to their end -/

/-- the preferred reading of an identifier leaves none of its characters -/
theorem head?_run_group_identifier {i : Nat} {p b : Line} {g : List (Nat × Span)} {t : Reading}
    (h : (run (group i identifierText) ⟨.between p b, g⟩).head? = some t) :
    t.cursor.rest.head?.any isNameChar = false := by
  have hmap : run (group i identifierText) ⟨.between p b, g⟩ =
      (run identifierText ⟨.between p b, g⟩).map fun t =>
        { t with groups := (i, ⟨p.length, t.cursor.pos⟩) :: t.groups } := rfl
  rw [hmap, List.head?_map] at h
  obtain ⟨u, hu, rfl⟩ := Option.map_eq_some_iff.mp h
  obtain ⟨r, hr, hu⟩ := exists_of_head?_run_seq hu
  obtain ⟨x, y, gs, rfl, -, rfl⟩ := (mem_run_iff _ _ _ _ _).mp hr
  have hmany : run (many isNameChar) (readingAfter p x y (gs ++ g)) =
      (manyFrom isNameChar (p ++ x).length (p ++ x).getLast? [] y).map fun c => ⟨c, gs ++ g⟩ := rfl
  rw [hmany, List.head?_map, head?_manyFrom] at hu
  obtain rfl := Option.some.inj hu
  exact head?_dropWhile_any isNameChar y

end Pattern

open Pattern in
theorem shape_variable :
    DeclarationShape Shape.anyVariable declarationKeyword.toList VariableTail where
  isWordText := isWordText_let
  closes := by
    rintro r ⟨g, s, rfl, hg⟩
    exact head?_any_of_blank hg not_isNameChar_eq
  sound := by
    intro p b m hm
    obtain ⟨x, y, gs, rfl, hf, rfl⟩ := fits_of_matchAt? hm
    obtain ⟨hp, gap, nm, t, rfl, hne, hblank, hnm, ⟨g, rfl, hg⟩, rfl⟩ := (fits_declared
      (fun _ _ _ _ => fits_identifierText) isWordText_let fun _ _ _ _ => fits_equals).mp hf
    refine ⟨gap, nm, g ++ '=' :: y, ⟨?_, hp, hne, hblank, hnm, g, y, rfl, hg⟩, rfl⟩
    simp only [List.append_assoc, List.singleton_append]
  complete := by
    rintro p b gap nm _ ⟨hline, hp, hne, hblank, hnm, g, s, rfl, hg⟩ hnone
    refine (matchAt?_eq_none_iff _ p b).mp hnone _ s _ ?_ ((fits_declared
      (fun _ _ _ _ => fits_identifierText) isWordText_let fun _ _ _ _ => fits_equals).mpr
      ⟨hp, gap, nm, _, rfl, hne, hblank, hnm, ⟨g, rfl, hg⟩, rfl⟩)
    rw [List.append_cancel_left hline]
    simp only [List.append_assoc, List.singleton_append]

section
variable {a : Pattern} {N : Line → Prop} (ha : ∀ p x y gs, a.Fits p x y gs ↔ N x ∧ gs = [])
include ha

open Pattern in
theorem fits_functionOf {p x y : Line} {gs : List (Nat × Span)} :
    Fits (Shape.functionOf a) p x y gs ↔ endsInWord p = false ∧ ∃ gap nm g g',
      x = declarationKeyword.toList ++
        (gap ++ (nm ++ (g ++ '=' :: (g' ++ functionKeyword.toList)))) ∧
      gap ≠ [] ∧ AllBlank gap ∧ N nm ∧ AllBlank g ∧ AllBlank g' ∧ startsInWord y = false ∧
      gs = [(1, nameSpan declarationKeyword.toList p gap nm)] := by
  refine (fits_declared ha isWordText_let fun _ _ _ _ => fits_equals_func).trans
    (and_congr_right fun _ => ?_)
  constructor
  · intro h
    obtain ⟨gap, nm, t, rfl, hne, hblank, hnm, ⟨g, g', rfl, hg, hg', hy⟩, rfl⟩ := h
    exact ⟨gap, nm, g, g', rfl, hne, hblank, hnm, hg, hg', hy, rfl⟩
  · intro h
    obtain ⟨gap, nm, g, g', rfl, hne, hblank, hnm, hg, hg', hy, rfl⟩ := h
    exact ⟨gap, nm, _, rfl, hne, hblank, hnm, ⟨g, g', rfl, hg, hg', hy⟩, rfl⟩

open Pattern in
/-- a match of a function declaration, whatever names it asks for -/
theorem declaredAt_of_functionOf (hN : ∀ x, N x → IsName x) {p b : Line} {m : Match}
    (hm : (Shape.functionOf a).matchAt? (.between p b) = some m) :
    ∃ gap nm r, N nm ∧ DeclaredAt declarationKeyword.toList FunctionTail (p ++ b) p gap nm r ∧
      m.group 1 = nameSpan declarationKeyword.toList p gap nm := by
  obtain ⟨x, y, gs, rfl, hf, rfl⟩ := fits_of_matchAt? hm
  obtain ⟨hp, gap, nm, g, g', rfl, hne, hblank, hnm, hg, hg', hy, rfl⟩ := (fits_functionOf ha).mp hf
  refine ⟨gap, nm, g ++ '=' :: (g' ++ (functionKeyword.toList ++ y)), hnm,
    ⟨?_, hp, hne, hblank, hN nm hnm, g, g', y, rfl, hg, hg', hy⟩, rfl⟩
  simp only [List.append_assoc, List.cons_append]

open Pattern in
theorem functionOf_of_declaredAt {p b gap nm r : Line} (hnm : N nm)
    (hd : DeclaredAt declarationKeyword.toList FunctionTail (p ++ b) p gap nm r) :
    (Shape.functionOf a).matchAt? (.between p b) ≠ none := by
  obtain ⟨hline, hp, hne, hblank, -, g, g', s, rfl, hg, hg', hs⟩ := hd
  intro hnone
  refine (matchAt?_eq_none_iff _ p b).mp hnone _ s _ ?_
    ((fits_functionOf ha).mpr ⟨hp, gap, nm, g, g', rfl, hne, hblank, hnm, hg, hg', hs, rfl⟩)
  rw [List.append_cancel_left hline]
  simp only [List.append_assoc, List.cons_append]

end

open Pattern in
theorem shape_function :
    DeclarationShape Shape.anyFunction declarationKeyword.toList FunctionTail where
  isWordText := isWordText_let
  closes := by
    rintro r ⟨g, g', s, rfl, hg, -, -⟩
    exact head?_any_of_blank hg not_isNameChar_eq
  sound := by
    intro p b m hm
    obtain ⟨gap, nm, r, -, hd⟩ :=
      declaredAt_of_functionOf (fun _ _ _ _ => fits_identifierText) (fun _ hx => hx) hm
    exact ⟨gap, nm, r, hd⟩
  complete := by
    intro p b gap nm r hd
    exact functionOf_of_declaredAt (fun _ _ _ _ => fits_identifierText) hd.name hd

open Pattern in
/-- The name of an import ends where the repetition of the pattern, which takes all it can,
stops. -/
theorem shape_import : DeclarationShape Shape.anyImport "import".toList ImportTail where
  isWordText := isWordText_import
  closes := fun _ h => h
  sound := by
    intro p b m hm
    obtain ⟨x, y, gs, rfl, hf, rfl⟩ := fits_of_matchAt? hm
    obtain ⟨hp, gap, nm, rfl, hne, hblank, ht⟩ := (fits_keyword isWordText_import).mp hf
    obtain ⟨hnm, rfl⟩ := (fits_group fun _ _ _ _ => fits_identifierText).mp ht
    refine ⟨gap, nm, y, ⟨?_, hp, hne, hblank, hnm, ?_⟩, rfl⟩
    · simp only [List.append_assoc]
    · obtain ⟨t, ht, hspan⟩ := Option.map_eq_some_iff.mp hm
      obtain ⟨r₁, hr₁, ht⟩ := exists_of_head?_run_seq ht
      obtain ⟨x₁, b₁, g₁, hb₁, -, rfl⟩ := (mem_run_iff _ _ _ _ _).mp hr₁
      obtain ⟨r₂, hr₂, ht⟩ := exists_of_head?_run_seq ht
      obtain ⟨x₂, b₂, g₂, rfl, -, rfl⟩ := (mem_run_iff _ _ _ _ _).mp hr₂
      obtain ⟨r₃, hr₃, ht⟩ := exists_of_head?_run_seq ht
      obtain ⟨x₃, b₃, g₃, rfl, -, rfl⟩ := (mem_run_iff _ _ _ _ _).mp hr₃
      have hend := head?_run_group_identifier ht
      obtain ⟨x₄, b₄, g₄, rfl, -, rfl⟩ := (mem_run_iff _ _ _ _ _).mp (List.mem_of_head? ht)
      have hlen : (p ++ x₁ ++ x₂ ++ x₃ ++ x₄).length =
          p.length + ("import".toList ++ (gap ++ nm)).length :=
        congrArg (fun m : Match => m.span.stop) hspan
      have hsame : "import".toList ++ (gap ++ nm) ++ y = (x₁ ++ x₂ ++ x₃ ++ x₄) ++ b₄ := by
        rw [hb₁]
        simp only [List.append_assoc]
      simp only [List.length_append] at hlen
      obtain ⟨-, rfl⟩ := List.append_inj hsame (by simp only [List.length_append]; omega)
      exact hend
  complete := by
    rintro p b gap nm r ⟨hline, hp, hne, hblank, hnm, hr⟩ hnone
    refine (matchAt?_eq_none_iff _ p b).mp hnone ("import".toList ++ (gap ++ nm)) r _ ?_
      ((fits_keyword isWordText_import).mpr ⟨hp, gap, nm, rfl, hne, hblank,
        (fits_group fun _ _ _ _ => fits_identifierText).mpr ⟨hnm, rfl⟩⟩)
    rw [List.append_cancel_left hline]
    simp only [List.append_assoc]

/-! ## the leftmost declaration of a kind -/

namespace DeclarationShape

variable {a : Pattern} {keyword : Line} {Tail : Line → Prop} (h : DeclarationShape a keyword Tail)
include h

theorem matchAt?_eq_none_iff (p b : Line) : a.matchAt? (.between p b) = none ↔
    ∀ gap nm r, ¬ DeclaredAt keyword Tail (p ++ b) p gap nm r := by
  constructor
  · exact fun hnone gap nm r hd => h.complete p b gap nm r hd hnone
  · intro hno
    cases hm : a.matchAt? (.between p b) with
    | none => rfl
    | some m =>
      obtain ⟨gap, nm, r, hd, -⟩ := h.sound p b m hm
      exact absurd hd (hno gap nm r)

/-- a shape finds the leftmost declaration of its kind -/
theorem ofShape?_eq_some_iff (kind : SymbolKind) (l : Line) (d : Declaration) :
    Declaration.ofShape? kind a l = some d ↔ ∃ p gap nm r, DeclaredAt keyword Tail l p gap nm r ∧
      (∀ p' gap' nm' r', DeclaredAt keyword Tail l p' gap' nm' r' → p.length ≤ p'.length) ∧
      d = ⟨String.ofList nm, kind, nameSpan keyword p gap nm⟩ := by
  rw [Declaration.ofShape?, Option.map_eq_some_iff]
  constructor
  · rintro ⟨m, hm, rfl⟩
    obtain ⟨p, b, rfl, hm, hmin⟩ := (Pattern.first?_eq_some_iff a l m).mp hm
    obtain ⟨gap, nm, r, hd, hg⟩ := h.sound p b m hm
    refine ⟨p, gap, nm, r, hd, ?_, by rw [hg, Span.text, hd.chars_nameSpan]⟩
    intro p' gap' nm' r' hd'
    refine Nat.le_of_not_lt fun hlt => ?_
    have hnone := hmin p' _ hd'.line hlt
    exact h.complete p' _ gap' nm' r' (by rw [← hd'.line]; exact hd') hnone
  · rintro ⟨p, gap, nm, r, hd, hmin, rfl⟩
    have hd₀ := hd
    rw [hd.line] at hd₀
    cases hm : a.matchAt? (.between p (keyword ++ (gap ++ (nm ++ r)))) with
    | none => exact absurd hm (h.complete p _ gap nm r hd₀)
    | some m =>
      refine ⟨m, (Pattern.first?_eq_some_iff a l m).mpr ⟨p, _, hd.line, hm, ?_⟩, ?_⟩
      · rintro p' b' rfl hlt
        refine (h.matchAt?_eq_none_iff p' b').mpr fun gap' nm' r' hd' => ?_
        exact absurd hlt (Nat.not_lt.mpr (hmin p' gap' nm' r' hd'))
      · obtain ⟨gap', nm', r', hd', hg⟩ := h.sound p _ m hm
        obtain ⟨rfl, rfl, rfl⟩ := hd₀.unique h.closes hd'
        rw [hg, Span.text, hd.chars_nameSpan]

theorem ofShape?_eq_none_iff (kind : SymbolKind) (l : Line) :
    Declaration.ofShape? kind a l = none ↔
      ∀ p gap nm r, ¬ DeclaredAt keyword Tail l p gap nm r := by
  rw [Declaration.ofShape?, Option.map_eq_none_iff, Pattern.first?_eq_none_iff]
  constructor
  · intro hnone p gap nm r hd
    have hd₀ := hd
    rw [hd.line] at hd₀
    exact h.complete p _ gap nm r hd₀ (hnone p _ hd.line)
  · rintro hno p b rfl
    exact (h.matchAt?_eq_none_iff p b).mpr (hno p)

/-- Lines whose declarations correspond one to one, in the same order, have corresponding leftmost
declarations.  `R` relates what stands before and behind them. -/
theorem ofShape?_match (kind : SymbolKind) {l l' : Line} {σ : Line → Line}
    {R : Line → Line → Line → Line → Prop}
    (hmono : ∀ p r p' r' q s q' s', R p r p' r' → R q s q' s' → p.length ≤ q.length →
      p'.length ≤ q'.length)
    (hto : ∀ p gap nm r, DeclaredAt keyword Tail l p gap nm r →
      ∃ p' r', R p r p' r' ∧ DeclaredAt keyword Tail l' p' gap (σ nm) r')
    (hfrom : ∀ p' gap' nm' r', DeclaredAt keyword Tail l' p' gap' nm' r' →
      ∃ p gap nm r, R p r p' r' ∧ DeclaredAt keyword Tail l p gap nm r) :
    Option.Rel (fun d d' => ∃ p r p' r' gap nm, R p r p' r' ∧
      DeclaredAt keyword Tail l p gap nm r ∧ DeclaredAt keyword Tail l' p' gap (σ nm) r' ∧
      d = ⟨String.ofList nm, kind, nameSpan keyword p gap nm⟩ ∧
      d' = ⟨String.ofList (σ nm), kind, nameSpan keyword p' gap (σ nm)⟩)
    (Declaration.ofShape? kind a l) (Declaration.ofShape? kind a l') := by
  cases hl : Declaration.ofShape? kind a l with
  | none =>
    have hl' : Declaration.ofShape? kind a l' = none := by
      refine (h.ofShape?_eq_none_iff kind l').mpr fun p' gap' nm' r' hd' => ?_
      obtain ⟨p, gap, nm, r, -, hd⟩ := hfrom p' gap' nm' r' hd'
      exact (h.ofShape?_eq_none_iff kind l).mp hl p gap nm r hd
    rw [hl']
    exact .none
  | some d =>
    obtain ⟨p, gap, nm, r, hd, hmin, rfl⟩ := (h.ofShape?_eq_some_iff kind l d).mp hl
    obtain ⟨p', r', hR, hd'⟩ := hto p gap nm r hd
    have hl' : Declaration.ofShape? kind a l' =
        some ⟨String.ofList (σ nm), kind, nameSpan keyword p' gap (σ nm)⟩ := by
      refine (h.ofShape?_eq_some_iff kind l' _).mpr ⟨p', gap, σ nm, r', hd', ?_, rfl⟩
      intro q' gap' nm' s' he'
      obtain ⟨q, gap₁, nm₁, s, hQ, he⟩ := hfrom q' gap' nm' s' he'
      exact hmono _ _ _ _ _ _ _ _ hR hQ (hmin q gap₁ nm₁ s he)
    rw [hl']
    exact .some ⟨p, r, p', r', gap, nm, hR, hd, hd', rfl, rfl⟩

end DeclarationShape
end LanguageService
