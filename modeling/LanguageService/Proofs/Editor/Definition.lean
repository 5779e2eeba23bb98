import LanguageService.Proofs.Editor.Occurrences
import LanguageService.Proofs.Language.NamedDeclarations

/-!
# From a symbol to its definition

The table of symbols takes the first declaration of a name on a code line, by the patterns for any
name.  The definition of a name is its first introduction on any line, by the pattern for this name.
The two see the same variables and functions.  An import whose name is cut short by a letter that is
no ASCII letter is a symbol, but it introduces nothing.

* `Introduces name l`           the line introduces the name
* `declaredSpan?_eq_some_iff`   the leftmost introduction on a line
* `exists_of_declarationOf?`, `exists_declarationOf?`   the first line that introduces a name
* `Declaration.Seen`            a declaration on a line against the introductions of its name
* `definition_of_mem_indexSymbols`   which symbols have a definition, and where it stands
-/

namespace LanguageService

/-- the line introduces the name somewhere -/
def Introduces (name l : Line) : Prop :=
  ∃ p s, IntroducedAt name l p s

/-! ## one line -/

section
variable {name : String} (hname : IsName name.toList)
include hname

/-- the declaration of a name on a line is the leftmost place that introduces it -/
theorem declaredSpan?_eq_some_iff {l : Line} {s : Span} : declaredSpan? name l = some s ↔
    ∃ p, IntroducedAt name.toList l p s ∧
      ∀ p' s', IntroducedAt name.toList l p' s' → p.length ≤ p'.length := by
  rw [declaredSpan?, Option.bind_eq_some_iff]
  constructor
  · intro h
    obtain ⟨m, hm, hgroup⟩ := h
    obtain ⟨p, b, rfl, hat, hmin⟩ := (Pattern.first?_eq_some_iff _ l m).mp hm
    obtain ⟨t, ht, hspan⟩ := introducedAt_of_matchAt? hname hat
    obtain rfl := Option.some.inj (hspan.symm.trans hgroup)
    refine ⟨p, ht, fun p' s' h' => Nat.le_of_not_lt fun hlt => ?_⟩
    obtain ⟨b', hb'⟩ := h'.exists_eq_append
    rw [hb'] at h'
    exact matchAt?_of_introducedAt hname h' (hmin p' b' hb' hlt)
  · intro h
    obtain ⟨p, hp, hmin⟩ := h
    obtain ⟨b, rfl⟩ := hp.exists_eq_append
    cases hat : (Shape.declaration name).matchAt? (.between p b) with
    | none => exact absurd hat (matchAt?_of_introducedAt hname hp)
    | some m =>
      obtain ⟨t, ht, hspan⟩ := introducedAt_of_matchAt? hname hat
      obtain rfl := hp.unique ht
      refine ⟨m, (Pattern.first?_eq_some_iff _ _ m).mpr ⟨p, b, rfl, hat, ?_⟩, hspan⟩
      intro p' b' hb' hlt
      cases hat' : (Shape.declaration name).matchAt? (.between p' b') with
      | none => rfl
      | some m' =>
        obtain ⟨t', ht', -⟩ := introducedAt_of_matchAt? hname hat'
        rw [← hb'] at ht'
        exact absurd hlt (Nat.not_lt.mpr (hmin p' t' ht'))

theorem exists_declaredSpan?_iff {l : Line} :
    (∃ s, declaredSpan? name l = some s) ↔ Introduces name.toList l := by
  constructor
  · intro h
    obtain ⟨s, hs⟩ := h
    obtain ⟨p, hp, -⟩ := (declaredSpan?_eq_some_iff hname).mp hs
    exact ⟨p, s, hp⟩
  · intro h
    obtain ⟨p, s, hp⟩ := h
    obtain ⟨b, rfl⟩ := hp.exists_eq_append
    cases hm : (Shape.declaration name).first? (p ++ b) with
    | none =>
      have hnone := (Pattern.first?_eq_none_iff _ _).mp hm p b rfl
      exact absurd hnone (matchAt?_of_introducedAt hname hp)
    | some m =>
      obtain ⟨q, c, hq, hat, -⟩ := (Pattern.first?_eq_some_iff _ _ m).mp hm
      obtain ⟨t, -, hspan⟩ := introducedAt_of_matchAt? hname hat
      exact ⟨t, by rw [declaredSpan?, hm]; exact hspan⟩

theorem start_le_of_declaredSpan? {l : Line} {s : Span} (h : declaredSpan? name l = some s)
    {p' : Line} {s' : Span} (h' : IntroducedAt name.toList l p' s') : s.start ≤ s'.start := by
  obtain ⟨p, hp, hmin⟩ := (declaredSpan?_eq_some_iff hname).mp h
  rcases Nat.lt_or_eq_of_le (hmin p' s' h') with hlt | heq
  · exact Nat.le_of_lt (hp.start_lt h' hlt)
  · obtain ⟨b, rfl⟩ := hp.exists_eq_append
    obtain ⟨b', hb'⟩ := h'.exists_eq_append
    obtain ⟨rfl, rfl⟩ := List.append_inj hb' heq
    exact Nat.le_of_eq (congrArg Span.start (hp.unique h'))

end

/-! ## the whole document -/

theorem exists_of_declarationOf? {lines : List Line} {name : String} {r : Range}
    (h : declarationOf? lines name = some r) : ∃ n l s, lines[n]? = some l ∧
      declaredSpan? name l = some s ∧ r = s.range n l ∧
      ∀ m k, lines[m]? = some k → m < n → declaredSpan? name k = none := by
  obtain ⟨before, k, after, hsplit, hk, hbefore⟩ := List.findSome?_eq_some_iff.mp h
  obtain ⟨s, hs, rfl⟩ := Option.map_eq_some_iff.mp hk
  have hmem : k ∈ numberLines lines := by
    rw [hsplit]
    exact List.mem_append_right _ List.mem_cons_self
  refine ⟨k.number, k.text, s, mem_numberLines_iff.mp hmem, hs, rfl, fun m t ht hlt => ?_⟩
  have hm : (⟨m, t⟩ : NumberedLine) ∈ numberLines lines := mem_numberLines_iff.mpr ht
  have horder := numberFrom_pairwise lines 0
  rw [← numberLines, hsplit] at horder
  rw [hsplit] at hm
  rcases List.mem_append.mp hm with hm | hm
  · exact Option.map_eq_none_iff.mp (hbefore _ hm)
  · -- the lines from this one on have no smaller number
    rcases List.mem_cons.mp hm with heq | hm
    · rw [← heq] at hlt
      exact absurd hlt (Nat.lt_irrefl _)
    · have := (List.pairwise_cons.mp (List.pairwise_append.mp horder).2.1).1 _ hm
      exact absurd hlt (Nat.lt_asymm this)

theorem exists_declarationOf? {lines : List Line} {name : String} (hname : IsName name.toList)
    {n : Nat} {l : Line} (hl : lines[n]? = some l) (h : Introduces name.toList l) :
    ∃ r, declarationOf? lines name = some r := by
  obtain ⟨s, hs⟩ := (exists_declaredSpan?_iff hname).mpr h
  cases hfound : declarationOf? lines name with
  | some r => exact ⟨r, rfl⟩
  | none =>
    have hk : (⟨n, l⟩ : NumberedLine) ∈ numberLines lines := mem_numberLines_iff.mpr hl
    have hnone := List.findSome?_eq_none_iff.mp hfound _ hk
    rw [hs] at hnone
    cases hnone

/-! ## a symbol on its line -/

/-- What a declaration on a line and the introductions of its name there have to do with each other.
The name stands between `before` and `after`. -/
structure Declaration.Seen (l : Line) (d : Declaration) (before nm after : Line) : Prop where
  line : l = before ++ (nm ++ after)
  name : d.name = String.ofList nm
  isName : IsName nm
  span : d.span = ⟨before.length, before.length + nm.length⟩
  edge : endsInWord before = false
  /-- the name of a function or variable is a whole word -/
  closed : d.kind ≠ .imported → startsInWord after = false
  /-- a whole word is introduced where it is declared -/
  introduced : startsInWord after = false → ∃ p, IntroducedAt nm l p d.span
  /-- a name that is cut short is introduced only further to the right -/
  later : startsInWord after = true → ∀ p s, IntroducedAt nm l p s → d.span.start < s.start

theorem seen_binding {l p gap nm r : Line} {kind : SymbolKind}
    (h : DeclaredAt declarationKeyword.toList VariableTail l p gap nm r) :
    Declaration.Seen l ⟨String.ofList nm, kind, nameSpan declarationKeyword.toList p gap nm⟩
      (p ++ (declarationKeyword.toList ++ gap)) nm r where
  line := h.line_eq
  name := rfl
  isName := h.name
  span := rfl
  edge := h.edge_before_name
  closed := fun _ => h.tail.startsInWord
  introduced := fun _ => ⟨p, .binding h⟩
  later := by
    intro hr
    rw [h.tail.startsInWord] at hr
    cases hr

/-- An import is introduced where it is declared if its name is a whole word.  Otherwise the line,
which declares no variable and nothing further to the left, introduces the name only behind it. -/
theorem seen_import {l p gap nm r : Line} {kind : SymbolKind} (hkind : kind = .imported)
    (h : DeclaredAt "import".toList ImportTail l p gap nm r)
    (hmin : ∀ p' gap' nm' r', DeclaredAt "import".toList ImportTail l p' gap' nm' r' →
      p.length ≤ p'.length)
    (hno : ∀ p' gap' nm' r',
      ¬ DeclaredAt declarationKeyword.toList VariableTail l p' gap' nm' r') :
    Declaration.Seen l ⟨String.ofList nm, kind, nameSpan "import".toList p gap nm⟩
      (p ++ ("import".toList ++ gap)) nm r where
  line := h.line_eq
  name := rfl
  isName := h.name
  span := rfl
  edge := h.edge_before_name
  closed := fun hne => absurd hkind hne
  introduced := fun hr => ⟨p, .imported { h with tail := hr }⟩
  later := by
    intro hr p' s' h'
    cases h' with
    | binding h' => exact absurd h' (hno _ _ _ _)
    | @imported gap' r' h' =>
      have himport : DeclaredAt "import".toList ImportTail l p' gap' nm r' :=
        { h' with tail := h'.tail.importTail }
      rcases Nat.lt_or_eq_of_le (hmin _ _ _ _ himport) with hlt | heq
      · exact h.start_lt h' isWordText_import isWordText_import hlt
      · obtain ⟨rfl, -⟩ := List.append_inj (h.line.symm.trans h'.line) heq
        obtain ⟨-, -, rfl⟩ := h.unique (fun _ ht => ht) himport
        rw [show startsInWord r = false from h'.tail] at hr
        cases hr

theorem exists_seen {l : Line} {d : Declaration} (h : Declaration.first? l = some d) :
    ∃ before nm after, d.Seen l before nm after := by
  rw [Declaration.first?, Declaration.binding?, Declaration.imported?, Option.or_assoc,
    Option.or_eq_some_iff, Option.or_eq_some_iff] at h
  rcases h with h | ⟨-, h | ⟨hvariable, h⟩⟩
  · obtain ⟨p, gap, nm, r, hd, -, rfl⟩ := (shape_function.ofShape?_eq_some_iff _ l d).mp h
    exact ⟨_, nm, r, seen_binding { hd with tail := hd.tail.variableTail }⟩
  · obtain ⟨p, gap, nm, r, hd, -, rfl⟩ := (shape_variable.ofShape?_eq_some_iff _ l d).mp h
    exact ⟨_, nm, r, seen_binding hd⟩
  · obtain ⟨p, gap, nm, r, hd, hmin, rfl⟩ := (shape_import.ofShape?_eq_some_iff _ l d).mp h
    exact ⟨_, nm, r, seen_import rfl hd hmin ((shape_variable.ofShape?_eq_none_iff _ l).mp hvariable)⟩

/-! ## the definition of a symbol -/

/-- a line above line `n` introduces the name -/
def IntroducedAbove (lines : List Line) (name : String) (n : Nat) : Prop :=
  ∃ m < n, ∃ l, lines[m]? = some l ∧ Introduces name.toList l

theorem textIn_declarationOf? {lines : List Line} {name : String} (hname : IsName name.toList)
    {r : Range} (h : declarationOf? lines name = some r) : r.textIn lines = some name := by
  obtain ⟨n, l, s, hl, hs, rfl, -⟩ := exists_of_declarationOf? h
  obtain ⟨p, hp, -⟩ := (declaredSpan?_eq_some_iff hname).mp hs
  rw [textIn_range hl hp.le_length, Span.text, hp.chars_eq, String.ofList_toList]

/-- The definition of a name stands on a line or above it if one of these lines introduces the name,
and on the line itself it is no further to the right than any introduction. -/
theorem declarationOf?_le {lines : List Line} {name : String} (hname : IsName name.toList)
    {n : Nat} {l : Line} (hl : lines[n]? = some l) {p : Line} {s : Span}
    (hp : IntroducedAt name.toList l p s) : ∃ r, declarationOf? lines name = some r ∧
      r.start.le (s.range n l).start = true := by
  obtain ⟨r, hr⟩ := exists_declarationOf? hname hl ⟨p, s, hp⟩
  refine ⟨r, hr, ?_⟩
  obtain ⟨m, k, t, hk, ht, rfl, hfirst⟩ := exists_of_declarationOf? hr
  rw [Position.le_iff]
  rcases Nat.lt_trichotomy m n with hlt | rfl | hgt
  · exact Or.inl hlt
  · obtain rfl : k = l := Option.some.inj (hk.symm.trans hl)
    exact Or.inr ⟨rfl, column_mono k (start_le_of_declaredSpan? hname ht hp)⟩
  · obtain ⟨u, hu⟩ := (exists_declaredSpan?_iff hname).mpr ⟨p, s, hp⟩
    rw [hfirst n l hl hgt] at hu
    cases hu

theorem IntroducedAbove.exists_declarationOf? {lines : List Line} {name : String}
    (hname : IsName name.toList) {n : Nat} (h : IntroducedAbove lines name n) :
    ∃ r, declarationOf? lines name = some r ∧ r.start.line < n := by
  obtain ⟨m, hm, l, hl, p, s, hp⟩ := h
  obtain ⟨r, hr, hle⟩ := declarationOf?_le hname hl hp
  refine ⟨r, hr, ?_⟩
  rcases Position.le_iff.mp hle with hlt | ⟨heq, -⟩
  · exact Nat.lt_trans hlt hm
  · rw [heq]
    exact hm

section
variable {lines : List Line} {s : Symbol} {k : NumberedLine} {d : Declaration}
  {before nm after : Line} (hd : Declares lines k d s) (hseen : d.Seen k.text before nm after)
include hd hseen

theorem toList_of_seen : s.name.toList = nm := by
  rw [hd.name, hseen.name, String.toList_ofList]

theorem standsAlone_nameRange_iff :
    standsAlone lines s.nameRange = true ↔ startsInWord after = false := by
  have hk := text_of_mem_codeLines hd.mem
  rw [hseen.line] at hk
  have hbetween := standsAlone_between hk
  rw [← hseen.line, ← hseen.span, ← hd.range] at hbetween
  rw [hbetween]
  exact and_iff_right hseen.edge

/-- A definition that is not behind the symbol is on its line, where the symbol then stands alone, or
above. -/
theorem alone_or_above {r : Range} (hr : declarationOf? lines s.name = some r)
    (hle : r.start.le s.nameRange.start = true) :
    startsInWord after = false ∨ IntroducedAbove lines s.name s.line := by
  have hnm := toList_of_seen hd hseen
  have hname : IsName s.name.toList := by
    rw [hnm]
    exact hseen.isName
  obtain ⟨n, l, t, hl, ht, rfl, -⟩ := exists_of_declarationOf? hr
  obtain ⟨p, hp, -⟩ := (declaredSpan?_eq_some_iff hname).mp ht
  rw [Position.le_iff, hd.range] at hle
  rcases hle with hlt | ⟨heq, hcol⟩
  · exact Or.inr ⟨n, by rw [hd.line]; exact hlt, l, hl, p, t, hp⟩
  · left
    obtain rfl : n = k.number := heq
    obtain rfl : l = k.text := Option.some.inj (hl.symm.trans (text_of_mem_codeLines hd.mem))
    have hcol : column k.text t.start ≤ column k.text d.span.start := hcol
    cases hafter : startsInWord after with
    | false => rfl
    | true =>
      -- the name goes on, so that what is found on this line is further to the right
      rw [hnm] at hp
      have hlt := hseen.later hafter p t hp
      have hle := place_mono k.text hcol
      rw [place_column _ _ hp.le_length.1, place_column _ _ (span_le_of_first? hd.first).1] at hle
      exact absurd hle (Nat.not_le.mpr hlt)

end

/-- **The definition of a symbol.**  The range that is found for its name holds the name.  It is found,
and not behind the symbol, exactly if no word character touches the name of the symbol or a line above
introduces the name; the first holds for every function and variable. -/
theorem definition_of_mem_indexSymbols {lines : List Line} {s : Symbol}
    (hs : s ∈ (indexSymbols lines).symbols) :
    (∀ r, declarationOf? lines s.name = some r → r.textIn lines = some s.name) ∧
    ((∃ r, declarationOf? lines s.name = some r ∧ r.start.le s.nameRange.start = true) ↔
      standsAlone lines s.nameRange = true ∨ IntroducedAbove lines s.name s.line) ∧
    (s.kind ≠ .imported → standsAlone lines s.nameRange = true) := by
  obtain ⟨k, d, hd⟩ := exists_declares hs
  obtain ⟨before, nm, after, hseen⟩ := exists_seen hd.first
  have hname := isName_of_mem_indexSymbols hs
  rw [standsAlone_nameRange_iff hd hseen]
  refine ⟨fun r hr => textIn_declarationOf? hname hr, ⟨?_, ?_⟩, ?_⟩
  · intro h
    obtain ⟨r, hr, hle⟩ := h
    exact alone_or_above hd hseen hr hle
  · intro h
    rcases h with halone | habove
    · obtain ⟨p, hp⟩ := hseen.introduced halone
      rw [← toList_of_seen hd hseen] at hp
      rw [hd.range]
      exact declarationOf?_le hname (text_of_mem_codeLines hd.mem) hp
    · obtain ⟨r, hr, hlt⟩ := habove.exists_declarationOf? hname
      refine ⟨r, hr, Position.le_iff.mpr (Or.inl ?_)⟩
      rw [line_nameRange hs]
      exact hlt
  · intro h
    rw [hd.kind] at h
    exact hseen.closed h

/-- a variable whose name stands behind `let` in the comment above it -/
def remarkedLines : List Line :=
  ["// let a = 1".toList, "let a = 2".toList]

theorem definition_remarkedLines :
    let s : Symbol := ⟨"a", .var, 1, ⟨⟨1, 4⟩, ⟨1, 5⟩⟩, [], false⟩
    s ∈ (indexSymbols remarkedLines).symbols ∧
      ∃ r, declarationOf? remarkedLines "a" = some r ∧ r.textIn remarkedLines = some "a" ∧
        r.start.le s.nameRange.start = true := by
  intro s
  have hs : s ∈ (indexSymbols remarkedLines).symbols := by decide +kernel
  obtain ⟨htext, hfound, halone⟩ := definition_of_mem_indexSymbols hs
  obtain ⟨r, hr, hle⟩ := hfound.mpr (Or.inl (halone (by decide)))
  exact ⟨hs, r, hr, htext r hr, hle⟩

/-- an import whose name is cut short by an accented letter -/
def accentedImport : List Line := ["import fooé".toList]

/-- The import is a symbol under the front part of its name, and this name has no definition. -/
theorem definition_accentedImport :
    (⟨"foo", .imported, 0, ⟨⟨0, 7⟩, ⟨0, 10⟩⟩, [], false⟩ : Symbol) ∈
      (indexSymbols accentedImport).symbols ∧
      isReserved "foo" = false ∧ declarationOf? accentedImport "foo" = none := by
  decide +kernel

end LanguageService
