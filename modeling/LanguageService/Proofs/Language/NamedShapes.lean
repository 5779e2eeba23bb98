import Mathlib.Data.List.Basic
import LanguageService.Proofs.Language.Calls
import LanguageService.Proofs.Language.NamedDeclarations
import LanguageService.Proofs.Pattern.Successive

/-!
# Shapes of any name and of a given name

A text is searched for words, calls and function declarations of any identifier, and for those of
one given name.  The search goes on behind each match, so a match of any identifier could hide one
of the given name; it never does.

* `mem_identifier_iff`       the identifiers of a line
* `all_word`, `map_span_call`   words and calls of a given name
* `FunctionFound l nm m`     the match of a declaration of the function `nm`
* `DeclaredAt.not_at_name`, `DeclaredAt.le_of_behind_name`   where no other declaration begins
* `FunctionFound.eq_of_overlap`   so none begins inside a match
* `finds_functionOf_iff`     the matches of the pattern, for any names it asks for
* `named_shapes_agree`       each shape of a given name, among those of any identifier
-/

namespace LanguageService

variable {l : Line}

/-! ## words -/

theorem mem_identifier_iff {m : Match} : m ∈ Shape.identifier.all l ↔
    IsWordRun l m.span ∧ IsName (m.span.chars l) ∧ m.groups = [] := by
  rw [Pattern.all_of_fitsWords Pattern.fitsWords_identifier, List.mem_map]
  constructor
  · intro h
    obtain ⟨s, hs, rfl⟩ := h
    obtain ⟨hrun, hname⟩ := List.mem_filter.mp hs
    exact ⟨(mem_wordRuns_iff l s).mp hrun, (isNameText_iff _).mp hname, rfl⟩
  · intro h
    obtain ⟨hrun, hname, hgroups⟩ := h
    refine ⟨m.span, List.mem_filter.mpr ⟨(mem_wordRuns_iff l m.span).mpr hrun,
      (isNameText_iff _).mpr hname⟩, ?_⟩
    rw [← hgroups]

theorem neverEmpty_identifier : Shape.identifier.NeverEmpty :=
  (Pattern.beginsWithWord_of_fitsWords Pattern.fitsWords_identifier).neverEmpty

theorem all_word {name : String} (hname : IsName name.toList) (l : Line) :
    (Shape.word name).all l =
      (Shape.identifier.all l).filter fun m => m.span.text l = name := by
  rw [Pattern.all_of_fitsWords (Pattern.fitsWords_word hname.isWordText),
    Pattern.all_of_fitsWords Pattern.fitsWords_identifier, List.filter_map, List.filter_filter]
  refine congrArg (List.map _) (List.filter_congr fun s _ => ?_)
  show (s.chars l == name.toList) = (decide (s.text l = name) && isNameText (s.chars l))
  by_cases htext : s.chars l = name.toList
  · rw [htext, (isNameText_iff _).mpr hname, decide_eq_true (Span.text_eq_iff.mpr htext),
      beq_self_eq_true]
    rfl
  · rw [beq_eq_false_iff_ne.mpr htext, decide_eq_false (mt Span.text_eq_iff.mp htext)]
    rfl

/-! ## calls -/

/-- the first group of a match reads the name -/
def Match.Names (name : String) (l : Line) (m : Match) : Prop :=
  (m.group? 1).map (fun s => s.text l) = some name

instance (name : String) (l : Line) : DecidablePred (Match.Names name l) :=
  fun _ => inferInstanceAs (Decidable (_ = _))

theorem map_span_call {name : String} (hname : IsName name.toList) (l : Line) :
    ((Shape.call name).all l).map Match.span =
      ((Shape.anyCall.all l).filter (Match.Names name l)).map Match.span := by
  rw [all_call hname.isWordText, all_anyCall, List.filter_filterMap, List.map_filterMap,
    List.map_filterMap]
  refine List.filterMap_congr fun s _ => ?_
  rw [Pattern.foundAt, Pattern.foundAt]
  by_cases htext : s.chars l = name.toList
  · have hident : isNameText (s.chars l) = true := by rwa [htext, isNameText_iff]
    rw [if_pos (beq_iff_eq.mpr htext), if_pos hident]
    cases callGap (l.drop s.stop) with
    | none => rfl
    | some k =>
      have hnames : Match.Names name l (Pattern.wordMatch (fun s => [(1, s)]) s k) :=
        congrArg some (Span.text_eq_iff.mpr htext)
      rw [Option.map_some, Option.map_some, Option.map_some, Option.filter_some,
        if_pos (decide_eq_true hnames)]
      rfl
  · -- a call of another name is left out
    rw [if_neg (mt beq_iff_eq.mp htext)]
    cases (if isNameText (s.chars l) = true then callGap (l.drop s.stop) else none) with
    | none => rfl
    | some k =>
      have hnames : ¬ Match.Names name l (Pattern.wordMatch (fun s => [(1, s)]) s k) :=
        fun h => htext (Span.text_eq_iff.mp (Option.some.inj h))
      rw [Option.map_some, Option.filter_some, if_neg (mt of_decide_eq_true hnames)]
      rfl

/-! ## function declarations -/

/-- The tail of a function declaration, up to the keyword, and then `y`. -/
def FunctionTailTo (y r : Line) : Prop :=
  ∃ g g', r = g ++ '=' :: (g' ++ (functionKeyword.toList ++ y)) ∧ AllBlank g ∧ AllBlank g' ∧
    startsInWord y = false

/-- `m` is the match of a declaration of the function `nm`. -/
def FunctionFound (l nm : Line) (m : Match) : Prop :=
  ∃ p gap r y, DeclaredAt declarationKeyword.toList (FunctionTailTo y) l p gap nm r ∧
    m = ⟨⟨p.length, l.length - y.length⟩, [(1, nameSpan declarationKeyword.toList p gap nm)]⟩

theorem head?_equals (z : Line) : ('=' :: z).head?.any isBlank = false :=
  not_isBlank_eq

namespace FunctionTailTo

variable {y y' r : Line}

theorem functionTail (h : FunctionTailTo y r) : FunctionTail r := by
  obtain ⟨g, g', hr, hg, hg', hy⟩ := h
  exact ⟨g, g', y, hr, hg, hg', hy⟩

theorem unique (h : FunctionTailTo y r) (h' : FunctionTailTo y' r) : y = y' := by
  have hplain (z : Line) : (functionKeyword.toList ++ z).head?.any isBlank = false :=
    not_blank_of_startsInWord (isWordText_func.startsInWord_append z)
  obtain ⟨g, g', hr, hg, hg', -⟩ := h
  obtain ⟨k, k', hr', hk, hk', -⟩ := h'
  have hequals := (run_unique hg (head?_equals _) hk (head?_equals _) (hr.symm.trans hr')).2
  have hkeyword := (run_unique hg' (hplain y) hk' (hplain y') (List.cons.inj hequals).2).2
  exact List.append_cancel_left hkeyword

/-- nothing but the keyword in the tail is a word -/
theorem exists_gap (h : FunctionTailTo y r) :
    ∃ g, r = g ++ (functionKeyword.toList ++ y) ∧ ∀ c ∈ g, isWord c = false := by
  obtain ⟨g, g', rfl, hg, hg', -⟩ := h
  refine ⟨g ++ '=' :: g', by simp only [List.append_assoc, List.cons_append], fun c hc => ?_⟩
  rcases List.mem_append.mp hc with hc | hc
  · exact not_isWord_of_isBlank (hg c hc)
  · rcases List.mem_cons.mp hc with rfl | hc
    · exact not_isWord_eq
    · exact not_isWord_of_isBlank (hg' c hc)

end FunctionTailTo

namespace DeclaredAt

variable {p p' gap gap' nm nm' r r' y : Line} {Tail : Line → Prop}

theorem functionTail (h : DeclaredAt declarationKeyword.toList (FunctionTailTo y) l p gap nm r) :
    DeclaredAt declarationKeyword.toList FunctionTail l p gap nm r :=
  { h with tail := h.tail.functionTail }

theorem startsInWord_let (h : DeclaredAt declarationKeyword.toList Tail l p gap nm r) :
    startsInWord (declarationKeyword.toList ++ (gap ++ (nm ++ r))) = true ∧
      startsInWord (gap ++ (nm ++ r)) = false := by
  refine ⟨isWordText_let.startsInWord_append _, ?_⟩
  rw [startsInWord_append _ h.gap_ne, startsInWord_of_blank h.gap_blank]

/-- An equals sign, and no name, stands behind the name; so no declaration begins with the name,
even where it reads like the keyword. -/
theorem not_at_name (h : DeclaredAt declarationKeyword.toList VariableTail l p gap nm r)
    (h' : DeclaredAt declarationKeyword.toList Tail l p' gap' nm' r') :
    (p ++ (declarationKeyword.toList ++ gap)).length ≠ p'.length := by
  intro hplace
  obtain ⟨g, s, rfl, hg⟩ := h.tail
  obtain ⟨-, hname⟩ := List.append_inj (h.line_eq.symm.trans h'.line) hplace
  obtain ⟨-, hgap⟩ := run_unique h.name.isWordText.isWord (startsInWord_gap hg not_isWord_eq s)
    isWordText_let.isWord h'.startsInWord_let.2 hname
  obtain ⟨-, hequals⟩ := run_unique hg (head?_equals s) h'.gap_blank
    (not_isBlank_of_isName h'.name r') hgap
  obtain ⟨c, t, rfl, hc, -⟩ := h'.name
  rw [← (List.cons.inj hequals).1] at hc
  exact absurd hc (by decide)

/-- The function keyword is the last word of a function declaration, and it begins no other
declaration. -/
theorem le_of_behind_name
    (h : DeclaredAt declarationKeyword.toList (FunctionTailTo y) l p gap nm r)
    (h' : DeclaredAt declarationKeyword.toList Tail l p' gap' nm' r')
    (hname : (p ++ (declarationKeyword.toList ++ gap)).length < p'.length) :
    l.length - y.length ≤ p'.length := by
  obtain ⟨g, rfl, hg⟩ := h.tail.exists_gap
  have hfunc := le_of_startsInWord h.name.isWordText hg (h.line_eq.symm.trans h'.line) h'.edge
    h'.startsInWord_let.1 hname
  have hline : l = (p ++ (declarationKeyword.toList ++ gap) ++ (nm ++ g)) ++
      (functionKeyword.toList ++ ([] ++ y)) := by
    rw [h.line_eq]
    simp only [List.append_assoc, List.nil_append]
  rcases Nat.eq_or_lt_of_le hfunc with hfunc | hfunc
  · obtain ⟨-, hkeyword⟩ := List.append_inj (hline.symm.trans h'.line) hfunc
    exact absurd (congrArg List.head? hkeyword) (by simp [functionKeyword, declarationKeyword])
  · have hstop := le_of_startsInWord isWordText_func (fun c hc => absurd hc List.not_mem_nil)
      (hline.symm.trans h'.line) h'.edge h'.startsInWord_let.1 hfunc
    rw [hline]
    simp only [List.length_append, List.length_nil] at hstop ⊢
    omega

end DeclaredAt

namespace FunctionFound

variable {nm nm' : Line} {m m' : Match}

theorem names_iff (h : FunctionFound l nm m) {name : String} :
    Match.Names name l m ↔ nm = name.toList := by
  obtain ⟨p, gap, r, y, hd, rfl⟩ := h
  have htext : (nameSpan declarationKeyword.toList p gap nm).text l = name ↔
      nm = name.toList := by
    rw [Span.text_eq_iff, hd.chars_nameSpan]
  rw [← htext, ← Option.some_inj]
  exact Iff.rfl

theorem eq_of_start_eq (h : FunctionFound l nm m) (h' : FunctionFound l nm' m')
    (hstart : m.span.start = m'.span.start) : m = m' := by
  obtain ⟨p, gap, r, y, hd, rfl⟩ := h
  obtain ⟨p', gap', r', y', hd', rfl⟩ := h'
  obtain ⟨rfl, -⟩ := List.append_inj (hd.line.symm.trans hd'.line) hstart
  obtain ⟨rfl, rfl, rfl⟩ := hd.functionTail.unique shape_function.closes hd'.functionTail
  rw [hd.tail.unique hd'.tail]

/-- A match does not begin inside another one: the words of a match are the two keywords and the
name, and none but the first of them begins a match. -/
theorem eq_of_overlap (h : FunctionFound l nm m) (h' : FunctionFound l nm' m')
    (hle : m.span.start ≤ m'.span.start) (hlt : m'.span.start < m.span.stop) : m = m' := by
  refine h.eq_of_start_eq h' (Nat.le_antisymm hle (Nat.le_of_not_lt fun hafter => ?_))
  obtain ⟨p, gap, r, y, hd, rfl⟩ := h
  obtain ⟨p', gap', r', y', hd', rfl⟩ := h'
  have hvariable : DeclaredAt declarationKeyword.toList VariableTail l p gap nm r :=
    { hd with tail := hd.tail.functionTail.variableTail }
  have hname := hd.le_of_word isWordText_let hd'.line hd'.edge hd'.startsInWord_let.1 hafter
  have hstop := hd.le_of_behind_name hd'
    (Nat.lt_of_le_of_ne hname (hvariable.not_at_name hd'))
  exact absurd hlt (Nat.not_lt.mpr hstop)

end FunctionFound

section
variable {a : Pattern} {N : Line → Prop} (ha : ∀ p x y gs, a.Fits p x y gs ↔ N x ∧ gs = [])

theorem neverEmpty_functionOf (a : Pattern) : (Shape.functionOf a).NeverEmpty :=
  Pattern.neverEmpty_of_consumes rfl

include ha

open Pattern in
theorem functionFound_of_matchAt? (hN : ∀ x, N x → IsName x) {p b : Line} {m : Match}
    (hm : (Shape.functionOf a).matchAt? (.between p b) = some m) :
    ∃ nm, N nm ∧ FunctionFound (p ++ b) nm m := by
  obtain ⟨x, y, gs, rfl, hf, rfl⟩ := fits_of_matchAt? hm
  have hstop : (p ++ (x ++ y)).length - y.length = p.length + x.length := by
    rw [← List.append_assoc, List.length_append, Nat.add_sub_cancel, List.length_append]
  obtain ⟨hp, gap, nm, g, g', rfl, hne, hblank, hnm, hg, hg', hy, rfl⟩ := (fits_functionOf ha).mp hf
  refine ⟨nm, hnm, p, gap, _, y, ⟨?_, hp, hne, hblank, hN nm hnm, g, g', rfl, hg, hg', hy⟩, ?_⟩
  · simp only [List.append_assoc, List.cons_append]
  · rw [hstop]

theorem finds_functionOf_iff (hN : ∀ x, N x → IsName x) {m : Match} :
    (Shape.functionOf a).Finds l m ↔ ∃ nm, N nm ∧ FunctionFound l nm m := by
  constructor
  · intro h
    obtain ⟨p, b, rfl, hm⟩ := h
    exact functionFound_of_matchAt? ha hN hm
  · intro h
    obtain ⟨nm, hnm, hfound⟩ := h
    have hfound' := hfound
    obtain ⟨p, gap, r, y, hd, rfl⟩ := hfound'
    have hfunction := hd.functionTail
    rw [hd.line] at hfunction
    obtain ⟨m, hm⟩ := Option.ne_none_iff_exists'.mp (functionOf_of_declaredAt ha hnm hfunction)
    obtain ⟨nm', -, hfound'⟩ := functionFound_of_matchAt? ha hN hm
    rw [← hd.line] at hfound'
    have hstart := (Pattern.start_lt_stop_of_matchAt? (neverEmpty_functionOf a) hm).1
    exact ⟨p, _, hd.line, by rw [hm, hfound'.eq_of_start_eq hfound hstart]⟩

end

theorem finds_anyFunction_iff {m : Match} :
    Shape.anyFunction.Finds l m ↔ ∃ nm, IsName nm ∧ FunctionFound l nm m :=
  finds_functionOf_iff (fun _ _ _ _ => Pattern.fits_identifierText) fun _ h => h

theorem finds_function_iff {name : String} (hname : IsName name.toList) {m : Match} :
    (Shape.function name).Finds l m ↔ FunctionFound l name.toList m := by
  refine (finds_functionOf_iff (fun _ _ _ _ => Pattern.fits_nameText)
    (fun x hx => by rwa [hx])).trans ?_
  rw [exists_eq_left]

theorem anyFunction_apart (l : Line) : Pattern.MatchesApart Shape.anyFunction l := by
  intro m n hm hn hle hlt
  obtain ⟨nm, -, hfound⟩ := finds_anyFunction_iff.mp hm
  obtain ⟨nm', -, hfound'⟩ := finds_anyFunction_iff.mp hn
  exact hfound.eq_of_overlap hfound' hle hlt

theorem all_function {name : String} (hname : IsName name.toList) (l : Line) :
    (Shape.function name).all l = (Shape.anyFunction.all l).filter (Match.Names name l) := by
  have hfinds : ∀ m, (Shape.function name).Finds l m ↔
      Shape.anyFunction.Finds l m ∧ Match.Names name l m := by
    intro m
    rw [finds_function_iff hname, finds_anyFunction_iff]
    constructor
    · intro h
      exact ⟨⟨name.toList, hname, h⟩, h.names_iff.mpr rfl⟩
    · intro h
      obtain ⟨⟨nm, -, hfound⟩, hnames⟩ := h
      rwa [← hfound.names_iff.mp hnames]
  exact Pattern.all_eq_filter (neverEmpty_functionOf _) (neverEmpty_functionOf _)
    (anyFunction_apart l) hfinds

/-! ## all shapes -/

/-- **Shapes of a given name.**  The identifiers that are found on a line are its maximal runs of
word characters that are identifiers.  The places of a given name are those of them that read so;
its calls cover the same stretches as the calls of any identifier whose first group reads so; and
the declarations of the function are those of any function whose first group reads so. -/
theorem named_shapes_agree {name : String} (hname : IsName name.toList) (l : Line) :
    ((∀ m, m ∈ Shape.identifier.all l ↔
        IsWordRun l m.span ∧ IsName (m.span.chars l) ∧ m.groups = []) ∧
      (Shape.identifier.all l).Pairwise fun m n => m.span.stop ≤ n.span.start) ∧
    (Shape.word name).all l =
      (Shape.identifier.all l).filter (fun m => m.span.text l = name) ∧
    ((Shape.call name).all l).map Match.span =
      ((Shape.anyCall.all l).filter (Match.Names name l)).map Match.span ∧
    (Shape.function name).all l = (Shape.anyFunction.all l).filter (Match.Names name l) :=
  ⟨⟨fun _ => mem_identifier_iff,
    List.pairwise_map.mp (Pattern.successive_all neverEmpty_identifier l).apart⟩,
    all_word hname l, map_span_call hname l, all_function hname l⟩

/-- a function with the name of the keyword, a call of it, and a longer word that ends like it -/
def keywordLine : Line := "let let = func(let (é_let(".toList

/-- The keyword counts as a place of the name but begins no other declaration; the longer word is
neither the name nor an identifier. -/
theorem named_shapes_keywordLine :
    IsName "let".toList ∧
    (Shape.word "let").all keywordLine = [⟨⟨0, 3⟩, []⟩, ⟨⟨4, 7⟩, []⟩, ⟨⟨15, 18⟩, []⟩] ∧
    ((Shape.call "let").all keywordLine).map Match.span = [⟨15, 20⟩] ∧
    (Shape.function "let").all keywordLine = [⟨⟨0, 14⟩, [(1, ⟨4, 7⟩)]⟩] := by
  have hname : IsName "let".toList := (isNameText_iff _).mp (by decide +kernel)
  obtain ⟨-, hword, hcall, hfunction⟩ := named_shapes_agree hname keywordLine
  rw [hword, hcall, hfunction]
  exact ⟨hname, by decide +kernel, by decide +kernel, by decide +kernel⟩

end LanguageService
