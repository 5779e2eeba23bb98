import Mathlib.Data.List.Count
import Mathlib.Data.List.Forall2
import LanguageService.Source.Analysis
import LanguageService.Proofs.Source.Assignment
import LanguageService.Proofs.Source.SymbolTable

/-!
# Corresponding documents

Two documents correspond if their code lines do, one by one.  Then their symbols and findings
correspond as well.  Names may change by a renaming of names, and places by any relation `M` between
the spans of two lines.

* `Renames ρ`            an injective map of names that fixes the reserved ones
* `LineMatch ρ M l l'`   what the analysis sees on one line it sees on the other
* `codeLines_match`      lines with the same roles keep their numbers
* `symbols_match`, `findings_match`   the symbols and findings of corresponding documents
-/

namespace LanguageService

/-- Different names stay different, and reserved words stay what they are. -/
structure Renames (ρ : String → String) : Prop where
  injective : Function.Injective ρ
  reserved_iff : ∀ x, isReserved (ρ x) = isReserved x
  fixes : ∀ x, isReserved x = true → ρ x = x

/-- a line without its blank margins -/
def trimmedSpan (l : Line) : Span :=
  ⟨indentWidth l, max (trimEnd l).length (indentWidth l)⟩

/-- The declarations have corresponding names and places, and both names stand as whole words, or
neither does. -/
structure DeclarationMatch (ρ : String → String) (M : Line → Line → Span → Span → Prop)
    (l l' : Line) (d d' : Declaration) : Prop where
  name : d'.name = ρ d.name
  kind : d'.kind = d.kind
  span : M l l' d.span d'.span
  site : d'.span ∈ wordRuns l' ↔ d.span ∈ wordRuns l

/-- What the analysis sees on `l` it sees on `l'`, with other names and at other places. -/
structure LineMatch (ρ : String → String) (M : Line → Line → Span → Span → Prop)
    (l l' : Line) : Prop where
  declared : Option.Rel (DeclarationMatch ρ M l l') (Declaration.first? l) (Declaration.first? l')
  words : wordsOf l' = (wordsOf l).map ρ
  count : ∀ c ∈ ['{', '}', '(', ')'], l'.count c = l.count c
  function : Shape.anyFunction.occurs l' = Shape.anyFunction.occurs l
  assigned : Option.Rel (fun s s' => s'.text l' = ρ (s.text l) ∧ M l l' s s')
    (assigned? l) (assigned? l')
  trimmed : M l l' (trimmedSpan l) (trimmedSpan l')

/-- Ranges on lines of one number, at corresponding places. -/
def RangeMatch (M : Line → Line → Span → Span → Prop) (lines lines' : List Line)
    (r r' : Range) : Prop :=
  ∃ n l l' s s', lines[n]? = some l ∧ lines'[n]? = some l' ∧ M l l' s s' ∧ r = s.range n l ∧
    r' = s'.range n l'

theorem occurs_anyFunction (l : Line) : Shape.anyFunction.occurs l =
    (Declaration.ofShape? .function Shape.anyFunction l).isSome := by
  rw [Declaration.ofShape?, Option.isSome_map, Pattern.occurs]

structure SymbolMatch (ρ : String → String) (M : Line → Line → Span → Span → Prop)
    (lines lines' : List Line) (s s' : Symbol) : Prop where
  name : s'.name = ρ s.name
  kind : s'.kind = s.kind
  line : s'.line = s.line
  references : s'.references = s.references
  used : s'.used = s.used
  range : RangeMatch M lines lines' s.nameRange s'.nameRange

/-- the same problem with other names -/
def Problem.rename (ρ : String → String) : Problem → Problem
  | .missingLet name => .missingLet (ρ name)
  | .unusedSymbol name kind => .unusedSymbol (ρ name) kind
  | p => p

structure FindingMatch (ρ : String → String) (M : Line → Line → Span → Span → Prop)
    (lines lines' : List Line) (f f' : Finding) : Prop where
  problem : f'.problem = f.problem.rename ρ
  range : RangeMatch M lines lines' f.range f'.range

theorem rangeMatch_of_mem {M : Line → Line → Span → Span → Prop} {lines lines' : List Line}
    {k k' : NumberedLine} {s s' : Span} (hk : k ∈ codeLines lines) (hk' : k' ∈ codeLines lines')
    (hn : k'.number = k.number) (hs : M k.text k'.text s s') :
    RangeMatch M lines lines' (s.range k.number k.text) (s'.range k'.number k'.text) := by
  refine ⟨k.number, k.text, k'.text, s, s', text_of_mem_codeLines hk, ?_, hs, rfl, by rw [hn]⟩
  rw [← hn]
  exact text_of_mem_codeLines hk'

/-- numbered lines of one number that correspond -/
def NumberedMatch (R : Line → Line → Prop) (k k' : NumberedLine) : Prop :=
  k'.number = k.number ∧ R k.text k'.text

/-! ## lists of corresponding members -/

section
variable {α β γ δ : Type} {R : α → β → Prop} {P : γ → δ → Prop}

theorem forall₂_mem {a : List α} {b : List β} (h : List.Forall₂ R a b) :
    List.Forall₂ (fun x y => x ∈ a ∧ y ∈ b ∧ R x y) a b := by
  rw [List.forall₂_iff_zip] at h ⊢
  refine ⟨h.1, fun {x y} hxy => ?_⟩
  have hmem := List.of_mem_zip hxy
  exact ⟨hmem.1, hmem.2, h.2 hxy⟩

theorem flatMap_eq_of_forall₂ {a : List α} {b : List β} {f : α → List γ} {g : β → List γ}
    (h : List.Forall₂ R a b) (hfg : ∀ x y, R x y → g y = f x) : b.flatMap g = a.flatMap f := by
  induction h with
  | nil => rfl
  | cons hxy _ ih => rw [List.flatMap_cons, List.flatMap_cons, hfg _ _ hxy, ih]

theorem map_eq_of_forall₂ {a : List α} {b : List β} {f : α → γ} {g : β → γ}
    (h : List.Forall₂ R a b) (hfg : ∀ x y, R x y → g y = f x) : b.map g = a.map f := by
  induction h with
  | nil => rfl
  | cons hxy _ ih => rw [List.map_cons, List.map_cons, hfg _ _ hxy, ih]

theorem any_eq_of_forall₂ {a : List α} {b : List β} {f : α → Bool} {g : β → Bool}
    (h : List.Forall₂ R a b) (hfg : ∀ x y, R x y → g y = f x) : b.any g = a.any f := by
  induction h with
  | nil => rfl
  | cons hxy _ ih => rw [List.any_cons, List.any_cons, hfg _ _ hxy, ih]

theorem forall₂_toList {x : Option γ} {y : Option δ} (h : Option.Rel P x y) :
    List.Forall₂ P x.toList y.toList := by
  cases h with
  | none => exact .nil
  | some hxy => exact .cons hxy .nil

theorem rel_mono {Q : γ → δ → Prop} {x : Option γ} {y : Option δ} (h : Option.Rel P x y)
    (hPQ : ∀ c d, P c d → Q c d) : Option.Rel Q x y := by
  cases h with
  | none => exact .none
  | some hxy => exact .some (hPQ _ _ hxy)

theorem rel_or {x z : Option γ} {y w : Option δ} (hxy : Option.Rel P x y)
    (hzw : Option.Rel P z w) : Option.Rel P (x.or z) (y.or w) := by
  cases hxy with
  | none => exact hzw
  | some h => exact .some h

theorem isSome_of_rel {x : Option γ} {y : Option δ} (h : Option.Rel P x y) :
    y.isSome = x.isSome := by
  cases h <;> rfl

theorem rel_bind {x : Option γ} {y : Option δ} {f : γ → Option α} {g : δ → Option β}
    (h : Option.Rel P x y)
    (hfg : ∀ c d, x = some c → y = some d → P c d → Option.Rel R (f c) (g d)) :
    Option.Rel R (x.bind f) (y.bind g) := by
  cases h with
  | none => exact .none
  | some hxy => exact hfg _ _ rfl rfl hxy

end

/-! ## code lines -/

theorem forall₂_numberFrom {R : Line → Line → Prop} {lines lines' : List Line}
    (h : List.Forall₂ R lines lines') (n : Nat) :
    List.Forall₂ (NumberedMatch R) (numberFrom n lines) (numberFrom n lines') := by
  induction h generalizing n with
  | nil => exact .nil
  | cons hl _ ih => exact .cons ⟨rfl, hl⟩ (ih (n + 1))

theorem codeLinesFrom_match {R : Line → Line → Prop}
    (hrole : ∀ l l', R l l' → LineRole.of l' = LineRole.of l)
    (hclose : ∀ l l', R l l' → occursIn closesBlock (trim l') = occursIn closesBlock (trim l))
    {ls ls' : List NumberedLine} (h : List.Forall₂ (NumberedMatch R) ls ls') (inComment : Bool) :
    List.Forall₂ (NumberedMatch R) (codeLinesFrom inComment ls) (codeLinesFrom inComment ls') := by
  induction h generalizing inComment with
  | nil => exact .nil
  | @cons k k' ls ls' hk _ ih =>
    rw [codeLinesFrom, codeLinesFrom, hclose _ _ hk.2, hrole _ _ hk.2]
    cases inComment with
    | true => exact ih _
    | false =>
      rw [if_neg Bool.false_ne_true, if_neg Bool.false_ne_true]
      cases LineRole.of k.text with
      | skipped => exact ih false
      | opensComment => exact ih true
      | code => exact .cons hk (ih false)

/-- lines with the same roles keep their numbers -/
theorem codeLines_match {R : Line → Line → Prop}
    (hrole : ∀ l l', R l l' → LineRole.of l' = LineRole.of l)
    (hclose : ∀ l l', R l l' → occursIn closesBlock (trim l') = occursIn closesBlock (trim l))
    {lines lines' : List Line} (h : List.Forall₂ R lines lines') :
    List.Forall₂ (NumberedMatch R) (codeLines lines) (codeLines lines') :=
  codeLinesFrom_match hrole hclose (forall₂_numberFrom h 0) false

/-! ## symbols -/

/-- the symbol is that of a declaration on a code line -/
structure Declares (lines : List Line) (k : NumberedLine) (d : Declaration) (s : Symbol) :
    Prop where
  mem : k ∈ codeLines lines
  first : Declaration.first? k.text = some d
  name : s.name = d.name
  kind : s.kind = d.kind
  line : s.line = k.number
  range : s.nameRange = d.span.range k.number k.text

theorem exists_declares {lines : List Line} {s : Symbol}
    (hs : s ∈ (indexSymbols lines).symbols) : ∃ k d, Declares lines k d s := by
  obtain ⟨before, k, after, d, hcode, hd, hname, -, hkind, hline, hrange⟩ :=
    exists_declaration_of_mem_indexSymbols hs
  have hk : k ∈ codeLines lines := by
    rw [hcode]
    exact List.mem_append_right _ List.mem_cons_self
  exact ⟨k, d, hk, hd, hname.symm, hkind, hline, hrange⟩

theorem line_nameRange {lines : List Line} {s : Symbol} (hs : s ∈ (indexSymbols lines).symbols) :
    s.nameRange.start.line = s.line := by
  obtain ⟨k, d, hd⟩ := exists_declares hs
  rw [hd.line, hd.range]
  rfl

theorem isName_of_mem_indexSymbols {lines : List Line} {s : Symbol}
    (hs : s ∈ (indexSymbols lines).symbols) : IsName s.name.toList := by
  obtain ⟨k, d, hd⟩ := exists_declares hs
  obtain ⟨-, nm, -, -, hnm, -, hname, -⟩ := first?_name hd.first
  rw [hd.name, hname, String.toList_ofList]
  exact hnm

theorem span_le_of_first? {l : Line} {d : Declaration} (h : Declaration.first? l = some d) :
    d.span.start ≤ l.length ∧ d.span.stop ≤ l.length := by
  obtain ⟨before, nm, after, rfl, -, -, -, hspan⟩ := first?_name h
  rw [hspan]
  simp only [List.length_append]
  omega

theorem span_le_of_mem_wordRuns {l : Line} {r : Span} (h : r ∈ wordRuns l) :
    r.start ≤ l.length ∧ r.stop ≤ l.length := by
  obtain ⟨a, w, b, rfl, -, -, -, rfl⟩ := (mem_wordRuns_iff l r).mp h
  simp only [List.length_append]
  omega

theorem Span.range_inj {l : Line} {n : Nat} {r s : Span}
    (hr : r.start ≤ l.length ∧ r.stop ≤ l.length) (hs : s.start ≤ l.length ∧ s.stop ≤ l.length)
    (h : r.range n l = s.range n l) : r = s := by
  obtain ⟨a, b⟩ := r
  obtain ⟨c, d⟩ := s
  have hstart : a = c := column_inj hr.1 hs.1 (congrArg (·.start.character) h)
  have hstop : b = d := column_inj hr.2 hs.2 (congrArg (·.stop.character) h)
  rw [hstart, hstop]

/-- The uses of a symbol, counted line by line: all words that equal its name, but the one at its
declaration. -/
theorem usesOf_eq_replicate {lines : List Line} {k₀ : NumberedLine} {d : Declaration} {s : Symbol}
    (h : Declares lines k₀ d s) : usesOf (codeLines lines) s.name s.nameRange =
      (codeLines lines).flatMap fun k => List.replicate ((wordsOf k.text).count s.name -
        if k.number = k₀.number ∧ d.span ∈ wordRuns k.text then 1 else 0) k.number := by
  refine List.flatMap_congr fun k hk => ?_
  have hcount : (wordsOf k.text).count s.name =
      (wordRuns k.text).countP fun r => r.text k.text == s.name := by
    rw [wordsOf, List.count, List.countP_map]
    rfl
  rw [List.map_const', ← List.countP_eq_length_filter, hcount]
  congr 1
  by_cases hn : k.number = k₀.number
  · obtain rfl := eq_of_number_eq hk h.mem hn
    have hname : (d.span.text k.text == s.name) = true := by
      rw [h.name, beq_iff_eq]
      exact span_text_of_first? h.first
    have hsite : ∀ r ∈ wordRuns k.text,
        (r.range k.number k.text != s.nameRange) = (r != d.span) := by
      intro r hr
      rw [h.range, Bool.eq_iff_iff, bne_iff_ne, bne_iff_ne, ne_eq, ne_eq, not_iff_not]
      exact ⟨Span.range_inj (span_le_of_mem_wordRuns hr) (span_le_of_first? h.first),
        fun heq => by rw [heq]⟩
    rw [← List.countP_filter, List.filter_congr hsite, ← (wordRuns_nodup k.text).erase_eq_filter,
      List.countP_erase]
    simp [hname]
  · rw [if_neg fun h => hn h.1, Nat.sub_zero]
    refine List.countP_congr fun r _ => ?_
    have hne : r.range k.number k.text ≠ s.nameRange := by
      rw [h.range]
      exact fun heq => hn (congrArg (·.start.line) heq)
    simp [hne]

section
variable {ρ : String → String} {M : Line → Line → Span → Span → Prop} {lines lines' : List Line}

/-- The symbols are those of corresponding declarations. -/
def DeclaredAlike (ρ : String → String) (M : Line → Line → Span → Span → Prop)
    (lines lines' : List Line) (s s' : Symbol) : Prop :=
  ∃ k k' d d', Declares lines k d s ∧ Declares lines' k' d' s' ∧ k'.number = k.number ∧
    DeclarationMatch ρ M k.text k'.text d d'

theorem DeclaredAlike.name {s s' : Symbol} (h : DeclaredAlike ρ M lines lines' s s') :
    s'.name = ρ s.name := by
  obtain ⟨k, k', d, d', hs, hs', -, hd⟩ := h
  rw [hs.name, hs'.name, hd.name]

variable (hρ : Renames ρ)
  (h : List.Forall₂ (NumberedMatch (LineMatch ρ M)) (codeLines lines) (codeLines lines'))
include h

theorem declaredOn?_match : List.Forall₂ (DeclaredAlike ρ M lines lines')
    ((codeLines lines).filterMap Symbol.declaredOn?)
    ((codeLines lines').filterMap Symbol.declaredOn?) := by
  refine List.rel_filterMap ?_ (forall₂_mem h)
  rintro k k' ⟨hk, hk', hn, hl⟩
  rw [Symbol.declaredOn?, Symbol.declaredOn?, Option.map_eq_bind, Option.map_eq_bind]
  refine rel_bind hl.declared fun d d' hd hd' hmatch => .some ?_
  exact ⟨k, k', d, d', ⟨hk, hd, rfl, rfl, rfl, rfl⟩, ⟨hk', hd', rfl, rfl, rfl, rfl⟩, hn, hmatch⟩

include hρ

omit h in
theorem firstOfEachName_match {a b : List Symbol}
    (hab : List.Forall₂ (DeclaredAlike ρ M lines lines') a b) :
    List.Forall₂ (DeclaredAlike ρ M lines lines') (firstOfEachName a) (firstOfEachName b) := by
  induction hab with
  | nil => exact .nil
  | cons hs _ ih =>
    refine .cons hs (List.rel_filter (fun t t' ht => ?_) ih)
    show (t.name != _) = true ↔ (t'.name != _) = true
    rw [bne_iff_ne, bne_iff_ne, hs.name, ht.name, hρ.injective.ne_iff]

theorem usesOf_match {s s' : Symbol} (hs : DeclaredAlike ρ M lines lines' s s') :
    usesOf (codeLines lines') s'.name s'.nameRange =
      usesOf (codeLines lines) s.name s.nameRange := by
  obtain ⟨k₀, k₀', d, d', hd, hd', hn₀, hmatch⟩ := hs
  rw [usesOf_eq_replicate hd, usesOf_eq_replicate hd']
  refine flatMap_eq_of_forall₂ (forall₂_mem h) ?_
  rintro k k' ⟨hk, hk', hn, hl⟩
  -- a word is left out only on the line of the declaration, and then on both
  have hsite : (k'.number = k₀'.number ∧ d'.span ∈ wordRuns k'.text) ↔
      (k.number = k₀.number ∧ d.span ∈ wordRuns k.text) := by
    rw [hn, hn₀]
    refine and_congr_right fun heq => ?_
    obtain rfl := eq_of_number_eq hk hd.mem heq
    obtain rfl := eq_of_number_eq hk' hd'.mem (by rw [hn, heq, hn₀])
    exact hmatch.site
  rw [hl.words, hd'.name, hmatch.name, ← hd.name, List.count_map_of_injective _ _ hρ.injective]
  simp only [hsite]
  rw [hn]

/-- the symbols of corresponding documents -/
theorem symbols_match : List.Forall₂ (SymbolMatch ρ M lines lines') (indexSymbols lines).symbols
    (indexSymbols lines').symbols := by
  have hsymbols : List.Forall₂ (DeclaredAlike ρ M lines lines') (indexSymbols lines).symbols
      (indexSymbols lines').symbols := by
    rw [symbols_indexSymbols, symbols_indexSymbols]
    refine List.forall₂_map_left_iff.mpr (List.forall₂_map_right_iff.mpr ?_)
    refine (firstOfEachName_match hρ (declaredOn?_match h)).imp ?_
    rintro s s' ⟨k, k', d, d', hd, hd', hrest⟩
    exact ⟨k, k', d, d', ⟨hd.mem, hd.first, hd.name, hd.kind, hd.line, hd.range⟩,
      ⟨hd'.mem, hd'.first, hd'.name, hd'.kind, hd'.line, hd'.range⟩, hrest⟩
  refine (forall₂_mem hsymbols).imp ?_
  rintro s s' ⟨hs, hs', halike⟩
  have hname := halike.name
  have hrefs : s'.references = s.references := by
    rw [references_of_mem_indexSymbols hs, references_of_mem_indexSymbols hs',
      usesOf_match hρ h halike, hname, hρ.reserved_iff]
  obtain ⟨k, k', d, d', hd, hd', hn, hmatch⟩ := halike
  refine ⟨hname, by rw [hd.kind, hd'.kind, hmatch.kind], by rw [hd.line, hd'.line, hn], hrefs, ?_,
    ?_⟩
  · rw [Bool.eq_iff_iff, used_iff_of_mem_indexSymbols hs, used_iff_of_mem_indexSymbols hs', hrefs]
  · rw [hd.range, hd'.range]
    exact rangeMatch_of_mem hd.mem hd'.mem hn hmatch.span

/-- what is known of a symbol, its place on the line left out -/
def Symbol.summary (s : Symbol) : String × SymbolKind × Nat × List Nat × Bool :=
  (s.name, s.kind, s.line, s.references, s.used)

theorem summaries_match : (indexSymbols lines').symbols.map Symbol.summary =
    (indexSymbols lines).symbols.map fun s => Symbol.summary { s with name := ρ s.name } := by
  refine map_eq_of_forall₂ (symbols_match hρ h) fun s s' hs => ?_
  show (s'.name, s'.kind, s'.line, s'.references, s'.used) = _
  rw [hs.name, hs.kind, hs.line, hs.references, hs.used]
  rfl

/-! ## findings -/

theorem contains_match (name : String) :
    (indexSymbols lines').contains (ρ name) = (indexSymbols lines).contains name := by
  refine any_eq_of_forall₂ (symbols_match hρ h) fun s s' hs => ?_
  rw [hs.name, Bool.eq_iff_iff, beq_iff_eq, beq_iff_eq, hρ.injective.eq_iff]

end

theorem mentionsWord_eq {word : String} (hword : IsName word.toList) (l : Line) :
    mentionsWord word l = (wordsOf l).contains word := by
  rw [mentionsWord, Pattern.all_of_fitsWords Pattern.fitsWords_identifier, List.any_map,
    List.any_filter, Bool.eq_iff_iff, List.any_eq_true, List.contains_iff_mem, wordsOf,
    List.mem_map]
  refine exists_congr fun r => and_congr_right fun _ => ?_
  show (isNameText (r.chars l) && String.ofList (r.chars l) == word) = true ↔ _
  rw [Bool.and_eq_true, beq_iff_eq, isNameText_iff]
  refine ⟨And.right, fun hr => ⟨?_, hr⟩⟩
  have hchars : r.chars l = word.toList := by
    rw [← hr]
    exact String.toList_ofList.symm
  rw [hchars]
  exact hword

theorem assignmentProblem?_eq (symbols : SymbolTable) (k : NumberedLine) :
    assignmentProblem? symbols k = (assigned? k.text).bind fun s =>
      if mentionsWord declarationKeyword k.text || isKeyword (s.text k.text) ||
        symbols.contains (s.text k.text) then none
      else some ⟨.missingLet (s.text k.text), s.range k.number k.text⟩ := by
  rw [assignmentProblem?, assigned?]
  cases bareAssignment.first? k.text <;> rfl

section
variable {ρ : String → String} {M : Line → Line → Span → Span → Prop} {lines lines' : List Line}
  {k k' : NumberedLine} (hρ : Renames ρ) (hl : LineMatch ρ M k.text k'.text)
include hρ hl

omit hl in
theorem isKeyword_rename (x : String) : isKeyword (ρ x) = isKeyword x := by
  have hkeyword : ∀ y, isKeyword y = true → isReserved y = true := fun y hy => by
    rw [isReserved, hy, Bool.true_or]
  by_cases hx : isReserved x = true
  · rw [hρ.fixes x hx]
  · have hx' : ¬ isReserved (ρ x) = true := by rwa [hρ.reserved_iff]
    rw [Bool.eq_false_iff.mpr fun h => hx (hkeyword _ h),
      Bool.eq_false_iff.mpr fun h => hx' (hkeyword _ h)]

theorem mentionsWord_match {word : String} (hword : IsName word.toList)
    (hfix : isReserved word = true) : mentionsWord word k'.text = mentionsWord word k.text := by
  rw [mentionsWord_eq hword, mentionsWord_eq hword, hl.words, Bool.eq_iff_iff,
    List.contains_iff_mem, List.contains_iff_mem, List.mem_map]
  constructor
  · rintro ⟨x, hx, heq⟩
    have hxw : x = word := hρ.injective (by rw [heq, hρ.fixes word hfix])
    rwa [← hxw]
  · exact fun hx => ⟨word, hx, hρ.fixes word hfix⟩

variable (hk : k ∈ codeLines lines) (hk' : k' ∈ codeLines lines') (hn : k'.number = k.number)
include hk hk' hn

omit hρ in
theorem findingMatch_trimmed {p p' : Problem} (hp : p' = p.rename ρ) :
    FindingMatch ρ M lines lines' ⟨p, Range.ofTrimmed k.number k.text⟩
      ⟨p', Range.ofTrimmed k'.number k'.text⟩ :=
  ⟨hp, rangeMatch_of_mem hk hk' hn hl.trimmed⟩

omit hρ in
theorem braceProblem_match :
    Option.Rel (FindingMatch ρ M lines lines') (braceProblem? k) (braceProblem? k') := by
  rw [braceProblem?, braceProblem?, hl.count '{' (by decide), hl.count '}' (by decide)]
  split
  · exact .some (findingMatch_trimmed hl hk hk' hn rfl)
  · exact .none

omit hρ in
theorem parenProblem_match :
    Option.Rel (FindingMatch ρ M lines lines') (parenProblem? k) (parenProblem? k') := by
  simp only [parenProblem?, hl.count '{' (by decide), hl.count '(' (by decide),
    hl.count ')' (by decide)]
  split
  · exact .some (findingMatch_trimmed hl hk hk' hn rfl)
  · exact .none

theorem functionProblem_match :
    Option.Rel (FindingMatch ρ M lines lines') (functionProblem? k) (functionProblem? k') := by
  have hname : IsName functionKeyword.toList := (isNameText_iff _).mp (by decide)
  rw [functionProblem?, functionProblem?, hl.function,
    mentionsWord_match hρ hl hname (by decide +kernel)]
  split
  · exact .some (findingMatch_trimmed hl hk hk' hn rfl)
  · exact .none

theorem assignmentProblem_match {symbols symbols' : SymbolTable}
    (hsymbols : ∀ name, symbols'.contains (ρ name) = symbols.contains name) :
    Option.Rel (FindingMatch ρ M lines lines') (assignmentProblem? symbols k)
      (assignmentProblem? symbols' k') := by
  have hname : IsName declarationKeyword.toList := (isNameText_iff _).mp (by decide)
  rw [assignmentProblem?_eq, assignmentProblem?_eq]
  refine rel_bind hl.assigned fun s s' _ _ hs => ?_
  simp only [hs.1, mentionsWord_match hρ hl hname (by decide +kernel), isKeyword_rename hρ,
    hsymbols]
  split
  · exact .none
  · exact .some ⟨rfl, rangeMatch_of_mem hk hk' hn hs.2⟩

theorem problemsOnLine_match {symbols symbols' : SymbolTable}
    (hsymbols : ∀ name, symbols'.contains (ρ name) = symbols.contains name) :
    List.Forall₂ (FindingMatch ρ M lines lines') (problemsOnLine symbols k)
      (problemsOnLine symbols' k') := by
  have hbrace := forall₂_toList (braceProblem_match hl hk hk' hn)
  have hparen := forall₂_toList (parenProblem_match hl hk hk' hn)
  have hfunction := forall₂_toList (functionProblem_match hρ hl hk hk' hn)
  have hassignment := forall₂_toList (assignmentProblem_match hρ hl hk hk' hn hsymbols)
  exact List.rel_append (List.rel_append (List.rel_append hbrace hparen) hfunction) hassignment

end

theorem unusedProblem_match {ρ : String → String} {M : Line → Line → Span → Span → Prop}
    {lines lines' : List Line} {s s' : Symbol} (hs : SymbolMatch ρ M lines lines' s s') :
    Option.Rel (FindingMatch ρ M lines lines') (unusedProblem? s) (unusedProblem? s') := by
  rw [unusedProblem?, unusedProblem?, hs.kind, hs.used]
  split
  · exact .none
  · refine .some ⟨?_, hs.range⟩
    show Problem.unusedSymbol s'.name s.kind = .unusedSymbol (ρ s.name) s.kind
    rw [hs.name]

/-- the findings of corresponding documents -/
theorem findings_match {ρ : String → String} {M : Line → Line → Span → Span → Prop}
    {lines lines' : List Line} (hρ : Renames ρ)
    (h : List.Forall₂ (NumberedMatch (LineMatch ρ M)) (codeLines lines) (codeLines lines')) :
    List.Forall₂ (FindingMatch ρ M lines lines') (findings lines (indexSymbols lines))
      (findings lines' (indexSymbols lines')) := by
  refine List.rel_append (List.rel_flatMap (forall₂_mem h) ?_)
    (List.rel_filterMap (fun s s' hs => unusedProblem_match hs) (symbols_match hρ h))
  rintro k k' ⟨hk, hk', hn, hl⟩
  exact problemsOnLine_match hρ hl hk hk' hn (contains_match hρ h)

end LanguageService
