import LanguageService.Editor.QuickFix
import LanguageService.Proofs.Editor.Rename
import LanguageService.Proofs.Language.NamedDeclarations
import LanguageService.Proofs.Source.Renumbering
import LanguageService.Proofs.Text.LineEdits

/-!
# Declaring an assigned variable

The fix for an assignment to an undeclared name puts the declaration keyword in front of the name.
The line was without this keyword, so that it declares this name and nothing else then, as a function
or as a variable; and since the name is in the table, no other assignment to it is reported.

* `declaredLine g nm r`   the assignment with the keyword put in
* `eq_of_declaredAt`      the only declaration on such a line stands at its start
* `first?_declaredLine`   it is that of the name
* `splitLines_declareFix` the lines after the fix
* `declareFix_declares`   the fix for a report of the analysis
-/

namespace LanguageService

/-! ## the line with the keyword put in -/

/-- the white space `g`, the declaration keyword and a blank, the name `nm` and the tail `r` -/
def declaredLine (g nm r : Line) : Line :=
  g ++ (declarationKeyword.toList ++ ([' '] ++ (nm ++ r)))

theorem AssignmentTail.variableTail {r : Line} (h : AssignmentTail r) : VariableTail r := by
  obtain ⟨g, g', c, s, rfl, hg, -⟩ := h
  exact ⟨g, _, rfl, hg⟩

theorem declarationKeyword_eq : declarationKeyword.toList = 'l' :: ['e', 't'] := by decide

theorem hasWord_let {l a gap x : Line} (hl : l = a ++ (declarationKeyword.toList ++ (gap ++ x)))
    (ha : endsInWord a = false) (hne : gap ≠ []) (hgap : AllBlank gap) :
    HasWord declarationKeyword l := by
  have hclosed : startsInWord (gap ++ x) = false := by
    rw [startsInWord_append _ hne, startsInWord_of_blank hgap]
  refine ⟨_, ⟨a, declarationKeyword.toList, gap ++ x, hl, ha, isWordText_let, hclosed, rfl⟩, ?_⟩
  rw [hl, Span.text, Span.chars_between, String.ofList_toList]

section
variable {l g nm r : Line} (h : AssignedAt l g nm r)
include h

theorem AssignedAt.declaredAt :
    DeclaredAt declarationKeyword.toList VariableTail (declaredLine g nm r) g [' '] nm r where
  line := rfl
  edge := endsInWord_of_blank h.blank
  gap_ne := List.cons_ne_nil _ _
  gap_blank := by
    intro c hc
    rw [List.mem_singleton.mp hc]
    decide
  name := h.name
  tail := h.tail.variableTail

/-- Any declaration on the line stands at its start: its keyword would have been a word before. -/
theorem eq_of_declaredAt (hlet : ¬ HasWord declarationKeyword l) {Tail : Line → Prop}
    {p gap nm' r' : Line}
    (hd : DeclaredAt declarationKeyword.toList Tail (declaredLine g nm r) p gap nm' r') :
    p = g := by
  have hfirst : g ++ (declarationKeyword.toList ++ ([' '] ++ (nm ++ r))) =
      p ++ 'l' :: (['e', 't'] ++ (gap ++ (nm' ++ r'))) := by
    have hline := hd.line
    rw [declarationKeyword_eq, List.cons_append] at hline
    exact hline
  obtain ⟨x, rfl, -⟩ := prefix_of_blank h.blank (by decide) hfirst
  by_contra hne
  have hx : x ≠ [] := by
    intro hnil
    rw [hnil, List.append_nil] at hne
    exact hne rfl
  have hlt : g.length < (g ++ x).length := by
    rw [List.length_append]
    exact Nat.lt_add_of_pos_right (List.length_pos_iff.mpr hx)
  have hword : startsInWord (declarationKeyword.toList ++ (gap ++ (nm' ++ r'))) = true := by
    rw [isWordText_let.startsInWord_append]
  have hle := h.declaredAt.le_of_word isWordText_let hd.line hd.edge hword hlt
  -- the other declaration begins behind the keyword that was put in
  have hline := h.declaredAt.line_eq.symm.trans hd.line
  obtain ⟨z, hz⟩ := List.prefix_of_prefix_length_le (List.prefix_append _ _) ⟨_, hline.symm⟩ hle
  have hrest : nm ++ r = z ++ (declarationKeyword.toList ++ (gap ++ (nm' ++ r'))) := by
    rw [← hz, List.append_assoc _ z] at hline
    exact List.append_cancel_left hline
  have hedge : endsInWord (g ++ z) = false := by
    rw [endsInWord_append_left h.blank]
    have hedge := hd.edge
    rw [← hz] at hedge
    cases z with
    | nil => rfl
    | cons c z => rwa [endsInWord_append _ (List.cons_ne_nil c z)] at hedge
  have hl : l = (g ++ z) ++ (declarationKeyword.toList ++ (gap ++ (nm' ++ r'))) := by
    rw [h.line, hrest, List.append_assoc]
  exact hlet (hasWord_let hl hedge hd.gap_ne hd.gap_blank)

theorem name_of_ofShape? (hlet : ¬ HasWord declarationKeyword l) {a : Pattern} {Tail : Line → Prop}
    (hshape : DeclarationShape a declarationKeyword.toList Tail)
    (htail : ∀ r, Tail r → VariableTail r) {kind : SymbolKind} {d : Declaration}
    (hd : Declaration.ofShape? kind a (declaredLine g nm r) = some d) :
    d.name = String.ofList nm ∧ d.kind = kind := by
  obtain ⟨p, gap, nm', r', hat, -, rfl⟩ := (hshape.ofShape?_eq_some_iff kind _ d).mp hd
  obtain rfl := eq_of_declaredAt h hlet hat
  have hvariable : DeclaredAt declarationKeyword.toList VariableTail (declaredLine p nm r) p gap nm'
      r' := { hat with tail := htail r' hat.tail }
  obtain ⟨-, rfl, -⟩ := h.declaredAt.unique shape_variable.closes hvariable
  exact ⟨rfl, rfl⟩

theorem first?_declaredLine (hlet : ¬ HasWord declarationKeyword l) :
    ∃ d, Declaration.first? (declaredLine g nm r) = some d ∧ d.name = String.ofList nm ∧
      d.kind ≠ .imported := by
  rw [Declaration.first?, Declaration.binding?]
  cases hf : Declaration.ofShape? .function Shape.anyFunction (declaredLine g nm r) with
  | some d =>
    obtain ⟨hname, hkind⟩ :=
      name_of_ofShape? h hlet shape_function (fun _ ht => ht.variableTail) hf
    refine ⟨d, rfl, hname, ?_⟩
    rw [hkind]
    decide
  | none =>
    cases hv : Declaration.ofShape? .var Shape.anyVariable (declaredLine g nm r) with
    | some d =>
      obtain ⟨hname, hkind⟩ := name_of_ofShape? h hlet shape_variable (fun _ ht => ht) hv
      refine ⟨d, rfl, hname, ?_⟩
      rw [hkind]
      decide
    | none =>
      exact absurd h.declaredAt ((shape_variable.ofShape?_eq_none_iff _ _).mp hv _ _ _ _)

end

/-- what begins with anything but a slash carries code -/
theorem role_of_first {g x : Line} {c : Char} (hg : AllBlank g) (hc : isBlank c = false)
    (hslash : c ≠ '/') : LineRole.of (g ++ c :: x) = .code := by
  have htrim : ∃ y, trim (g ++ c :: x) = c :: y := by
    obtain ⟨h, hh, heq⟩ := exists_append_trimEnd (c :: x)
    have hfirst : (c :: x).dropWhile isBlank = c :: x := dropWhile_of_first hc
    rw [trim, trimStart, dropWhile_append_of_blank hg, hfirst]
    cases ht : trimEnd (c :: x) with
    | nil =>
      rw [ht, List.nil_append] at heq
      have hblank := hh c (heq ▸ List.mem_cons_self)
      rw [hc] at hblank
      exact absurd hblank (by decide)
    | cons d y =>
      rw [ht] at heq
      obtain ⟨rfl, -⟩ := List.cons.inj heq
      exact ⟨y, rfl⟩
  obtain ⟨y, hy⟩ := htrim
  have hprefix : ∀ z, ('/' :: z).isPrefixOf (c :: y) = false := by
    intro z
    rw [List.isPrefixOf_cons_cons, beq_false_of_ne (Ne.symm hslash), Bool.false_and]
  rw [LineRole.of, hy, lineComment, opensBlock, hprefix, hprefix]
  rfl

theorem role_declaredLine {g : Line} (hg : AllBlank g) (nm r : Line) :
    LineRole.of (declaredLine g nm r) = .code := by
  rw [declaredLine, declarationKeyword_eq]
  exact role_of_first hg (by decide) (by decide)

/-! ## the document -/

theorem mem_codeLines_set {lines : List Line} {k : NumberedLine} (hk : k ∈ codeLines lines)
    {l : Line} (hl : LineRole.of l = .code) :
    ⟨k.number, l⟩ ∈ codeLines (lines.set k.number l) := by
  obtain ⟨above, below, -, hlen, hset, hin, -⟩ := exists_around_codeLine hk l
  rw [hset, codeLines_around, hin, (commentBehind_code hl above.length).2, hlen]
  exact List.mem_append_right _ List.mem_cons_self

/-- the name in the data of a diagnostic about an assignment -/
def Diagnostic.assignedName? (d : Diagnostic) : Option String :=
  (d.data.bind (Json.field? "variable")).bind Json.string?

/-- the report of an assignment to the name at `s` -/
def missingLet (k : NumberedLine) (s : Span) : Diagnostic :=
  Finding.diagnostic ⟨.missingLet (s.text k.text), s.range k.number k.text⟩

/-- The reports of assignments are those of the code lines that assign an undeclared name. -/
theorem exists_of_missingLet {lines : List Line} {d : Diagnostic} (hd : d ∈ diagnose lines)
    (hrule : d.rule? = some "missing-let") :
    ∃ k ∈ codeLines lines, ∃ s, AssignsUndeclared (indexSymbols lines) k.text s ∧
      d = missingLet k s := by
  obtain ⟨f, hf, rfl⟩ := List.mem_map.mp hd
  have hproblem : f.problem.rule = "missing-let" := Option.some.inj hrule
  rw [findings, List.mem_append, List.mem_flatMap, List.mem_filterMap] at hf
  rcases hf with ⟨k, hk, hf⟩ | ⟨s, -, hf⟩
  · rw [problemsOnLine_eq, List.mem_append, Option.mem_toList] at hf
    rcases hf with hf | hf
    · have hsyntax := (mem_syntaxProblems hf).1
      rw [hproblem] at hsyntax
      exact absurd hsyntax (by decide)
    · rw [assignmentProblem?_eq] at hf
      obtain ⟨s, hs, hf⟩ := Option.bind_eq_some_iff.mp hf
      obtain ⟨hno, hf⟩ := Option.ite_none_left_eq_some.mp hf
      refine ⟨k, hk, s, (assignsUndeclared_iff hs).mpr hno, ?_⟩
      rw [← Option.some.inj hf]
      rfl
  · have hunused := rule_of_unusedProblem? hf
    rw [hrule] at hunused
    exact absurd hunused (by decide)

theorem missingLet_of_assignedAt {k : NumberedLine} {g nm r : Line} (h : AssignedAt k.text g nm r) :
    let d := missingLet k ⟨g.length, g.length + nm.length⟩
    d.range.start = ⟨k.number, width g⟩ ∧ d.assignedName? = some (String.ofList nm) := by
  intro d
  constructor
  · show (⟨k.number, column k.text g.length⟩ : Position) = _
    rw [h.line, column, List.take_left]
  · show some ((Span.mk g.length (g.length + nm.length)).text k.text) = _
    rw [h.line, Span.text, Span.chars_between]

theorem textIn_missingLet {lines : List Line} {k : NumberedLine} (hk : k ∈ codeLines lines) {s : Span}
    (hs : assigned? k.text = some s) :
    (missingLet k s).range.textIn lines = (missingLet k s).assignedName? := by
  obtain ⟨g, nm, r, h, rfl⟩ := exists_of_assigned? hs
  apply textIn_range (text_of_mem_codeLines hk)
  show g.length ≤ k.text.length ∧ g.length + nm.length ≤ k.text.length
  rw [h.line, List.length_append, List.length_append]
  omega

theorem assignedName?_ne_of_contains {lines : List Line} {name : String}
    (h : (indexSymbols lines).contains name = true) {d : Diagnostic} (hd : d ∈ diagnose lines)
    (hrule : d.rule? = some "missing-let") : d.assignedName? ≠ some name := by
  obtain ⟨k, -, s, hs, rfl⟩ := exists_of_missingLet hd hrule
  intro hname
  have hunknown := hs.unknown
  rw [Option.some.inj hname, h] at hunknown
  cases hunknown

/-! ## the fix -/

theorem dropReturn_replaceIn {q g w r : Line} (hw : IsWordText w)
    (hq : dropReturn q = g ++ (w ++ r)) (new : Line) :
    dropReturn (replaceIn q g.length g.length new) = g ++ (new ++ (w ++ r)) := by
  obtain ⟨r', hr, rfl⟩ : ∃ r', dropReturn r' = r ∧ q = g ++ (w ++ r') := by
    rcases eq_dropReturn q with heq | heq
    · rw [hq] at heq
      rw [heq, dropReturn_append_word hw] at hq
      exact ⟨r, List.append_cancel_left (List.append_cancel_left hq), heq⟩
    · refine ⟨r ++ ['\r'], dropReturn_concat r, ?_⟩
      rw [heq, hq]
      simp only [List.append_assoc]
  rw [replaceIn, List.take_left, Nat.max_self, List.drop_left, dropReturn_append_word hw, hr,
    List.append_assoc]

theorem splitLines_declareFix {text : Line} {k : NumberedLine} {g nm r : Line}
    (hk : k ∈ codeLines (splitLines text)) (h : AssignedAt k.text g nm r) :
    splitLines (applyEdit text ⟨⟨⟨k.number, width g⟩, ⟨k.number, width g⟩⟩,
      declarationKeyword.toList ++ [' ']⟩) =
        (splitLines text).set k.number (declaredLine g nm r) := by
  have hfeed : '\n' ∉ declarationKeyword.toList ++ [' '] := by decide
  obtain ⟨q, hq, hlines⟩ :=
    splitLines_applyEdit (text_of_mem_codeLines hk) hfeed (width g) (width g)
  have hplace : place k.text (width g) = g.length := by
    rw [h.line, place_append_width]
  rw [h.line] at hq
  rw [hlines, hplace, dropReturn_replaceIn h.name.isWordText hq, List.append_assoc]
  rfl

/-- **The fix for an assignment without declaration.**  Its only edit puts `let` in where the report
begins.  The line declares the reported name then, as a function or as a variable; the name is in the
table, no report names it, and the other lines are what they were. -/
theorem declareFix_declares (text : Line) (d : Diagnostic)
    (hd : d ∈ (Analysis.of text).diagnostics) (hrule : d.rule? = some "missing-let") :
    ∃ name l, d.assignedName? = some name ∧ d.range.textIn (Analysis.of text).lines = some name ∧
      let edit : TextEdit := ⟨⟨d.range.start, d.range.start⟩, "let ".toList⟩
      let after := Analysis.of (applyEdit text edit)
      (quickFixes (Analysis.of text).lines [d]).map QuickFix.remedy = [.edit edit] ∧
        after.lines = (Analysis.of text).lines.set d.range.start.line l ∧
        ⟨d.range.start.line, l⟩ ∈ codeLines after.lines ∧
        (∃ e, Declaration.first? l = some e ∧ e.name = name ∧ e.kind ≠ .imported) ∧
        after.symbols.contains name = true ∧
        ∀ d' ∈ after.diagnostics, d'.rule? = some "missing-let" → d'.assignedName? ≠ some name := by
  obtain ⟨k, hk, s, hs, rfl⟩ := exists_of_missingLet hd hrule
  have htext := textIn_missingLet hk hs.assigned?_eq
  obtain ⟨g, nm, r, h, rfl⟩ := hs.assigned
  obtain ⟨hstart, hname⟩ := missingLet_of_assignedAt h
  rw [hname] at htext
  have hlines := splitLines_declareFix hk h
  have hnew : declarationKeyword.toList ++ [' '] = "let ".toList := by decide
  rw [hnew] at hlines
  refine ⟨String.ofList nm, declaredLine g nm r, hname, htext, rfl, ?_⟩
  rw [hstart]
  generalize applyEdit text ⟨⟨⟨k.number, width g⟩, ⟨k.number, width g⟩⟩, "let ".toList⟩ = fixed
    at hlines ⊢
  have hcode : ⟨k.number, declaredLine g nm r⟩ ∈ codeLines (splitLines fixed) := by
    rw [hlines]
    exact mem_codeLines_set hk (role_declaredLine h.blank nm r)
  obtain ⟨e, he, hename, hkind⟩ := first?_declaredLine h hs.no_let
  have hcontains : (indexSymbols (splitLines fixed)).contains (String.ofList nm) = true :=
    (contains_indexSymbols_iff _ _).mpr ⟨_, hcode, e, he, hename⟩
  exact ⟨hlines, hcode, ⟨e, he, hename, hkind⟩, hcontains, fun d' hd' hrule' =>
    assignedName?_ne_of_contains hcontains hd' hrule'⟩

/-- two assignments to one name, the first behind a tab and before CR LF -/
def assignedText : Line :=
  "\tx = 1\r\nx = 2".toList

/-- The first assignment is made a declaration, and the second is no longer reported. -/
theorem declareFix_assignedText :
    let d := missingLet ⟨0, "\tx = 1".toList⟩ ⟨1, 2⟩
    let edit : TextEdit := ⟨⟨⟨0, 1⟩, ⟨0, 1⟩⟩, "let ".toList⟩
    d ∈ (Analysis.of assignedText).diagnostics ∧ d.rule? = some "missing-let" ∧
      (quickFixes (Analysis.of assignedText).lines [d]).map QuickFix.remedy = [.edit edit] ∧
      applyEdit assignedText edit = "\tlet x = 1\r\nx = 2".toList ∧
      ∀ d' ∈ (Analysis.of (applyEdit assignedText edit)).diagnostics,
        d'.rule? = some "missing-let" → d'.assignedName? ≠ some "x" := by
  intro d edit
  have hfinding : (⟨.missingLet "x", ⟨⟨0, 1⟩, ⟨0, 2⟩⟩⟩ : Finding) ∈
      (Analysis.of assignedText).findings := by decide +kernel
  have hd : d ∈ (Analysis.of assignedText).diagnostics :=
    List.mem_map_of_mem (f := Finding.diagnostic) hfinding
  obtain ⟨name, l, hname, -, hedit, -, -, -, -, hquiet⟩ := declareFix_declares assignedText d hd rfl
  obtain rfl : "x" = name := Option.some.inj hname
  exact ⟨hd, rfl, hedit, by decide +kernel, hquiet⟩

end LanguageService
