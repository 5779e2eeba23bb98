import Mathlib.Data.List.Basic
import LanguageService.Proofs.Language.Declarations

/-!
# The symbol table of a document

* `mem_numberLines_iff`, `text_of_mem_codeLines`   code lines are numbered lines of the document
* `first?_name`            a declaration stands on its line under its own name
* `usesOf code name site`  the lines of the words that equal a name, one site left out
* `references_of_mem_indexSymbols`   the references of a symbol are its uses
* `indexSymbols_spec`      what is in the symbol table of a document
-/

namespace LanguageService

/-! ## code lines and their numbers -/

theorem le_number_of_mem_numberFrom (lines : List Line) (n : Nat) :
    ∀ k ∈ numberFrom n lines, n ≤ k.number := by
  induction lines generalizing n with
  | nil => exact fun k hk => absurd hk List.not_mem_nil
  | cons l lines ih =>
    intro k hk
    rcases List.mem_cons.mp hk with rfl | hk
    · exact Nat.le_refl n
    · exact Nat.le_of_succ_le (ih (n + 1) k hk)

theorem numberFrom_pairwise (lines : List Line) (n : Nat) :
    (numberFrom n lines).Pairwise fun j k => j.number < k.number := by
  induction lines generalizing n with
  | nil => exact List.Pairwise.nil
  | cons l lines ih =>
    exact List.pairwise_cons.mpr
      ⟨fun k hk => le_number_of_mem_numberFrom lines (n + 1) k hk, ih (n + 1)⟩

theorem codeLines_pairwise (lines : List Line) :
    (codeLines lines).Pairwise fun j k => j.number < k.number :=
  (numberFrom_pairwise lines 0).sublist (sublist_codeLines lines)

theorem mem_numberLines_iff {lines : List Line} {k : NumberedLine} :
    k ∈ numberLines lines ↔ lines[k.number]? = some k.text := by
  rw [numberLines, List.mem_iff_getElem?]
  constructor
  · intro h
    obtain ⟨i, hi⟩ := h
    rw [getElem?_numberFrom, Nat.zero_add] at hi
    obtain ⟨l, hl, rfl⟩ := Option.map_eq_some_iff.mp hi
    exact hl
  · intro h
    refine ⟨k.number, ?_⟩
    rw [getElem?_numberFrom, h, Nat.zero_add]
    rfl

theorem numberLines_inj {lines : List Line} {j k : NumberedLine} (hj : j ∈ numberLines lines)
    (hk : k ∈ numberLines lines) (h : j.number = k.number) : j = k := by
  have htext := mem_numberLines_iff.mp hj
  rw [h, mem_numberLines_iff.mp hk] at htext
  obtain ⟨n, t⟩ := j
  obtain ⟨m, u⟩ := k
  obtain rfl : n = m := h
  obtain rfl := Option.some.inj htext
  rfl

theorem text_of_mem_codeLines {lines : List Line} {k : NumberedLine} (hk : k ∈ codeLines lines) :
    lines[k.number]? = some k.text :=
  mem_numberLines_iff.mp ((sublist_codeLines lines).subset hk)

/-! ## declarations on a line -/

theorem exists_shape_of_first? {l : Line} {d : Declaration} (h : Declaration.first? l = some d) :
    ∃ (keyword : Line) (Tail : Line → Prop) (p gap nm r : Line),
      DeclaredAt keyword Tail l p gap nm r ∧ d.name = String.ofList nm ∧
        d.span = nameSpan keyword p gap nm := by
  rw [Declaration.first?, Declaration.binding?, Declaration.imported?, Option.or_assoc,
    Option.or_eq_some_iff, Option.or_eq_some_iff] at h
  rcases h with h | ⟨-, h | ⟨-, h⟩⟩
  · obtain ⟨p, gap, nm, r, hd, -, rfl⟩ := (shape_function.ofShape?_eq_some_iff _ l d).mp h
    exact ⟨_, _, p, gap, nm, r, hd, rfl, rfl⟩
  · obtain ⟨p, gap, nm, r, hd, -, rfl⟩ := (shape_variable.ofShape?_eq_some_iff _ l d).mp h
    exact ⟨_, _, p, gap, nm, r, hd, rfl, rfl⟩
  · obtain ⟨p, gap, nm, r, hd, -, rfl⟩ := (shape_import.ofShape?_eq_some_iff _ l d).mp h
    exact ⟨_, _, p, gap, nm, r, hd, rfl, rfl⟩

/-- a declaration stands on its line under its own name, which is an identifier -/
theorem first?_name {l : Line} {d : Declaration} (h : Declaration.first? l = some d) :
    ∃ before nm after, l = before ++ (nm ++ after) ∧ IsName nm ∧ endsInWord before = false ∧
      d.name = String.ofList nm ∧ d.span = ⟨before.length, before.length + nm.length⟩ := by
  obtain ⟨keyword, Tail, p, gap, nm, r, hd, hname, hspan⟩ := exists_shape_of_first? h
  exact ⟨p ++ (keyword ++ gap), nm, r, hd.line_eq, hd.name, hd.edge_before_name, hname, hspan⟩

theorem span_text_of_first? {l : Line} {d : Declaration} (h : Declaration.first? l = some d) :
    d.span.text l = d.name := by
  obtain ⟨before, nm, after, rfl, -, -, hname, hspan⟩ := first?_name h
  rw [hname, hspan, Span.text, Span.chars_between]

/-! ## the first symbol of each name -/

/-- a listed symbol is the first one of its name -/
theorem exists_append_of_mem_firstOfEachName {l : List Symbol} {s : Symbol}
    (h : s ∈ firstOfEachName l) :
    ∃ before after, l = before ++ s :: after ∧ ∀ t ∈ before, t.name ≠ s.name := by
  induction l with
  | nil => exact absurd h List.not_mem_nil
  | cons t l ih =>
    rcases List.mem_cons.mp h with rfl | h
    · exact ⟨[], l, rfl, fun t ht => absurd ht List.not_mem_nil⟩
    · obtain ⟨hmem, hne⟩ := List.mem_filter.mp h
      obtain ⟨before, after, rfl, hbefore⟩ := ih hmem
      refine ⟨t :: before, after, rfl, fun u hu => ?_⟩
      rcases List.mem_cons.mp hu with rfl | hu
      · exact fun heq => bne_iff_ne.mp hne heq.symm
      · exact hbefore u hu

theorem exists_mem_firstOfEachName {l : List Symbol} {t : Symbol} (h : t ∈ l) :
    ∃ s ∈ firstOfEachName l, s.name = t.name := by
  induction l with
  | nil => exact absurd h List.not_mem_nil
  | cons u l ih =>
    rcases List.mem_cons.mp h with rfl | h
    · exact ⟨t, List.mem_cons_self, rfl⟩
    · obtain ⟨s, hs, hst⟩ := ih h
      by_cases hu : s.name = u.name
      · exact ⟨u, List.mem_cons_self, by rw [← hu, hst]⟩
      · exact ⟨s, List.mem_cons_of_mem _ (List.mem_filter.mpr ⟨hs, bne_iff_ne.mpr hu⟩), hst⟩

/-! ## references -/

/-- The lines of the words that equal a name, one for each, without the word at `site`. -/
def usesOf (code : List NumberedLine) (name : String) (site : Range) : List Nat :=
  code.flatMap fun k => ((wordRuns k.text).filter fun r =>
    r.text k.text == name && r.range k.number k.text != site).map fun _ => k.number

theorem column_inj {l : Line} {j k : Nat} (hj : j ≤ l.length) (hk : k ≤ l.length)
    (h : column l j = column l k) : j = k := by
  rw [← place_column l j hj, h, place_column l k hk]

theorem mentions_eq (code : List NumberedLine) : mentions code = code.flatMap fun k =>
    ((wordRuns k.text).filter fun r => isNameText (r.chars k.text)).map fun r =>
      ⟨r.text k.text, k.number, column k.text r.start⟩ := by
  rw [mentions]
  congr 1
  funext k
  rw [Pattern.all_of_fitsWords Pattern.fitsWords_identifier, List.map_map]
  rfl

/-- A word that equals the name of a symbol is a mention of it unless it stands at the site of its
declaration. -/
theorem refersTo_word {k l : NumberedLine} {d : Declaration} {r : Span} {s : Symbol}
    (hr : r ∈ wordRuns k.text) (hd : Declaration.first? l.text = some d)
    (hkl : k.number = l.number → k = l) (hname : s.name = d.name) (hline : s.line = l.number)
    (hrange : s.nameRange = d.span.range l.number l.text) :
    (isNameText (r.chars k.text) &&
      Mention.refersTo ⟨r.text k.text, k.number, column k.text r.start⟩ s) =
    (!isReserved s.name &&
      (r.text k.text == s.name && r.range k.number k.text != s.nameRange)) := by
  obtain ⟨before, nm, after, hl, hnm, -, hdname, hspan⟩ := first?_name hd
  obtain ⟨a, w, b, hk, -, hw, -, rfl⟩ := (mem_wordRuns_iff k.text r).mp hr
  have htext : (Span.mk a.length (a.length + w.length)).text k.text = String.ofList w := by
    rw [Span.text, hk, Span.chars_between]
  have hchars : (Span.mk a.length (a.length + w.length)).chars k.text = w := by
    rw [hk, Span.chars_between]
  by_cases heq : String.ofList w = s.name
  · have hwnm : w = nm := by
      rw [hname, hdname] at heq
      exact String.ofList_injective heq
    subst hwnm
    have hsite : (k.number == s.line && column k.text a.length == s.nameRange.start.character) =
        ((Span.mk a.length (a.length + w.length)).range k.number k.text == s.nameRange) := by
      rw [Bool.eq_iff_iff, Bool.and_eq_true, beq_iff_eq, beq_iff_eq, beq_iff_eq, hline, hrange,
        hspan]
      constructor
      · rintro ⟨hn, hc⟩
        obtain rfl := hkl hn
        have hplace : a.length = before.length := by
          refine column_inj ?_ ?_ hc
          · rw [hk, List.length_append]
            exact Nat.le_add_right _ _
          · rw [hl, List.length_append]
            exact Nat.le_add_right _ _
        rw [hplace]
      · exact fun h => ⟨congrArg (·.start.line) h, congrArg (·.start.character) h⟩
    rw [htext, hchars, (isNameText_iff w).mpr hnm, Bool.true_and, heq, beq_self_eq_true,
      Bool.true_and]
    show (s.name == s.name && !isReserved s.name &&
      !(k.number == s.line && column k.text a.length == s.nameRange.start.character)) = _
    rw [beq_self_eq_true, Bool.true_and, hsite]
    rfl
  · have hne : (String.ofList w == s.name) = false := beq_eq_false_iff_ne.mpr heq
    rw [Mention.refersTo, htext, hne]
    simp

/-! ## the table -/

/-- A symbol of the table with its declaration: the first line that declares its name. -/
theorem exists_declaration_of_mem_indexSymbols {lines : List Line} {s : Symbol}
    (hs : s ∈ (indexSymbols lines).symbols) : ∃ before l after d,
      codeLines lines = before ++ l :: after ∧ Declaration.first? l.text = some d ∧
      d.name = s.name ∧ (∀ k ∈ before, ∀ e, Declaration.first? k.text = some e → e.name ≠ s.name) ∧
      s.kind = d.kind ∧ s.line = l.number ∧ s.nameRange = d.span.range l.number l.text := by
  rw [symbols_indexSymbols] at hs
  obtain ⟨t, ht, rfl⟩ := List.mem_map.mp hs
  obtain ⟨before, after, hsplit, hfirst⟩ := exists_append_of_mem_firstOfEachName ht
  obtain ⟨b, a, hcode, hb, ha⟩ := List.filterMap_eq_append_iff.mp hsplit
  obtain ⟨skipped, l, rest, rfl, hskipped, hl, -⟩ := List.filterMap_eq_cons_iff.mp ha
  obtain ⟨d, hd, rfl⟩ := Option.map_eq_some_iff.mp hl
  refine ⟨b ++ skipped, l, rest, d, by rw [hcode, List.append_assoc], hd, rfl, ?_, rfl, rfl, rfl⟩
  intro k hk e he
  rcases List.mem_append.mp hk with hk | hk
  · have hmem :
        (⟨e.name, e.kind, k.number, e.span.range k.number k.text, [], false⟩ : Symbol) ∈
          before := by
      rw [← hb]
      exact List.mem_filterMap.mpr ⟨k, hk, by rw [Symbol.declaredOn?, he]; rfl⟩
    exact hfirst _ hmem
  · have := hskipped k hk
    rw [Symbol.declaredOn?, he] at this
    exact absurd this (by simp)

theorem symbols_pairwise (lines : List Line) :
    (indexSymbols lines).symbols.Pairwise fun s t => s.name ≠ t.name ∧ s.line < t.line := by
  rw [symbols_indexSymbols]
  refine List.pairwise_map.mpr (List.Pairwise.and (firstOfEachName_distinct _) ?_)
  refine List.Pairwise.sublist (firstOfEachName_sublist _) (List.pairwise_filterMap.mpr ?_)
  refine (codeLines_pairwise lines).imp fun {j k} hlt s hs t ht => ?_
  obtain ⟨d, -, rfl⟩ := Option.map_eq_some_iff.mp hs
  obtain ⟨e, -, rfl⟩ := Option.map_eq_some_iff.mp ht
  exact hlt

theorem find?_key_of_mem {α κ : Type} [BEq κ] [LawfulBEq κ] {key : α → κ} {l : List α} {a : α}
    (h : l.Pairwise fun x y => key x ≠ key y) (ha : a ∈ l) :
    l.find? (fun x => key x == key a) = some a := by
  obtain ⟨before, after, rfl⟩ := List.append_of_mem ha
  rw [List.find?_append, List.find?_eq_none.mpr ?_]
  · simp
  · intro x hx heq
    exact (List.pairwise_append.mp h).2.2 x hx a List.mem_cons_self (beq_iff_eq.mp heq)

theorem get?_of_mem_indexSymbols {lines : List Line} {s : Symbol}
    (hs : s ∈ (indexSymbols lines).symbols) : (indexSymbols lines).get? s.name = some s :=
  find?_key_of_mem ((symbols_pairwise lines).imp And.left) hs

theorem contains_indexSymbols_iff (lines : List Line) (name : String) :
    (indexSymbols lines).contains name = true ↔
      ∃ l ∈ codeLines lines, ∃ d, Declaration.first? l.text = some d ∧ d.name = name := by
  rw [SymbolTable.contains, List.any_eq_true]
  constructor
  · rintro ⟨s, hs, hname⟩
    obtain ⟨before, l, after, d, hcode, hd, hds, -⟩ := exists_declaration_of_mem_indexSymbols hs
    refine ⟨l, ?_, d, hd, hds.trans (beq_iff_eq.mp hname)⟩
    rw [hcode]
    exact List.mem_append_right _ List.mem_cons_self
  · rintro ⟨l, hl, d, hd, rfl⟩
    have hmem : (⟨d.name, d.kind, l.number, d.span.range l.number l.text, [], false⟩ : Symbol) ∈
        (codeLines lines).filterMap Symbol.declaredOn? :=
      List.mem_filterMap.mpr ⟨l, hl, by rw [Symbol.declaredOn?, hd]; rfl⟩
    obtain ⟨s, hs, hname⟩ := exists_mem_firstOfEachName hmem
    rw [symbols_indexSymbols]
    exact ⟨_, List.mem_map_of_mem hs, beq_iff_eq.mpr hname⟩

theorem eq_of_number_eq {lines : List Line} {j k : NumberedLine} (hj : j ∈ codeLines lines)
    (hk : k ∈ codeLines lines) (h : j.number = k.number) : j = k :=
  numberLines_inj ((sublist_codeLines lines).subset hj) ((sublist_codeLines lines).subset hk) h

/-- the references of a symbol are the uses of its name away from its declaration -/
theorem references_of_mem_indexSymbols {lines : List Line} {s : Symbol}
    (hs : s ∈ (indexSymbols lines).symbols) : s.references =
      if isReserved s.name then [] else usesOf (codeLines lines) s.name s.nameRange := by
  obtain ⟨before, l, after, d, hcode, hd, hds, -, -, hline, hrange⟩ :=
    exists_declaration_of_mem_indexSymbols hs
  have hl : l ∈ codeLines lines := by
    rw [hcode]
    exact List.mem_append_right _ List.mem_cons_self
  have hrefs : s.references =
      ((mentions (codeLines lines)).filter fun m => m.refersTo s).map Mention.line := by
    rw [symbols_indexSymbols] at hs
    obtain ⟨t, -, rfl⟩ := List.mem_map.mp hs
    rfl
  have hall : s.references = (codeLines lines).flatMap fun k => ((wordRuns k.text).filter fun r =>
      !isReserved s.name && (r.text k.text == s.name && r.range k.number k.text != s.nameRange)).map
        fun _ => k.number := by
    rw [hrefs, mentions_eq, List.filter_flatMap, List.map_flatMap]
    refine List.flatMap_congr fun k hk => ?_
    rw [List.filter_map, List.map_map, List.filter_filter]
    congr 1
    refine List.filter_congr fun r hr => ?_
    rw [Bool.and_comm]
    exact refersTo_word hr hd (eq_of_number_eq hk hl) hds.symm hline hrange
  rw [hall]
  cases isReserved s.name with
  | true => simp
  | false => simp [usesOf]

/-- the text of a range on one line of a document -/
def Range.textIn (lines : List Line) (r : Range) : Option String :=
  lines[r.start.line]?.map fun l =>
    (Span.mk (place l r.start.character) (place l r.stop.character)).text l

theorem textIn_range {lines : List Line} {n : Nat} {l : Line} {s : Span} (hl : lines[n]? = some l)
    (hs : s.start ≤ l.length ∧ s.stop ≤ l.length) :
    (s.range n l).textIn lines = some (s.text l) := by
  show lines[n]?.map _ = _
  rw [hl, Option.map_some]
  show some ((Span.mk (place l (column l s.start)) (place l (column l s.stop))).text l) = _
  rw [place_column _ _ hs.1, place_column _ _ hs.2]

theorem textIn_nameRange {lines : List Line} {s : Symbol}
    (hs : s ∈ (indexSymbols lines).symbols) : s.nameRange.textIn lines = some s.name := by
  obtain ⟨before, l, after, d, hcode, hd, hds, -, -, -, hrange⟩ :=
    exists_declaration_of_mem_indexSymbols hs
  have hl : l ∈ codeLines lines := by
    rw [hcode]
    exact List.mem_append_right _ List.mem_cons_self
  obtain ⟨a, w, b, htext, -, -, -, hspan⟩ := first?_name hd
  have hlen : d.span.start ≤ l.text.length ∧ d.span.stop ≤ l.text.length := by
    rw [hspan, htext, List.length_append, List.length_append]
    exact ⟨Nat.le_add_right _ _, by show a.length + w.length ≤ _; omega⟩
  rw [hrange, textIn_range (text_of_mem_codeLines hl) hlen, span_text_of_first? hd, hds]

/-- **The symbol table.**  A name is in the table exactly if a code line declares it.  Its symbol
has kind, line and range of the first such line, and the range holds the name; its references are
the lines of all words that equal the name away from that range, none for a reserved name; and no
two symbols are declared on one line. -/
theorem indexSymbols_spec (lines : List Line) :
    (∀ name, (indexSymbols lines).contains name = true ↔
      ∃ l ∈ codeLines lines, ∃ d, Declaration.first? l.text = some d ∧ d.name = name) ∧
    (∀ s ∈ (indexSymbols lines).symbols,
      (indexSymbols lines).get? s.name = some s ∧
      (∃ before l after d, codeLines lines = before ++ l :: after ∧
        Declaration.first? l.text = some d ∧ d.name = s.name ∧
        (∀ k ∈ before, ∀ e, Declaration.first? k.text = some e → e.name ≠ s.name) ∧
        s.kind = d.kind ∧ s.line = l.number ∧ s.nameRange = d.span.range l.number l.text) ∧
      s.nameRange.textIn lines = some s.name ∧
      s.references = (if isReserved s.name then [] else
        usesOf (codeLines lines) s.name s.nameRange) ∧
      (s.used = true ↔ s.references ≠ [])) ∧
    (indexSymbols lines).symbols.Pairwise fun s t => s.line ≠ t.line := by
  refine ⟨contains_indexSymbols_iff lines, fun s hs => ⟨get?_of_mem_indexSymbols hs,
    exists_declaration_of_mem_indexSymbols hs, textIn_nameRange hs,
    references_of_mem_indexSymbols hs, used_iff_of_mem_indexSymbols hs⟩,
    (symbols_pairwise lines).imp fun h => Nat.ne_of_lt h.2⟩

end LanguageService
