import Mathlib.Data.List.Basic
import LanguageService.Proofs.Editor.Explanation
import LanguageService.Proofs.Source.DeclarationOrder

/-!
# Offers and their explanations

An offer names its catalog in its data, and without data its label is looked up in the catalogs.
Both ways lead to the same catalog, as no word is in two of them and no symbol with the name of a
word is offered.

* `WordKind.of?_eq_some_iff`   the catalog of a word
* `SymbolTable.offered`        the symbols that are offered
* `OfferedAs`                  the data of an offer and its label lead to one catalog
* `Explained`                  what a look at an offer changes, with its data and without
* `ExplainedBy`                a look at the offer of a word attaches what the tables say on it
* `completions_spec`           the offers for a text
-/

namespace LanguageService

/-! ## the catalogs -/

/-- the words of a catalog -/
def WordKind.words : WordKind → List String
  | keyword => keywords
  | builtin => builtins
  | module => modules

theorem WordKind.of?_eq_some_iff {w : String} {k : WordKind} : of? w = some k ↔ w ∈ k.words := by
  by_cases hkeyword : w ∈ keywords
  · have hbuiltin := keywords_disjoint_builtins w hkeyword
    have hmodule := keywords_disjoint_modules w hkeyword
    cases k <;> simp [of?, isKeyword, words, hkeyword, hbuiltin, hmodule]
  · by_cases hbuiltin : w ∈ builtins
    · have hmodule := builtins_disjoint_modules w hbuiltin
      cases k <;> simp [of?, isKeyword, isBuiltin, words, hkeyword, hbuiltin, hmodule]
    · cases k <;> simp [of?, isKeyword, isBuiltin, isModule, words, hkeyword, hbuiltin]

/-- the words of all catalogs, in the order in which they are offered -/
def offeredWords : List String :=
  keywords ++ builtins ++ modules

theorem mem_offeredWords_iff {w : String} : w ∈ offeredWords ↔ ∃ k : WordKind, w ∈ k.words := by
  rw [offeredWords, List.mem_append, List.mem_append]
  constructor
  · rintro ((h | h) | h)
    · exact ⟨.keyword, h⟩
    · exact ⟨.builtin, h⟩
    · exact ⟨.module, h⟩
  · rintro ⟨k, h⟩
    cases k with
    | keyword => exact Or.inl (Or.inl h)
    | builtin => exact Or.inl (Or.inr h)
    | module => exact Or.inr h

theorem of?_eq_none_iff {w : String} : WordKind.of? w = none ↔ w ∉ offeredWords := by
  rw [Option.eq_none_iff_forall_ne_some, mem_offeredWords_iff, not_exists]
  exact forall_congr' fun k => not_congr WordKind.of?_eq_some_iff

/-! ## the symbols that are offered -/

/-- the symbols in no catalog, in the order of their declarations -/
def SymbolTable.offered (t : SymbolTable) : List Symbol :=
  t.inDeclarationOrder.filter fun s => s.name ∉ offeredWords

theorem SymbolTable.mem_offered_iff {t : SymbolTable} {s : Symbol} :
    s ∈ t.offered ↔ s ∈ t.byName ∧ s.name ∉ offeredWords := by
  rw [offered, List.mem_filter, t.inDeclarationOrder_perm.mem_iff, decide_eq_true_eq]

theorem offered_indexSymbols (lines : List Line) : (indexSymbols lines).offered =
    (indexSymbols lines).symbols.filter fun s => (WordKind.of? s.name).isNone := by
  rw [SymbolTable.offered, inDeclarationOrder_indexSymbols]
  refine List.filter_congr fun s _ => ?_
  rw [Bool.eq_iff_iff, decide_eq_true_eq, Option.isNone_iff_eq_none, of?_eq_none_iff]

theorem offered_pairwise (lines : List Line) :
    (indexSymbols lines).offered.Pairwise fun s t => s.name ≠ t.name ∧ s.line < t.line := by
  rw [offered_indexSymbols]
  exact (symbols_pairwise lines).filter _

/-! ## the offers -/

namespace CompletionItem

/-- an offer that has lost its data -/
def withoutData (i : CompletionItem) : CompletionItem :=
  { i with data := none }

/-- the offer of a word -/
def ofWord : WordKind → String → CompletionItem
  | .keyword => ofKeyword
  | .builtin => ofBuiltin
  | .module => ofModule

/-- The data of the offer and its label lead to one catalog, or both to none. -/
structure OfferedAs (k : Option WordKind) (i : CompletionItem) : Prop where
  data : i.data.bind CompletionCategory.ofData? =
    some ((k.map CompletionCategory.word).getD .symbol)
  label : WordKind.of? i.label = k

theorem ofData?_data (c : CompletionCategory) : CompletionCategory.ofData? c.data = some c := by
  rcases c with (_ | _ | _) | _ <;> rfl

theorem label_ofWord (k : WordKind) (w : String) : (ofWord k w).label = w := by
  cases k <;> rfl

theorem offeredAs_ofWord {k : WordKind} {w : String} (hw : w ∈ k.words) :
    OfferedAs (some k) (ofWord k w) where
  data := by
    have hdata : (ofWord k w).data = some (CompletionCategory.word k).data := by
      cases k <;> rfl
    rw [hdata, Option.bind_some, ofData?_data]
    rfl
  label := by
    rw [label_ofWord]
    exact WordKind.of?_eq_some_iff.mpr hw

theorem label_ofSymbol (s : Symbol) : (ofSymbol s).label = s.name := by
  unfold ofSymbol
  cases s.kind <;> rfl

theorem offeredAs_ofSymbol {s : Symbol} (hs : s.name ∉ offeredWords) :
    OfferedAs none (ofSymbol s) where
  data := by
    have hdata : (ofSymbol s).data = some CompletionCategory.symbol.data := by
      unfold ofSymbol
      cases s.kind <;> rfl
    rw [hdata, Option.bind_some, ofData?_data]
    rfl
  label := by
    rw [label_ofSymbol]
    exact of?_eq_none_iff.mpr hs

section
variable {i : CompletionItem}

theorem OfferedAs.category? {k : Option WordKind} (h : OfferedAs k i) :
    i.category? = some ((k.map CompletionCategory.word).getD .symbol) := by
  rw [CompletionItem.category?, h.data]
  rfl

theorem OfferedAs.category?_withoutData {k : Option WordKind} (h : OfferedAs k i) :
    i.withoutData.category? = k.map .word := by
  show (WordKind.of? i.label).map CompletionCategory.word = k.map CompletionCategory.word
  rw [h.label]

/-- a word is explained by its catalog, with its data and without -/
theorem OfferedAs.resolve_word {k : WordKind} (h : OfferedAs (some k) i) :
    i.resolve = i.explained k ∧ i.withoutData.resolve = i.withoutData.explained k := by
  unfold resolve
  rw [h.category?, h.category?_withoutData]
  exact ⟨rfl, rfl⟩

theorem OfferedAs.resolve_symbol (h : OfferedAs none i) :
    i.resolve = i ∧ i.withoutData.resolve = i.withoutData := by
  unfold resolve
  rw [h.category?, h.category?_withoutData]
  exact ⟨rfl, rfl⟩

/-- A look at an offer changes its detail and its documentation only, a second look changes nothing,
and a look at the offer without its data leads to the same detail and documentation. -/
structure Explained (i : CompletionItem) : Prop where
  only : i.resolve =
    { i with detail := i.resolve.detail, documentation := i.resolve.documentation }
  once : i.resolve.resolve = i.resolve
  withoutData : i.withoutData.resolve = i.resolve.withoutData

theorem resolve_only (i : CompletionItem) : i.resolve =
    { i with detail := i.resolve.detail, documentation := i.resolve.documentation } := by
  unfold resolve
  split <;> rfl

theorem OfferedAs.explained {k : Option WordKind} (h : OfferedAs k i) : Explained i where
  only := resolve_only i
  once := resolve_resolve i
  withoutData := by
    cases k with
    | none => rw [h.resolve_symbol.2, h.resolve_symbol.1]
    | some k =>
      rw [h.resolve_word.2, h.resolve_word.1]
      rfl

end

/-- Detail and documentation are all that the tables say on a word, and a look at its offer attaches
both of them, with its data and without. -/
structure ExplainedBy (k : WordKind) (w d : String) (doc : Documentation) : Prop where
  known : ∀ d' doc', KnownOf k w d' doc' ↔ d' = d ∧ doc' = doc
  withData : (ofWord k w).resolve =
    { ofWord k w with detail := some d, documentation := some doc }
  withoutData : (ofWord k w).withoutData.resolve =
    { (ofWord k w).withoutData with detail := some d, documentation := some doc }

theorem exists_explainedBy {k : WordKind} {w : String} (hw : w ∈ k.words) :
    ∃ d doc, ExplainedBy k w d doc := by
  obtain ⟨hdata, hless⟩ := (offeredAs_ofWord hw).resolve_word
  refine ⟨(explain w k).1, (explain w k).2, fun d' doc' => ?_, ?_, ?_⟩
  · rw [knownOf_iff, Prod.ext_iff, eq_comm, eq_comm (a := (explain w k).2)]
  · rw [hdata]
    cases k <;> rfl
  · rw [hless]
    cases k <;> rfl

end CompletionItem

open CompletionItem

/-- the offers are those of the words, catalog by catalog, and those of the symbols -/
theorem completions_eq (lines : List Line) : completions (indexSymbols lines) =
    [WordKind.keyword, .builtin, .module].flatMap (fun k => k.words.map (ofWord k)) ++
      (indexSymbols lines).offered.map ofSymbol := by
  rw [completions, offered_indexSymbols, List.flatMap_cons, List.flatMap_cons, List.flatMap_cons,
    List.flatMap_nil, List.append_nil, ← List.append_assoc]
  rfl

theorem labels_completions (lines : List Line) : (completions (indexSymbols lines)).map label =
    offeredWords ++ (indexSymbols lines).offered.map Symbol.name := by
  have hword : ∀ k, label ∘ ofWord k = id := fun k => funext (label_ofWord k)
  have hsymbol : label ∘ ofSymbol = Symbol.name := funext label_ofSymbol
  rw [completions_eq, List.map_append, List.map_flatMap, List.map_map, hsymbol]
  simp only [List.map_map, hword, List.map_id]
  rfl

theorem nodup_offered (lines : List Line) :
    (offeredWords ++ (indexSymbols lines).offered.map Symbol.name).Nodup := by
  refine List.nodup_append.mpr ⟨catalog_nodup, ?_, fun w hw name hname => ?_⟩
  · exact List.nodup_iff_pairwise_ne.mpr
      (List.pairwise_map.mpr ((offered_pairwise lines).imp fun h => h.1))
  · obtain ⟨s, hs, rfl⟩ := List.mem_map.mp hname
    intro heq
    exact (SymbolTable.mem_offered_iff.mp hs).2 (heq ▸ hw)

theorem exists_offeredAs {lines : List Line} {i : CompletionItem}
    (hi : i ∈ completions (indexSymbols lines)) : ∃ k, OfferedAs k i := by
  rw [completions_eq] at hi
  rcases List.mem_append.mp hi with hi | hi
  · obtain ⟨k, -, hi⟩ := List.mem_flatMap.mp hi
    obtain ⟨w, hw, rfl⟩ := List.mem_map.mp hi
    exact ⟨some k, offeredAs_ofWord hw⟩
  · obtain ⟨s, hs, rfl⟩ := List.mem_map.mp hi
    exact ⟨none, offeredAs_ofSymbol (SymbolTable.mem_offered_iff.mp hs).2⟩

/-- **The offers for a text.**  They are the words of the catalogs, and then the symbols of the text
that are in no catalog, each declared further down than those before it; no label is offered twice.
A look at an offer changes its detail and documentation only, a second look changes nothing, and
without its data the offer is explained in the same way: a word by what the tables say on it, a
symbol not at all. -/
theorem completions_spec (text : Line) :
    completions (Analysis.of text).symbols =
      [WordKind.keyword, .builtin, .module].flatMap (fun k => k.words.map (ofWord k)) ++
        (Analysis.of text).symbols.offered.map ofSymbol ∧
    (completions (Analysis.of text).symbols).map label =
      offeredWords ++ (Analysis.of text).symbols.offered.map Symbol.name ∧
    ((completions (Analysis.of text).symbols).map label).Nodup ∧
    (Analysis.of text).symbols.offered.Pairwise (fun s t => s.line < t.line) ∧
    (∀ s, s ∈ (Analysis.of text).symbols.offered ↔
      s ∈ (Analysis.of text).symbols.byName ∧ s.name ∉ offeredWords) ∧
    (∀ i ∈ completions (Analysis.of text).symbols, Explained i) ∧
    (∀ k, ∀ w ∈ WordKind.words k, ∃ d doc, ExplainedBy k w d doc) ∧
    ∀ s ∈ (Analysis.of text).symbols.offered, (ofSymbol s).resolve = ofSymbol s ∧
      (ofSymbol s).withoutData.resolve = (ofSymbol s).withoutData := by
  have hlabels := labels_completions (splitLines text)
  refine ⟨completions_eq (splitLines text), hlabels, ?_,
    (offered_pairwise (splitLines text)).imp fun h => h.2,
    fun s => SymbolTable.mem_offered_iff, fun i hi => ?_,
    fun k w hw => exists_explainedBy hw, fun s hs => ?_⟩
  · exact hlabels ▸ nodup_offered (splitLines text)
  · obtain ⟨k, hk⟩ := exists_offeredAs hi
    exact hk.explained
  · exact (offeredAs_ofSymbol (SymbolTable.mem_offered_iff.mp hs).2).resolve_symbol

/-- two variables, the first with the name of a built-in function -/
def shadowingText : Line :=
  "let len = 1\nlet total = len".toList

/-- Only the second variable is offered, behind the catalogs.  A word with a signature and a page
has both, with its data and without, and a word with neither has a plain remark. -/
theorem completions_shadowingText :
    let page := Documentation.markup "markdown"
      ("**convert(value, type)** - Converts a value to the specified type\n\n```vint\n" ++
        "let str = \"123\"\nconvert(str, \"INTEGER\")\n```")
    (completions (Analysis.of shadowingText).symbols).map label = offeredWords ++ ["total"] ∧
    (ofWord .builtin "convert").resolve.detail = some "convert(value, type)" ∧
    (ofWord .builtin "convert").resolve.documentation = some page ∧
    (ofWord .builtin "convert").withoutData.resolve.detail = some "convert(value, type)" ∧
    (ofWord .builtin "convert").withoutData.resolve.documentation = some page ∧
    (ofWord .keyword "else").withoutData.resolve.documentation =
      some (.plain "The 'else' keyword in VintLang") := by
  intro page
  obtain ⟨-, hlabels, -, -, -, -, hwords, -⟩ := completions_spec shadowingText
  have hoffered : (indexSymbols (splitLines shadowingText)).offered.map Symbol.name =
      ["total"] := by
    rw [offered_indexSymbols]
    decide +kernel
  have hconvert : KnownOf .builtin "convert" "convert(value, type)" page := by
    have hs : ⟨"convert", ["value", "type"], "Converts a value to the specified type."⟩ ∈
        signatures := by decide +kernel
    have hlines : ("convert", ["**convert(value, type)** - Converts a value to the specified type",
        "", "```vint", "let str = \"123\"", "convert(str, \"INTEGER\")", "```"]) ∈ manualPages := by
      decide +kernel
    exact ⟨_, .signed hs, .page hlines⟩
  have helse : KnownOf .keyword "else" "VintLang keyword"
      (.plain "The 'else' keyword in VintLang") :=
    ⟨_, .keyword "else", .remark (by decide +kernel)⟩
  obtain ⟨d, doc, h⟩ := hwords .builtin "convert" (by decide +kernel)
  obtain ⟨hd, hdoc⟩ := (h.known _ _).mp hconvert
  obtain ⟨d', doc', h'⟩ := hwords .keyword "else" (by decide +kernel)
  obtain ⟨-, hdoc'⟩ := (h'.known _ _).mp helse
  rw [h.withData, h.withoutData, h'.withoutData, ← hd, ← hdoc, ← hdoc']
  exact ⟨hlabels.trans (congrArg (offeredWords ++ ·) hoffered), rfl, rfl, rfl, rfl, rfl⟩

end LanguageService
