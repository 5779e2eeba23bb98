import LanguageService.Editor.Completion
import LanguageService.Proofs.Source.SymbolTable

/-!
# What the tables say on a word

The detail of a word is the written form of its signature, or else names its catalog.  Its
documentation is its page of the manual, or else a plain remark.  No table has two entries for one
word, so the tables say one thing only.

* `DescribedBy k w d remark`     detail and remark for a word of a catalog
* `DocumentedBy w remark doc`    its documentation, by the manual or by the remark
* `KnownOf k w d doc`            detail and documentation for a word of a catalog
* `knownOf_iff`                  this is what `explain` gives
-/

namespace LanguageService

/-- detail and remark for a word of a catalog -/
inductive DescribedBy : WordKind → String → String → String → Prop
  | keyword (w : String) :
      DescribedBy .keyword w "VintLang keyword" ("The '" ++ w ++ "' keyword in VintLang")
  | signed {s : Signature} (hs : s ∈ signatures) :
      DescribedBy .builtin s.name s.label s.description
  | unsigned {w : String} (hw : w ∉ signatures.map Signature.name) :
      DescribedBy .builtin w "VintLang built-in function" ("Built-in function: " ++ w ++ "()")
  | module (w : String) : DescribedBy .module w "VintLang module" ("VintLang module: " ++ w)

/-- the documentation of a word: its page, or the remark if it has none -/
inductive DocumentedBy (w remark : String) : Documentation → Prop
  | page {lines : List String} (h : (w, lines) ∈ manualPages) :
      DocumentedBy w remark (.markup "markdown" ("\n".intercalate lines))
  | remark (hw : w ∉ manualPages.map Prod.fst) : DocumentedBy w remark (.plain remark)

/-- detail and documentation for a word of a catalog -/
def KnownOf (k : WordKind) (w d : String) (doc : Documentation) : Prop :=
  ∃ remark, DescribedBy k w d remark ∧ DocumentedBy w remark doc

/-! ## signatures -/

theorem signature?_of_mem {s : Signature} (hs : s ∈ signatures) : signature? s.name = some s := by
  have hdistinct : signatures.Pairwise fun s t => s.name ≠ t.name := by decide +kernel
  exact find?_key_of_mem hdistinct hs

theorem mem_of_signature? {w : String} {s : Signature} (h : signature? w = some s) :
    s ∈ signatures ∧ s.name = w := by
  have hname := List.find?_some h
  exact ⟨List.mem_of_find?_eq_some h, beq_iff_eq.mp hname⟩

theorem signature?_eq_none_iff {w : String} :
    signature? w = none ↔ w ∉ signatures.map Signature.name := by
  rw [signature?, List.find?_eq_none, List.mem_map, not_exists]
  refine forall_congr' fun s => ?_
  rw [beq_iff_eq, not_and]

/-! ## pages of the manual -/

theorem manualPage?_of_mem {w : String} {lines : List String} (h : (w, lines) ∈ manualPages) :
    manualPage? w = some ("\n".intercalate lines) := by
  have hdistinct : manualPages.Pairwise fun p q => p.1 ≠ q.1 := by decide +kernel
  obtain ⟨before, after, heq⟩ := List.append_of_mem h
  rw [heq] at hdistinct
  have hlookup : manualPages.lookup w = some lines := by
    refine List.lookup_eq_some_iff.mpr ⟨before, after, heq, fun p hp => bne_iff_ne.mpr fun hw => ?_⟩
    exact (List.pairwise_append.mp hdistinct).2.2 p hp (w, lines) List.mem_cons_self hw.symm
  rw [manualPage?, hlookup, Option.map_some]

theorem exists_of_manualPage? {w page : String} (h : manualPage? w = some page) :
    ∃ lines, (w, lines) ∈ manualPages ∧ "\n".intercalate lines = page := by
  obtain ⟨lines, hlookup, rfl⟩ := Option.map_eq_some_iff.mp h
  obtain ⟨before, after, heq, -⟩ := List.lookup_eq_some_iff.mp hlookup
  refine ⟨lines, ?_, rfl⟩
  rw [heq]
  exact List.mem_append_right _ List.mem_cons_self

theorem manualPage?_eq_none_iff {w : String} :
    manualPage? w = none ↔ w ∉ manualPages.map Prod.fst := by
  rw [manualPage?, Option.map_eq_none_iff, List.lookup_eq_none_iff, List.mem_map, not_exists]
  refine forall_congr' fun p => ?_
  rw [bne_iff_ne, not_and, ne_comm]

/-! ## explanations -/

namespace CompletionItem

theorem documentedBy_iff {w remark : String} {doc : Documentation} :
    DocumentedBy w remark doc ↔ doc = documentationOr w remark := by
  unfold documentationOr
  constructor
  · intro h
    cases h with
    | page h => rw [manualPage?_of_mem h]
    | remark hw => rw [manualPage?_eq_none_iff.mpr hw]
  · intro h
    subst h
    cases hpage : manualPage? w with
    | none => exact .remark (manualPage?_eq_none_iff.mp hpage)
    | some page =>
      obtain ⟨lines, hmem, rfl⟩ := exists_of_manualPage? hpage
      exact .page hmem

theorem exists_describedBy (k : WordKind) (w : String) : ∃ d remark, DescribedBy k w d remark := by
  cases k with
  | keyword => exact ⟨_, _, .keyword w⟩
  | module => exact ⟨_, _, .module w⟩
  | builtin =>
    cases h : signature? w with
    | none => exact ⟨_, _, .unsigned (signature?_eq_none_iff.mp h)⟩
    | some s =>
      obtain ⟨hs, rfl⟩ := mem_of_signature? h
      exact ⟨_, _, .signed hs⟩

theorem explain_of_describedBy {k : WordKind} {w d remark : String}
    (h : DescribedBy k w d remark) : explain w k = (d, documentationOr w remark) := by
  cases h with
  | keyword => rfl
  | signed hs => rw [explain, signature?_of_mem hs]
  | unsigned hw => rw [explain, signature?_eq_none_iff.mpr hw]
  | module => rfl

theorem knownOf_iff {k : WordKind} {w d : String} {doc : Documentation} :
    KnownOf k w d doc ↔ explain w k = (d, doc) := by
  constructor
  · rintro ⟨remark, hd, hdoc⟩
    rw [explain_of_describedBy hd, documentedBy_iff.mp hdoc]
  · intro h
    obtain ⟨e, remark, he⟩ := exists_describedBy k w
    rw [explain_of_describedBy he, Prod.mk.injEq] at h
    obtain ⟨rfl, hdoc⟩ := h
    exact ⟨remark, he, documentedBy_iff.mpr hdoc.symm⟩

end CompletionItem
end LanguageService
