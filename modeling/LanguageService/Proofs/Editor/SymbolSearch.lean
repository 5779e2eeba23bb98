import Mathlib.Data.List.Flatten
import Mathlib.Data.List.Infix
import LanguageService.Proofs.Editor.Outline

/-!
# Searching symbols while typing

A symbol is found if its name contains the query, both in lower case.  Lower case does not respect
parts of texts in general: a capital sigma at the end of a word has a small letter of its own.  But
names are ASCII, so a query with a capital sigma finds nothing, and other queries are mapped
character by character.

* `isAscii_lowercase`      a name in lower case is ASCII
* `not_isAscii_of_sigma`   a text with a capital sigma is not, in lower case
* `lowercase_mono`         without a capital sigma, parts of texts stay parts
* `isName_of_mem_outline`  the names in an outline are identifiers
* `matchesQuery_mono`      a name that matches a query matches every part of it
* `findSymbols_narrows`    a longer query finds no more, and the empty one finds everything
-/

namespace LanguageService

/-! ## lower case and ASCII -/

/-- ASCII characters only -/
def IsAscii (l : Line) : Prop := ∀ c ∈ l, c.toNat < 128

theorem not_isAscii_capitalSigma : ¬ capitalSigma.toNat < 128 := by decide

theorem IsAscii.capitalSigma_not_mem {l : Line} (h : IsAscii l) : capitalSigma ∉ l :=
  fun hmem => not_isAscii_capitalSigma (h _ hmem)

theorem isAscii_lowerChar {c : Char} (hc : c.toNat < 128) : IsAscii (lowerChar c) := by
  intro d hd
  have hlower : lowerChar c = [if 'A' ≤ c ∧ c ≤ 'Z' then Char.ofNat (c.toNat + 32) else c] :=
    if_pos hc
  rw [hlower, List.mem_singleton] at hd
  rw [hd]
  split
  · next hletter =>
    have hle : c.toNat ≤ 90 := hletter.2
    have hvalid : (c.toNat + 32).isValidChar := Or.inl (by omega)
    have hsmall : (Char.ofNat (c.toNat + 32)).toNat = c.toNat + 32 := by
      rw [Char.ofNat, dif_pos hvalid]
      rfl
    omega
  · exact hc

theorem isAscii_lowercase {l : Line} (h : IsAscii l) : IsAscii (lowercase l) := by
  rw [lowercase_eq_flatMap l h.capitalSigma_not_mem]
  intro d hd
  obtain ⟨c, hc, hd⟩ := List.mem_flatMap.mp hd
  exact isAscii_lowerChar (h c hc) d hd

theorem not_isAscii_of_sigma {l : Line} (h : capitalSigma ∈ l) : ¬ IsAscii (lowercase l) := by
  have key : ∀ before, ∃ d ∈ lowercaseFrom before l, ¬ d.toNat < 128 := by
    induction l with
    | nil => exact absurd h List.not_mem_nil
    | cons c rest ih =>
      intro before
      rw [lowercaseFrom]
      by_cases hc : c = capitalSigma
      · rw [if_pos hc]
        refine ⟨_, List.mem_append_left _ List.mem_cons_self, ?_⟩
        split <;> decide
      · have hrest : capitalSigma ∈ rest := (List.mem_cons.mp h).resolve_left (Ne.symm hc)
        obtain ⟨d, hd, hlarge⟩ := ih hrest (c :: before)
        exact ⟨d, List.mem_append_right _ hd, hlarge⟩
  obtain ⟨d, hd, hlarge⟩ := key []
  exact fun hascii => hlarge (hascii d hd)

/-- without a capital sigma, a part of a text is a part of it in lower case -/
theorem lowercase_mono {p q : Line} (h : p <:+: q) (hq : capitalSigma ∉ q) :
    lowercase p <:+: lowercase q := by
  rw [lowercase_eq_flatMap q hq, lowercase_eq_flatMap p fun hp => hq (h.subset hp)]
  exact h.flatMap lowerChar

/-- With a capital sigma it need not be one. -/
example : ['Σ'] <:+: ['a', 'Σ'] ∧ ¬ lowercase ['Σ'] <:+: lowercase ['a', 'Σ'] := by decide +kernel

/-! ## names -/

theorem IsName.isAscii {w : Line} (h : IsName w) : IsAscii w :=
  fun c hc => toNat_lt_of_isNameChar (h.isNameChar c hc)

theorem DeclarationShape.isName_of_ofShape? {a : Pattern} {keyword l : Line} {Tail : Line → Prop}
    (h : DeclarationShape a keyword Tail) {kind : SymbolKind} {d : Declaration}
    (hd : Declaration.ofShape? kind a l = some d) : IsName d.name.toList := by
  obtain ⟨p, gap, nm, r, hat, -, rfl⟩ := (h.ofShape?_eq_some_iff kind l d).mp hd
  show IsName (String.ofList nm).toList
  rw [String.toList_ofList]
  exact hat.name

theorem isName_of_mem_onLine {l : Line} {d : Declaration} (h : d ∈ Declaration.onLine l) :
    IsName d.name.toList := by
  rcases List.mem_append.mp h with h | h
  · rcases Option.or_eq_some_iff.mp (Option.mem_toList.mp h) with h | ⟨-, h⟩
    · exact shape_function.isName_of_ofShape? h
    · exact shape_variable.isName_of_ofShape? h
  · exact shape_import.isName_of_ofShape? (Option.mem_toList.mp h)

theorem isName_of_mem_outline {lines : List Line} {e : OutlineEntry} (h : e ∈ outline lines) :
    IsName e.name.toList := by
  obtain ⟨k, -, he⟩ := List.mem_flatMap.mp h
  obtain ⟨d, hd, rfl⟩ := List.mem_map.mp he
  exact isName_of_mem_onLine hd

/-! ## queries -/

theorem occursIn_iff_infix (needle hay : Line) : occursIn needle hay = true ↔ needle <:+: hay := by
  rw [occursIn_iff]
  exact exists_congr fun before => exists_congr fun after => eq_comm

theorem matchesQuery_mono {p q : Line} (h : p <:+: q) {name : String}
    (hname : IsName name.toList) (hq : matchesQuery q name = true) :
    matchesQuery p name = true := by
  rw [matchesQuery, occursIn_iff_infix] at hq ⊢
  -- what an ASCII text contains is ASCII, so the query holds no capital sigma
  have hascii : IsAscii (lowercase q) :=
    fun c hc => isAscii_lowercase hname.isAscii c (hq.subset hc)
  have hsigma : capitalSigma ∉ q := fun hmem => not_isAscii_of_sigma hmem hascii
  exact (lowercase_mono h hsigma).trans hq

theorem matchesQuery_nil (name : String) : matchesQuery [] name = true := by
  rw [matchesQuery, occursIn_iff_infix]
  exact List.nil_infix

theorem filter_outline_sublist {p q : Line} (h : p <:+: q) (lines : List Line) :
    ((outline lines).filter fun e => matchesQuery q e.name).Sublist
      ((outline lines).filter fun e => matchesQuery p e.name) := by
  have hboth : (outline lines).filter (fun e => matchesQuery q e.name) =
      ((outline lines).filter fun e => matchesQuery p e.name).filter
        fun e => matchesQuery q e.name := by
    rw [List.filter_filter]
    refine List.filter_congr fun e he => ?_
    cases hq : matchesQuery q e.name with
    | false => rfl
    | true => rw [matchesQuery_mono h (isName_of_mem_outline he) hq, Bool.and_self]
  rw [hboth]
  exact List.filter_sublist

/-- **Typing more narrows the search.**  What a query finds in a list of documents is found, in the
same order, by every part of the query, and the empty query finds every entry of every outline. -/
theorem findSymbols_narrows (docs : List (String × List Line)) :
    (∀ p q : Line, p <:+: q → (findSymbols docs q).Sublist (findSymbols docs p)) ∧
    findSymbols docs [] = docs.flatMap fun d => (outline d.2).map fun e => ⟨d.1, e⟩ := by
  constructor
  · intro p q h
    exact List.Sublist.flatMap_right docs fun d _ => (filter_outline_sublist h d.2).map _
  · have hall (d : String × List Line) :
        (outline d.2).filter (fun e => matchesQuery [] e.name) = outline d.2 :=
      List.filter_eq_self.mpr fun e _ => matchesQuery_nil e.name
    simp only [findSymbols, hall]

/-- two documents, with a name in capitals and one that holds it in small letters -/
def capitalDocuments : List (String × List Line) :=
  [("a", ["let KEEP = 1".toList, "let ee = 2".toList]), ("b", ["import keeper".toList])]

/-- The longer query begins with a sign beyond ASCII whose small letter is an ASCII letter. -/
theorem findSymbols_capitalDocuments :
    let p : Line := ['E', 'e']
    let q : Line := [Char.ofNat 0x212a, 'E', 'e', 'p']
    p <:+: q ∧ (findSymbols capitalDocuments q).Sublist (findSymbols capitalDocuments p) ∧
      (findSymbols capitalDocuments q).map (fun s => s.entry.name) = ["KEEP", "keeper"] ∧
      (findSymbols capitalDocuments p).map (fun s => s.entry.name) = ["KEEP", "ee", "keeper"] := by
  intro p q
  have hpart : p <:+: q := by decide +kernel
  exact ⟨hpart, (findSymbols_narrows capitalDocuments).1 p q hpart, by decide +kernel,
    by decide +kernel⟩

end LanguageService
