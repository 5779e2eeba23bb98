import LanguageService.Editor.Call
import LanguageService.Proofs.Language.Calls
import LanguageService.Proofs.Source.SymbolTable

/-!
# Functions of a document

A function is found on a line by the general pattern, which takes the leftmost declaration, or by
its name.

* `DeclaredIn`, `DeclaredOn`    a function that the general pattern finds, a name that a line declares
* `declaredOn_of_functionNamed?`, `DeclaredOn.exists_functionNamed?`   the search for a name
* `DeclaredOn.eq_of_countP`     a name that at most one line declares
* `Reaches`                     a function whose body reaches a line
* `reaches_of_enclosingFunction?`, `exists_enclosingFunction?`   the nearest of these is found
-/

namespace LanguageService

/-! ## declarations of functions -/

/-- The general pattern finds the function on a line of the document. -/
def FunctionSite.DeclaredIn (lines : List Line) (f : FunctionSite) : Prop :=
  ∃ k ∈ numberLines lines, FunctionSite.onLine? Shape.anyFunction k = some f

theorem exists_of_onLine? {shape : Pattern} {k : NumberedLine} {f : FunctionSite}
    (h : FunctionSite.onLine? shape k = some f) :
    ∃ m, shape.first? k.text = some m ∧ f.name = (m.group 1).text k.text ∧ f.line = k.number := by
  obtain ⟨m, hm, rfl⟩ := Option.map_eq_some_iff.mp h
  exact ⟨m, hm, rfl, rfl⟩

/-- a line of the document that declares a function of this name -/
def DeclaredOn (lines : List Line) (name : String) (n : Nat) : Prop :=
  ∃ l, lines[n]? = some l ∧ DeclaresName name l

theorem DeclaredOn.isName {lines : List Line} {name : String} {n : Nat}
    (h : DeclaredOn lines name n) : IsName name.toList := by
  obtain ⟨l, -, hname⟩ := h
  exact hname.isName

theorem FunctionSite.DeclaredIn.declaredOn {lines : List Line} {f : FunctionSite}
    (h : f.DeclaredIn lines) : DeclaredOn lines f.name f.line := by
  obtain ⟨k, hk, hf⟩ := h
  obtain ⟨m, hm, hname, hline⟩ := exists_of_onLine? hf
  rw [hname, hline]
  exact ⟨k.text, mem_numberLines_iff.mp hk, declaresName_of_anyFunction hm⟩

theorem DeclaredOn.exists_declaredIn {lines : List Line} {name : String} {n : Nat}
    (h : DeclaredOn lines name n) : ∃ f : FunctionSite, f.DeclaredIn lines ∧ f.line = n := by
  obtain ⟨l, hl, hname⟩ := h
  obtain ⟨m, hm⟩ := exists_anyFunction hname
  have hk : (⟨n, l⟩ : NumberedLine) ∈ numberLines lines := mem_numberLines_iff.mpr hl
  exact ⟨_, ⟨⟨n, l⟩, hk, by rw [FunctionSite.onLine?, hm]; rfl⟩, rfl⟩

theorem FunctionSite.DeclaredIn.eq_of_line {lines : List Line} {f g : FunctionSite}
    (hf : f.DeclaredIn lines) (hg : g.DeclaredIn lines) (hline : f.line = g.line) : f = g := by
  obtain ⟨j, hj, hf⟩ := hf
  obtain ⟨k, hk, hg⟩ := hg
  obtain ⟨-, -, -, hjn⟩ := exists_of_onLine? hf
  obtain ⟨-, -, -, hkn⟩ := exists_of_onLine? hg
  have hnumber : j.number = k.number := by rw [← hjn, ← hkn, hline]
  rw [numberLines_inj hj hk hnumber, hg] at hf
  exact (Option.some.inj hf).symm

theorem declaredOn_of_functionNamed? {lines : List Line} {name : String} (hname : IsName name.toList)
    {f : FunctionSite} (h : functionNamed? lines name = some f) :
    f.name = name ∧ DeclaredOn lines name f.line := by
  obtain ⟨k, hk, hf⟩ := List.exists_of_findSome?_eq_some h
  obtain ⟨m, hm, hfname, hline⟩ := exists_of_onLine? hf
  obtain ⟨hdeclares, htext⟩ := declaresName_of_function hname hm
  refine ⟨hfname.trans htext, k.text, ?_, hdeclares⟩
  rw [hline]
  exact mem_numberLines_iff.mp hk

theorem DeclaredOn.exists_functionNamed? {lines : List Line} {name : String} {n : Nat}
    (h : DeclaredOn lines name n) : ∃ f, functionNamed? lines name = some f := by
  obtain ⟨l, hl, hname⟩ := h
  have hoccurs := (occurs_function_iff hname.isName l).mpr hname
  cases hfound : functionNamed? lines name with
  | some f => exact ⟨f, rfl⟩
  | none =>
    have hk : (⟨n, l⟩ : NumberedLine) ∈ numberLines lines := mem_numberLines_iff.mpr hl
    have hnone := List.findSome?_eq_none_iff.mp hfound _ hk
    rw [FunctionSite.onLine?, Option.map_eq_none_iff] at hnone
    rw [Pattern.occurs, hnone] at hoccurs
    exact absurd hoccurs (by decide)

theorem eq_of_countP_le_one {α : Type} {l : List α} {p : α → Bool} (h : l.countP p ≤ 1) {i j : Nat}
    {a b : α} (ha : l[i]? = some a) (hb : l[j]? = some b) (hpa : p a = true) (hpb : p b = true) :
    i = j := by
  -- if one came first, there would be one on both sides of a cut
  have hcut : ∀ {i j : Nat} {a b : α}, l[i]? = some a → l[j]? = some b → p a = true →
      p b = true → ¬ i < j := by
    intro i j a b ha hb hpa hpb hlt
    have hleft : 0 < (l.take j).countP p :=
      List.countP_pos_iff.mpr ⟨a, List.mem_of_getElem? (by rwa [List.getElem?_take_of_lt hlt]), hpa⟩
    have hright : 0 < (l.drop j).countP p :=
      List.countP_pos_iff.mpr
        ⟨b, List.mem_of_getElem? (i := 0) (by rwa [List.getElem?_drop, Nat.add_zero]), hpb⟩
    have hsum : l.countP p = (l.take j).countP p + (l.drop j).countP p := by
      rw [← List.countP_append, List.take_append_drop]
    omega
  have hij := hcut ha hb hpa hpb
  have hji := hcut hb ha hpb hpa
  omega

theorem DeclaredOn.eq_of_countP {lines : List Line} {name : String}
    (hone : lines.countP (Shape.function name).occurs ≤ 1) {m n : Nat}
    (hm : DeclaredOn lines name m) (hn : DeclaredOn lines name n) : m = n := by
  obtain ⟨k, hk, hkname⟩ := hm
  obtain ⟨l, hl, hlname⟩ := hn
  exact eq_of_countP_le_one hone hk hl ((occurs_function_iff hkname.isName k).mpr hkname)
    ((occurs_function_iff hlname.isName l).mpr hlname)

/-! ## the function to whose body a line belongs -/

/-- The function is declared on line `n` or above, and its body reaches line `n`. -/
structure Reaches (lines : List Line) (n : Nat) (f : FunctionSite) : Prop where
  declared : f.DeclaredIn lines
  above : f.line ≤ n
  reached : n ≤ blockEnd lines f.line

theorem mem_take_numberLines_iff {lines : List Line} {n : Nat} {k : NumberedLine} :
    k ∈ (numberLines lines).take n ↔ k ∈ numberLines lines ∧ k.number < n := by
  constructor
  · intro h
    obtain ⟨i, hi⟩ := List.mem_iff_getElem?.mp h
    rw [List.getElem?_take] at hi
    split at hi
    · next hlt =>
      refine ⟨List.mem_of_mem_take h, ?_⟩
      rw [numberLines, getElem?_numberFrom, Nat.zero_add] at hi
      obtain ⟨l, -, rfl⟩ := Option.map_eq_some_iff.mp hi
      exact hlt
    · cases hi
  · intro h
    obtain ⟨hk, hlt⟩ := h
    refine List.mem_iff_getElem?.mpr ⟨k.number, ?_⟩
    rw [List.getElem?_take_of_lt hlt, numberLines, getElem?_numberFrom,
      mem_numberLines_iff.mp hk, Nat.zero_add]
    rfl

theorem onLine?_filter_iff {lines : List Line} {n : Nat} {k : NumberedLine} {f : FunctionSite} :
    ((FunctionSite.onLine? Shape.anyFunction k).filter fun f => n ≤ blockEnd lines f.line) =
      some f ↔ FunctionSite.onLine? Shape.anyFunction k = some f ∧ n ≤ blockEnd lines f.line := by
  rw [Option.filter_eq_some_iff, decide_eq_true_eq]

theorem reaches_of_enclosingFunction? {lines : List Line} {n : Nat} {f : FunctionSite}
    (h : enclosingFunction? lines n = some f) : Reaches lines n f := by
  obtain ⟨k, hk, hf⟩ := List.exists_of_findSome?_eq_some h
  obtain ⟨hf, hreached⟩ := onLine?_filter_iff.mp hf
  obtain ⟨hk, hlt⟩ := mem_take_numberLines_iff.mp (List.mem_reverse.mp hk)
  obtain ⟨-, -, -, hline⟩ := exists_of_onLine? hf
  exact ⟨⟨k, hk, hf⟩, by omega, hreached⟩

/-- Where a function reaches a line, the nearest such function is found. -/
theorem exists_enclosingFunction? {lines : List Line} {n : Nat} {g : FunctionSite}
    (hg : Reaches lines n g) : ∃ f, enclosingFunction? lines n = some f ∧ g.line ≤ f.line := by
  obtain ⟨j, hj, hon⟩ := hg.declared
  obtain ⟨-, -, -, hjn⟩ := exists_of_onLine? hon
  have hmem : j ∈ ((numberLines lines).take (n + 1)).reverse :=
    List.mem_reverse.mpr (mem_take_numberLines_iff.mpr ⟨hj, by have := hg.above; omega⟩)
  have hsome := onLine?_filter_iff.mpr ⟨hon, hg.reached⟩
  cases hfound : enclosingFunction? lines n with
  | none =>
    have hnone := List.findSome?_eq_none_iff.mp hfound j hmem
    rw [hsome] at hnone
    cases hnone
  | some f =>
    refine ⟨f, rfl, ?_⟩
    obtain ⟨before, k, after, hsplit, hf, hbefore⟩ := List.findSome?_eq_some_iff.mp hfound
    obtain ⟨-, -, -, hkn⟩ := exists_of_onLine? (onLine?_filter_iff.mp hf).1
    -- the lines above the one that is found come behind it
    have hdown : (((numberLines lines).take (n + 1)).reverse).Pairwise
        fun a b => b.number < a.number :=
      List.pairwise_reverse.mpr ((numberFrom_pairwise lines 0).sublist (List.take_sublist _ _))
    rw [hsplit] at hmem hdown
    rcases List.mem_append.mp hmem with hj | hj
    · rw [hbefore j hj] at hsome
      cases hsome
    · have hbehind := (List.pairwise_cons.mp (List.pairwise_append.mp hdown).2.1).1
      rcases List.mem_cons.mp hj with rfl | hj
      · omega
      · have := hbehind j hj
        omega

end LanguageService
