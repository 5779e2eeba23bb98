import Mathlib.Logic.Function.Basic
import LanguageService.Proofs.Source.SymbolTable
import LanguageService.Workspace.Store

/-!
# The store as a plain map

The store of open documents behaves as a map from addresses to texts with a version.

* `Operation`, `Store.perform`, `Store.run`   what is done to the store, and what it hands out
* `Edited t cs t'`       the changes `cs` of a batch lead from `t` to `t'`, one after the other
* `TextMap.Step`, `TextMap.Run`   the same operations on a plain map
* `Store.view`           the map that a store stands for
* `step_perform`, `run_view_iff`   one operation, and a run of operations, on both
* `Store.Ordered`        the documents stand in the order of their addresses
* `store_refines_map`    a fresh store does what the empty map does
-/

namespace LanguageService

/-! ## operations on the store -/

/-- What can be done to the store of open documents. -/
inductive Operation where
  | openDocument (uri : String) (text : Line) (version : Int)
  | update (uri : String) (changes : List Change) (version : Int)
  | close (uri : String)

/-- the address of the document that an operation is about -/
def Operation.uri : Operation → String
  | openDocument uri _ _ | update uri _ _ | close uri => uri

namespace Store

/-- The store after an operation, and the document that it hands out: the one that is stored now,
or the one that was taken out. -/
def perform (s : Store) : Operation → Store × Option Document
  | .openDocument uri text version =>
    let s := s.openDocument uri text version
    (s, s.get? uri)
  | .update uri changes version =>
    let s := s.update uri changes version
    (s, s.get? uri)
  | .close uri => (s.close uri, s.get? uri)

/-- several operations, one after the other -/
def run (s : Store) : List Operation → Store × List (Option Document)
  | [] => (s, [])
  | op :: ops =>
    let r := s.perform op
    let q := r.1.run ops
    (q.1, r.2 :: q.2)

end Store

/-! ## operations on a map -/

/-- `t'` is `t` with the characters from `a` up to `b` replaced by `s`. -/
def Replaced (t : Line) (a b : Nat) (s t' : Line) : Prop :=
  ∃ before removed after, t = before ++ (removed ++ after) ∧ a = before.length ∧
    b = before.length + removed.length ∧ t' = before ++ (s ++ after)

/-- A batch of changes.  The ends of each range are places in the text that the changes before it
have left. -/
inductive Edited : Line → List Change → Line → Prop where
  | done (t : Line) : Edited t [] t
  | whole {t s t' : Line} {cs : List Change} : Edited s cs t' → Edited t (⟨none, s⟩ :: cs) t'
  | ranged {t s t₁ t' : Line} {r : Range} {cs : List Change} :
      Replaced t (charOffset t r.start) (max (charOffset t r.start) (charOffset t r.stop)) s t₁ →
      Edited t₁ cs t' → Edited t (⟨some r, s⟩ :: cs) t'

/-- A text and a version under every address that is in use. -/
abbrev TextMap := String → Option (Line × Int)

namespace TextMap

/-- the map without any entry -/
def empty : TextMap := fun _ => none

/-- the text under an address, empty if there is none -/
def text (m : TextMap) (uri : String) : Line :=
  ((m uri).map Prod.fst).getD []

/-- One operation: the map before and after it, and the document of the entry that is set or
removed. -/
inductive Step (m : TextMap) : Operation → TextMap → Option Document → Prop where
  | openDocument (uri : String) (text : Line) (version : Int) :
      Step m (.openDocument uri text version) (Function.update m uri (some (text, version)))
        (some (.new uri text version))
  | update {uri : String} {changes : List Change} {t : Line} (version : Int) :
      Edited (m.text uri) changes t →
      Step m (.update uri changes version) (Function.update m uri (some (t, version)))
        (some (.new uri t version))
  | close (uri : String) :
      Step m (.close uri) (Function.update m uri none) ((m uri).map fun e => .new uri e.1 e.2)

/-- Several operations, one after the other. -/
inductive Run : TextMap → List Operation → TextMap → List (Option Document) → Prop where
  | done (m : TextMap) : Run m [] m []
  | next {m m₁ m' : TextMap} {op : Operation} {ops : List Operation} {d : Option Document}
      {ds : List (Option Document)} : Step m op m₁ d → Run m₁ ops m' ds →
      Run m (op :: ops) m' (d :: ds)

end TextMap

/-! ## batches of changes -/

theorem replaced_iff (t : Line) (a b : Nat) (s t' : Line) :
    Replaced t a b s t' ↔ a ≤ b ∧ b ≤ t.length ∧ t' = t.take a ++ s ++ t.drop b := by
  constructor
  · rintro ⟨before, removed, after, rfl, rfl, rfl, rfl⟩
    refine ⟨Nat.le_add_right _ _, ?_, ?_⟩
    · rw [List.length_append, List.length_append]
      omega
    · rw [List.take_left, List.drop_length_add_append, List.drop_left, List.append_assoc]
  · rintro ⟨hab, hb, rfl⟩
    refine ⟨t.take a, (t.take b).drop a, t.drop b, ?_, ?_, ?_, List.append_assoc _ _ _⟩
    · have hmid : t.take a ++ (t.take b).drop a = t.take b := by
        have := List.take_append_drop a (t.take b)
        rwa [List.take_take, Nat.min_eq_left hab] at this
      rw [← List.append_assoc, hmid, List.take_append_drop]
    · rw [List.length_take]
      omega
    · rw [List.length_drop, List.length_take, List.length_take]
      omega

theorem replaced_apply_iff (t : Line) (r : Range) (s t' : Line) :
    Replaced t (charOffset t r.start) (max (charOffset t r.start) (charOffset t r.stop)) s t' ↔
      t' = Change.apply ⟨some r, s⟩ t := by
  rw [replaced_iff]
  refine ⟨fun h => h.2.2, fun h => ⟨Nat.le_max_left _ _, ?_, h⟩⟩
  exact Nat.max_le.mpr ⟨charOffset_le t r.start, charOffset_le t r.stop⟩

theorem edited_iff (t : Line) (cs : List Change) (t' : Line) :
    Edited t cs t' ↔ t' = applyChanges t cs := by
  induction cs generalizing t with
  | nil =>
    constructor
    · rintro ⟨⟩
      rfl
    · intro h
      rw [h]
      exact .done t
  | cons c cs ih =>
    obtain ⟨_ | r, s⟩ := c
    · constructor
      · rintro (_ | h)
        exact (ih s).mp h
      · exact fun h => .whole ((ih s).mpr h)
    · constructor
      · rintro (_ | _ | ⟨hr, h⟩)
        obtain rfl := (replaced_apply_iff t r s _).mp hr
        exact (ih _).mp h
      · exact fun h => .ranged ((replaced_apply_iff t r s _).mpr rfl) ((ih _).mpr h)

theorem TextMap.Step.unique {m m₁ m₂ : TextMap} {op : Operation} {d₁ d₂ : Option Document}
    (h₁ : m.Step op m₁ d₁) (h₂ : m.Step op m₂ d₂) : m₁ = m₂ ∧ d₁ = d₂ := by
  cases h₁ with
  | openDocument uri text version =>
    cases h₂
    exact ⟨rfl, rfl⟩
  | update version he₁ =>
    cases h₂ with
    | update _ he₂ =>
      rw [(edited_iff _ _ _).mp he₁, (edited_iff _ _ _).mp he₂]
      exact ⟨rfl, rfl⟩
  | close uri =>
    cases h₂
    exact ⟨rfl, rfl⟩

/-! ## the map of a store -/

theorem Document.eq_new (d : Document) : d = .new d.uri d.text d.version := by
  obtain ⟨uri, version, text, _, rfl⟩ := d
  rfl

namespace Store

/-- text and version of every open document -/
def view (s : Store) : TextMap :=
  fun uri => (s.get? uri).map fun d => (d.text, d.version)

theorem uri_of_get? {s : Store} {uri : String} {d : Document} (h : s.get? uri = some d) :
    d.uri = uri :=
  beq_iff_eq.mp (List.find?_some (p := fun d : Document => d.uri == uri) h)

theorem get?_eq_view (s : Store) (uri : String) :
    s.get? uri = (s.view uri).map fun e => .new uri e.1 e.2 := by
  rw [view]
  cases h : s.get? uri with
  | none => rfl
  | some d =>
    have huri := uri_of_get? h
    rw [Option.map_some, Option.map_some, ← huri, ← d.eq_new]

theorem text_eq_view (s : Store) (uri : String) : s.text uri = s.view.text uri := by
  rw [text, TextMap.text, view]
  cases s.get? uri <;> rfl

theorem view_insert (s : Store) (d : Document) :
    (s.insert d).view = Function.update s.view d.uri (some (d.text, d.version)) := by
  funext uri
  by_cases h : uri = d.uri
  · rw [h, Function.update_self, view, get?_insert, Option.map_some]
  · rw [Function.update_of_ne h, view, view, get?_insert_ne s d (Ne.symm h)]

theorem view_erase (s : Store) (uri : String) :
    (s.erase uri).view = Function.update s.view uri none := by
  funext other
  by_cases h : other = uri
  · rw [h, Function.update_self, view, get?_erase, Option.map_none]
  · rw [Function.update_of_ne h, view, view, get?_erase_ne s (Ne.symm h)]

/-! ## steps and runs -/

/-- what is done to the store is done to its map -/
theorem step_perform (s : Store) (op : Operation) :
    s.view.Step op (s.perform op).1.view (s.perform op).2 := by
  cases op with
  | openDocument uri text version =>
    let d := Document.new uri text version
    show s.view.Step _ (s.insert d).view ((s.insert d).get? d.uri)
    rw [view_insert, get?_insert]
    exact .openDocument uri text version
  | update uri changes version =>
    let d := Document.new uri (applyChanges (s.text uri) changes) version
    show s.view.Step _ (s.insert d).view ((s.insert d).get? d.uri)
    rw [view_insert, get?_insert]
    refine .update version ((edited_iff _ _ _).mpr ?_)
    rw [← text_eq_view]
    rfl
  | close uri =>
    show s.view.Step _ (s.erase uri).view (s.get? uri)
    rw [view_erase, get?_eq_view]
    exact .close uri

theorem run_view_iff (ops : List Operation) (s : Store) (m : TextMap)
    (ds : List (Option Document)) :
    s.view.Run ops m ds ↔ m = (s.run ops).1.view ∧ ds = (s.run ops).2 := by
  induction ops generalizing s ds with
  | nil =>
    constructor
    · rintro ⟨⟩
      exact ⟨rfl, rfl⟩
    · rintro ⟨rfl, rfl⟩
      exact .done s.view
  | cons op ops ih =>
    constructor
    · rintro (_ | ⟨hstep, hrun⟩)
      obtain ⟨rfl, rfl⟩ := hstep.unique (step_perform s op)
      obtain ⟨rfl, rfl⟩ := (ih _ _).mp hrun
      exact ⟨rfl, rfl⟩
    · rintro ⟨rfl, rfl⟩
      exact .next (step_perform s op) ((ih _ _).mpr ⟨rfl, rfl⟩)

theorem get?_perform_ne (s : Store) (op : Operation) {uri : String} (h : uri ≠ op.uri) :
    (s.perform op).1.get? uri = s.get? uri := by
  cases op with
  | openDocument u text version => exact get?_insert_ne s _ (Ne.symm h)
  | update u changes version => exact get?_insert_ne s _ (Ne.symm h)
  | close u => exact get?_erase_ne s (Ne.symm h)

/-! ## the order of the documents -/

/-- The documents stand in the order of their addresses, no two of one address. -/
def Ordered (s : Store) : Prop :=
  s.documents.Pairwise fun d e => d.uri < e.uri

theorem mem_insertDocument {d e : Document} {ds : List Document} (h : e ∈ insertDocument d ds) :
    e = d ∨ e ∈ ds := by
  induction ds with
  | nil => exact Or.inl (List.mem_singleton.mp h)
  | cons f ds ih =>
    unfold insertDocument at h
    split at h
    · exact List.mem_cons.mp h
    · split at h
      · rcases List.mem_cons.mp h with rfl | h
        · exact Or.inr List.mem_cons_self
        · exact (ih h).imp_right (List.mem_cons_of_mem _)
      · exact (List.mem_cons.mp h).imp_right (List.mem_cons_of_mem _)

theorem insertDocument_ordered (d : Document) {ds : List Document}
    (h : ds.Pairwise fun d e => d.uri < e.uri) :
    (insertDocument d ds).Pairwise fun d e => d.uri < e.uri := by
  induction ds with
  | nil => exact List.pairwise_singleton _ _
  | cons e ds ih =>
    obtain ⟨he, hds⟩ := List.pairwise_cons.mp h
    unfold insertDocument
    split
    · next hlt =>
      refine List.pairwise_cons.mpr ⟨fun f hf => ?_, h⟩
      rcases List.mem_cons.mp hf with rfl | hf
      · exact hlt
      · exact String.lt_trans hlt (he f hf)
    · split
      · next hlt =>
        refine List.pairwise_cons.mpr ⟨fun f hf => ?_, ih hds⟩
        rcases mem_insertDocument hf with rfl | hf
        · exact hlt
        · exact he f hf
      · next h1 h2 =>
        have heq : d.uri = e.uri :=
          String.le_antisymm (String.not_lt.mp h2) (String.not_lt.mp h1)
        exact List.pairwise_cons.mpr ⟨fun f hf => heq ▸ he f hf, hds⟩

theorem ordered_perform {s : Store} (h : s.Ordered) (op : Operation) : (s.perform op).1.Ordered := by
  cases op with
  | openDocument uri text version => exact insertDocument_ordered _ h
  | update uri changes version => exact insertDocument_ordered _ h
  | close uri => exact h.sublist List.filter_sublist

theorem ordered_run (ops : List Operation) {s : Store} (h : s.Ordered) : (s.run ops).1.Ordered := by
  induction ops generalizing s with
  | nil => exact h
  | cons op ops ih => exact ih (ordered_perform h op)

theorem mem_documents_iff {s : Store} (h : s.Ordered) (d : Document) :
    d ∈ s.documents ↔ s.get? d.uri = some d := by
  refine ⟨fun hd => ?_, List.mem_of_find?_eq_some⟩
  refine find?_key_of_mem (h.imp fun {d e} hlt heq => ?_) hd
  rw [heq] at hlt
  exact String.lt_irrefl _ hlt

end Store

/-- **The store is a map.**  After any operations on a fresh store its documents, and all documents
that it has handed out, are those of the same operations on the empty map.  Each is stored under its
own address with the analysis of its own text, no operation touches a document of another address,
and the open documents are listed once each in the order of their addresses. -/
theorem store_refines_map (ops : List Operation) :
    let s := (Store.empty.run ops).1
    (∀ m ds, TextMap.empty.Run ops m ds ↔ m = s.view ∧ ds = (Store.empty.run ops).2) ∧
      (∀ uri d, s.get? uri = some d → d.uri = uri ∧ d.analysis = Analysis.of d.text) ∧
      (∀ op uri, uri ≠ op.uri → (s.perform op).1.get? uri = s.get? uri) ∧
      s.documents.Pairwise (fun d e => d.uri < e.uri) ∧
      (∀ d, d ∈ s.documents ↔ s.get? d.uri = some d) := by
  intro s
  have hordered : s.Ordered := Store.ordered_run ops List.Pairwise.nil
  exact ⟨Store.run_view_iff ops Store.empty,
    fun uri d h => ⟨Store.uri_of_get? h, d.analysis_eq⟩,
    fun op uri h => Store.get?_perform_ne s op h, hordered, Store.mem_documents_iff hordered⟩

end LanguageService
