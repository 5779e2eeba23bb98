import LanguageService.Source.CodeLine
import LanguageService.Language.Shape

/-!
# Symbols of a document

The first declaration of a name on a code line makes it a symbol of the document, and every other
place on a code line where the name stands as a whole word is a reference to it.  There is one
flat scope.

* `Declaration.first? l`       the declaration on a line: function, else variable, else import
* `Declaration.onLine l`       the binding on a line and then the import
* `Symbol`, `SymbolTable`      symbols in the order of their declarations
* `Symbol.refer s m`           what a mention adds to a symbol
* `indexSymbols lines`         the symbols of a document
* `first?_eq_head?`            the first declaration of a line is the first of all on it
* `symbols_indexSymbols`       the symbols, with all that is recorded with them
-/

namespace LanguageService

inductive SymbolKind where
  | function
  | var
  | imported
deriving DecidableEq, Repr

/-- A declared name and where it stands on its line. -/
structure Declaration where
  name : String
  kind : SymbolKind
  span : Span
deriving DecidableEq, Repr

namespace Declaration

/-- the declaration whose name is group 1 of the first match of a shape -/
def ofShape? (kind : SymbolKind) (shape : Pattern) (l : Line) : Option Declaration :=
  (shape.first? l).map fun m => ⟨(m.group 1).text l, kind, m.group 1⟩

/-- a function declaration, else a variable declaration -/
def binding? (l : Line) : Option Declaration :=
  (ofShape? .function Shape.anyFunction l).or (ofShape? .var Shape.anyVariable l)

def imported? (l : Line) : Option Declaration :=
  ofShape? .imported Shape.anyImport l

def first? (l : Line) : Option Declaration :=
  (binding? l).or (imported? l)

def onLine (l : Line) : List Declaration :=
  (binding? l).toList ++ (imported? l).toList

theorem first?_eq_head? (l : Line) : first? l = (onLine l).head? := by
  unfold first? onLine
  cases binding? l with
  | some d => rfl
  | none => cases imported? l <;> rfl

end Declaration

/-- A name declared in a document: the line and range of its first declaration, the lines of its
references, one for each, and whether there was any. -/
structure Symbol where
  name : String
  kind : SymbolKind
  line : Nat
  nameRange : Range
  references : List Nat
  used : Bool
deriving DecidableEq, Repr

/-- The first declaration on a numbered line, as a symbol without references. -/
def Symbol.declaredOn? (l : NumberedLine) : Option Symbol :=
  (Declaration.first? l.text).map fun d =>
    ⟨d.name, d.kind, l.number, d.span.range l.number l.text, [], false⟩

/-- An identifier that stands as a whole word. -/
structure Mention where
  name : String
  line : Nat
  column : Nat
deriving DecidableEq, Repr

def mentions (code : List NumberedLine) : List Mention :=
  code.flatMap fun l => (Shape.identifier.all l.text).map fun m =>
    ⟨m.span.text l.text, l.number, column l.text m.span.start⟩

/-- Does a mention refer to a symbol?  Reserved words never do, and neither does the declared name
itself. -/
def Mention.refersTo (m : Mention) (s : Symbol) : Bool :=
  m.name == s.name && !isReserved m.name &&
    !(m.line == s.line && m.column == s.nameRange.start.character)

/-- A mention is recorded with the symbol that it refers to. -/
def Symbol.refer (s : Symbol) (m : Mention) : Symbol :=
  { s with
    references := if m.refersTo s then s.references ++ [m.line] else s.references
    used := s.used || m.refersTo s }

/-- the first symbol of each name -/
def firstOfEachName : List Symbol → List Symbol
  | [] => []
  | s :: rest => s :: (firstOfEachName rest).filter fun t => t.name != s.name

/-- The symbols of a document in the order of their declarations, no two of one name. -/
structure SymbolTable where
  symbols : List Symbol
deriving DecidableEq, Repr

namespace SymbolTable

def get? (t : SymbolTable) (name : String) : Option Symbol :=
  t.symbols.find? fun s => s.name == name

def contains (t : SymbolTable) (name : String) : Bool :=
  t.symbols.any fun s => s.name == name

def size (t : SymbolTable) : Nat :=
  t.symbols.length

/-- the symbols in the order of their names -/
def byName (t : SymbolTable) : List Symbol :=
  t.symbols.mergeSort fun a b => a.name ≤ b.name

def refer (t : SymbolTable) (m : Mention) : SymbolTable :=
  ⟨t.symbols.map fun s => s.refer m⟩

end SymbolTable

/-- The symbols that the code lines declare, and then with them what the code lines mention. -/
def indexSymbols (lines : List Line) : SymbolTable :=
  let code := codeLines lines
  (mentions code).foldl SymbolTable.refer ⟨firstOfEachName (code.filterMap Symbol.declaredOn?)⟩

theorem Symbol.foldl_refer (found : List Mention) (s : Symbol) : found.foldl Symbol.refer s =
    { s with
      references := s.references ++ (found.filter fun m => m.refersTo s).map Mention.line
      used := s.used || found.any fun m => m.refersTo s } := by
  induction found generalizing s with
  | nil => simp
  | cons m found ih =>
    -- what is recorded with a symbol does not change what refers to it
    have hrefers : (fun n : Mention => n.refersTo (s.refer m)) = fun n => n.refersTo s := rfl
    rw [List.foldl_cons, ih, hrefers]
    cases h : m.refersTo s with
    | true => simp [refer, h]
    | false => simp [refer, h]

theorem SymbolTable.symbols_foldl_refer (found : List Mention) (t : SymbolTable) :
    (found.foldl SymbolTable.refer t).symbols = t.symbols.map fun s => found.foldl Symbol.refer s := by
  induction found generalizing t with
  | nil => simp
  | cons m found ih =>
    rw [List.foldl_cons, ih, SymbolTable.refer, List.map_map]
    rfl

theorem firstOfEachName_sublist (l : List Symbol) : (firstOfEachName l).Sublist l := by
  induction l with
  | nil => exact List.Sublist.slnil
  | cons s rest ih => exact (List.filter_sublist.trans ih).cons_cons s

theorem firstOfEachName_distinct (l : List Symbol) :
    (firstOfEachName l).Pairwise fun a b => a.name ≠ b.name := by
  induction l with
  | nil => exact List.Pairwise.nil
  | cons s rest ih =>
    refine List.pairwise_cons.mpr ⟨?_, ih.sublist List.filter_sublist⟩
    intro t ht
    have := (List.mem_filter.mp ht).2
    exact fun h => by simp [h] at this

/-- A symbol has the lines of all mentions that refer to it, and is used if there is one. -/
theorem symbols_indexSymbols (lines : List Line) : (indexSymbols lines).symbols =
    (firstOfEachName ((codeLines lines).filterMap Symbol.declaredOn?)).map fun s =>
      { s with
        references := ((mentions (codeLines lines)).filter fun m => m.refersTo s).map Mention.line
        used := (mentions (codeLines lines)).any fun m => m.refersTo s } := by
  rw [indexSymbols, SymbolTable.symbols_foldl_refer]
  refine List.map_congr_left fun s hs => ?_
  obtain ⟨l, -, hl⟩ := List.mem_filterMap.mp ((firstOfEachName_sublist _).subset hs)
  obtain ⟨d, -, rfl⟩ := Option.map_eq_some_iff.mp hl
  rw [Symbol.foldl_refer, List.nil_append, Bool.false_or]

theorem used_iff_of_mem_indexSymbols {lines : List Line} {s : Symbol}
    (hs : s ∈ (indexSymbols lines).symbols) : s.used = true ↔ s.references ≠ [] := by
  rw [symbols_indexSymbols] at hs
  obtain ⟨t, -, rfl⟩ := List.mem_map.mp hs
  rw [List.any_eq_true, ne_eq, List.map_eq_nil_iff, List.filter_eq_nil_iff]
  simp

end LanguageService
