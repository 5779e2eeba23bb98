import LanguageService.Source.Block
import LanguageService.Source.Symbol
import LanguageService.Source.Word

/-!
# Calls between functions

Functions are known by their canonical declaration, `let name = func`.  A call belongs to the
nearest function declared at or above its line whose body reaches that line; a call in no body
belongs to the document itself.

* `FunctionSite`              a function declaration, its line and the text of the line
* `functionNamed? lines name` the first declaration of a function
* `enclosingFunction?`        the function to whose body a line belongs
* `Caller`, `incomingCalls`   who calls a function, and where
* `outgoingCalls`             which functions of the document a function calls, and where
* `groupCalls_distinct`       every caller, and every callee, is listed once
-/

namespace LanguageService

structure FunctionSite where
  name : String
  line : Nat
  text : Line
  nameRange : Range
deriving DecidableEq, Repr

/-- the function declared on a line by a shape whose group 1 is the name -/
def FunctionSite.onLine? (shape : Pattern) (l : NumberedLine) : Option FunctionSite :=
  (shape.first? l.text).map fun m =>
    ⟨(m.group 1).text l.text, l.number, l.text, (m.group 1).range l.number l.text⟩

/-- the first declaration of a function of the given name -/
def functionNamed? (lines : List Line) (name : String) : Option FunctionSite :=
  (numberLines lines).findSome? (FunctionSite.onLine? (Shape.function name))

/-- the function whose name stands under the cursor -/
def functionAt? (lines : List Line) (p : Position) : Option FunctionSite :=
  (wordAt lines p).bind fun w => functionNamed? lines w.word

/-- The nearest function declared on line `n` or above whose body reaches line `n`. -/
def enclosingFunction? (lines : List Line) (n : Nat) : Option FunctionSite :=
  ((numberLines lines).take (n + 1)).reverse.findSome? fun l =>
    (FunctionSite.onLine? Shape.anyFunction l).filter fun f => n ≤ blockEnd lines f.line

/-- Where a call comes from. -/
inductive Caller where
  | document
  | function (f : FunctionSite)
deriving DecidableEq, Repr

/-- the name under which calls outside every function are listed -/
def documentCaller : String := "<global>"

def Caller.name : Caller → String
  | document => documentCaller
  | function f => f.name

/-- the range of the item that stands for a caller -/
def Caller.range (lines : List Line) : Caller → Range
  | document => Range.ofLines lines
  | function f => Range.ofLine f.line f.text

/-- the range of its name; the document has none, and is named at its start -/
def Caller.nameRange : Caller → Range
  | document => ⟨⟨0, 0⟩, ⟨0, 0⟩⟩
  | function f => f.nameRange

def Caller.of (lines : List Line) (n : Nat) : Caller :=
  match enclosingFunction? lines n with
  | some f => .function f
  | none => .document

/-- The places of several calls that share a caller, or share a callee. -/
structure CallGroup (α : Type) where
  party : α
  ranges : List Range
deriving DecidableEq, Repr

/-- Adds a call to the group of its party's name, or begins a new group at the end. -/
def addCall {α : Type} (name : α → String) (groups : List (CallGroup α)) (call : α × Range) :
    List (CallGroup α) :=
  match groups with
  | [] => [⟨call.1, [call.2]⟩]
  | g :: rest =>
    if name g.party = name call.1 then { g with ranges := g.ranges ++ [call.2] } :: rest
    else g :: addCall name rest call

/-- calls grouped by the name of their party, in the order of the first call of each -/
def groupCalls {α : Type} (name : α → String) (calls : List (α × Range)) : List (CallGroup α) :=
  calls.foldl (addCall name) []

/-- The calls of a name on code lines; the range is that of the name. -/
def callSites (lines : List Line) (name : String) : List Range :=
  (codeLines lines).flatMap fun l => ((Shape.call name).all l.text).map fun m =>
    Span.range ⟨m.span.start, m.span.start + name.length⟩ l.number l.text

def incomingCalls (lines : List Line) (name : String) : List (CallGroup Caller) :=
  groupCalls Caller.name ((callSites lines name).map fun r => (Caller.of lines r.start.line, r))

/-- The calls on a line that lead to a function of the document; reserved words never do. -/
def calleesOnLine (lines : List Line) (l : NumberedLine) : List (FunctionSite × Range) :=
  (Shape.anyCall.all l.text).filterMap fun m =>
    let name := (m.group 1).text l.text
    if isReserved name then none
    else (functionNamed? lines name).map fun f => (f, (m.group 1).range l.number l.text)

def outgoingCalls (lines : List Line) (name : String) : List (CallGroup FunctionSite) :=
  match functionNamed? lines name with
  | none => []
  | some f =>
    let stop := blockEnd lines f.line
    let body := (codeLines lines).filter fun l => f.line ≤ l.number && l.number ≤ stop
    groupCalls FunctionSite.name (body.flatMap (calleesOnLine lines))

theorem mem_addCall {α : Type} {name : α → String} {groups : List (CallGroup α)}
    {call : α × Range} {g : CallGroup α} (hg : g ∈ addCall name groups call) :
    g ∈ groups ∨ g = ⟨call.1, [call.2]⟩ ∨ ∃ h ∈ groups, name h.party = name call.1 ∧
      g = { h with ranges := h.ranges ++ [call.2] } := by
  induction groups with
  | nil => exact Or.inr (Or.inl (List.mem_singleton.mp hg))
  | cons h rest ih =>
    unfold addCall at hg
    split at hg
    · next heq =>
      rcases List.mem_cons.mp hg with hg | hg
      · exact Or.inr (Or.inr ⟨h, List.mem_cons_self, heq, hg⟩)
      · exact Or.inl (List.mem_cons_of_mem h hg)
    · rcases List.mem_cons.mp hg with rfl | hg
      · exact Or.inl List.mem_cons_self
      · rcases ih hg with hmem | hnew | ⟨k, hk, heq, hadded⟩
        · exact Or.inl (List.mem_cons_of_mem h hmem)
        · exact Or.inr (Or.inl hnew)
        · exact Or.inr (Or.inr ⟨k, List.mem_cons_of_mem h hk, heq, hadded⟩)

theorem addCall_distinct {α : Type} (name : α → String) (groups : List (CallGroup α))
    (call : α × Range) (hd : groups.Pairwise fun g h => name g.party ≠ name h.party) :
    (addCall name groups call).Pairwise fun g h => name g.party ≠ name h.party := by
  induction groups with
  | nil => exact List.pairwise_singleton _ _
  | cons g rest ih =>
    obtain ⟨hg, hrest⟩ := List.pairwise_cons.mp hd
    unfold addCall
    split
    · exact List.pairwise_cons.mpr ⟨hg, hrest⟩
    · next hne =>
      refine List.pairwise_cons.mpr ⟨fun h hh => ?_, ih hrest⟩
      rcases mem_addCall hh with hmem | rfl | ⟨k, hk, -, rfl⟩
      · exact hg h hmem
      · exact hne
      · exact hg k hk

/-- no name is listed twice -/
theorem groupCalls_distinct {α : Type} (name : α → String) (calls : List (α × Range)) :
    (groupCalls name calls).Pairwise fun g h => name g.party ≠ name h.party := by
  have key : ∀ groups : List (CallGroup α),
      (groups.Pairwise fun g h => name g.party ≠ name h.party) →
        (calls.foldl (addCall name) groups).Pairwise fun g h => name g.party ≠ name h.party := by
    induction calls with
    | nil => exact fun _ hd => hd
    | cons call rest ih => exact fun groups hd => ih _ (addCall_distinct name groups call hd)
  exact key [] List.Pairwise.nil

end LanguageService
