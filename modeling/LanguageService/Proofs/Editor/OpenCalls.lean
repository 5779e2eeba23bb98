import Mathlib.Data.List.Basic
import LanguageService.Editor.Help
import LanguageService.Proofs.Text.Cuts

/-!
# The call at the cursor

The parenthesis that is open at the cursor is found by a scan backwards with a counter of closing
parentheses.  It is the top of the stack that a scan forwards keeps: a closing parenthesis that no
opening one belongs to pops nothing there, and here it never hides an open call.

* `openParens l`           the parentheses that are open behind a text, the innermost first
* `openParen?_reverse`     the scan backwards finds an entry of this stack
* `openParenChecked?`      the scan backwards with checked subtractions
* `LongestEnd`             the longest run of a class at the end of a text
* `signatureAt?_spec`      the help on a call, read off the stack
-/

namespace LanguageService

/-! ## the stack -/

/-- the stack behind one more character, which stands at place `k` -/
def pushParen (opened : List Nat) (k : Nat) (c : Char) : List Nat :=
  if c = '(' then k :: opened
  else if c = ')' then opened.tail
  else opened

/-- the places of the parentheses that are open behind a text, the innermost first -/
def openParens (l : Line) : List Nat :=
  l.zipIdx.foldl (fun opened c => pushParen opened c.2 c.1) []

theorem openParens_concat (l : Line) (c : Char) :
    openParens (l ++ [c]) = pushParen (openParens l) l.length c := by
  rw [openParens, List.zipIdx_append, List.foldl_append, ← openParens, Nat.zero_add]
  rfl

theorem lt_length_of_mem_openParens {l : Line} {k : Nat} (h : k ∈ openParens l) : k < l.length := by
  induction l using List.reverseRecOn with
  | nil => exact absurd h List.not_mem_nil
  | append_singleton l c ih =>
    rw [openParens_concat, pushParen] at h
    rw [List.length_append, List.length_singleton]
    split at h
    · rcases List.mem_cons.mp h with rfl | h
      · exact Nat.lt_succ_self _
      · exact Nat.lt_succ_of_lt (ih h)
    · split at h
      · exact Nat.lt_succ_of_lt (ih (List.mem_of_mem_tail h))
      · exact Nat.lt_succ_of_lt (ih h)

/-- The scan backwards finds the entry of the stack below as many others as the counter says. -/
theorem openParen?_reverse (x : Line) (depth : Nat) (args : Line) :
    openParen? depth args x.reverse =
      (openParens x)[depth]?.map fun k => ((x.take k).reverse, x.drop (k + 1) ++ args) := by
  induction x using List.reverseRecOn generalizing depth args with
  | nil => rfl
  | append_singleton x c ih =>
    -- an entry of the shorter text, with the character behind it
    have hlonger : ∀ d : Nat, (openParens x)[d]?.map
        (fun k => ((x.take k).reverse, x.drop (k + 1) ++ c :: args)) =
        (openParens x)[d]?.map fun k =>
          (((x ++ [c]).take k).reverse, (x ++ [c]).drop (k + 1) ++ args) := by
      intro d
      refine Option.map_congr fun k hk => ?_
      have hlt := lt_length_of_mem_openParens (List.mem_of_getElem? hk)
      rw [List.take_append_of_le_length (Nat.le_of_lt hlt), List.drop_append_of_le_length hlt,
        List.append_assoc, List.singleton_append]
    rw [List.reverse_append, List.reverse_singleton, List.singleton_append, openParens_concat,
      pushParen]
    unfold openParen?
    by_cases hclose : c = ')'
    · rw [if_pos hclose, ih, hlonger, if_neg (by rw [hclose]; decide), if_pos hclose,
        List.getElem?_tail]
    · rw [if_neg hclose, if_neg hclose]
      by_cases hopen : c = '('
      · rw [if_pos hopen, if_pos hopen]
        cases depth with
        | zero =>
          have hdrop : (x ++ [c]).drop (x.length + 1) = [] :=
            List.drop_eq_nil_of_le (Nat.le_of_eq List.length_append)
          rw [List.getElem?_cons_zero, Option.map_some, List.take_left, hdrop, List.nil_append]
        | succ d => rw [List.getElem?_cons_succ, ← hlonger, ← ih]
      · rw [if_neg hopen, if_neg hopen, ih, hlonger]

/-- `openParen?`, failing if the counter would fall below zero -/
def openParenChecked? (depth : Nat) (args : Line) : Line → Option (Option (Line × Line))
  | [] => some none
  | c :: rest =>
    if c = ')' then openParenChecked? (depth + 1) (c :: args) rest
    else if c = '(' then
      if depth = 0 then some (some (rest, args))
      else (difference? depth 1).bind fun d => openParenChecked? d (c :: args) rest
    else openParenChecked? depth (c :: args) rest

theorem openParenChecked?_eq (depth : Nat) (args l : Line) :
    openParenChecked? depth args l = some (openParen? depth args l) := by
  induction l generalizing depth args with
  | nil => rfl
  | cons c rest ih =>
    unfold openParenChecked? openParen?
    split
    · exact ih _ _
    · split
      · cases depth with
        | zero => rfl
        | succ d =>
          rw [if_neg (Nat.succ_ne_zero d), difference?_of_le (Nat.succ_pos d), Option.bind_some, ih]
          rfl
      · exact ih _ _

/-! ## the called name -/

/-- the characters of a class with which a text ends -/
def endRun (p : Char → Bool) (l : Line) : Line :=
  (l.reverse.takeWhile p).reverse

/-- The text ends with the characters `w` of a class, and with no more of them. -/
structure LongestEnd (p : Char → Bool) (l w : Line) : Prop where
  ends : w <:+ l
  class_of_mem : ∀ c ∈ w, p c = true
  longest : ∀ v, v <:+ l → (∀ c ∈ v, p c = true) → v.length ≤ w.length

theorem longestEnd_endRun (p : Char → Bool) (l : Line) : LongestEnd p l (endRun p l) where
  ends := by
    rw [endRun, ← List.reverse_prefix, List.reverse_reverse]
    exact List.takeWhile_prefix p
  class_of_mem := by
    intro c hc
    exact List.all_eq_true.mp List.all_takeWhile c (List.mem_reverse.mp hc)
  longest := by
    intro v hl hv
    obtain ⟨u, rfl⟩ := hl
    have hrun : (v.reverse ++ u.reverse).takeWhile p = v.reverse ++ u.reverse.takeWhile p :=
      List.takeWhile_append_of_pos fun c hc => hv c (List.mem_reverse.mp hc)
    rw [endRun, List.reverse_append, hrun, List.length_reverse, List.length_append,
      List.length_reverse]
    exact Nat.le_add_right _ _

/-- the call that is open at the end of a text is that of the innermost open parenthesis -/
theorem openCall?_eq (x : Line) : openCall? x = (openParens x).head?.bind fun k =>
    if endRun isNameChar (trimEnd (x.take k)) = [] then none
    else some ⟨String.ofList (endRun isNameChar (trimEnd (x.take k))), x.drop (k + 1)⟩ := by
  rw [openCall?, openParen?_reverse, ← List.head?_eq_getElem?]
  cases (openParens x).head? with
  | none => rfl
  | some k =>
    simp only [Option.map_some, Option.bind_some, List.append_nil, endRun, trimEnd,
      List.reverse_reverse, List.isEmpty_iff]

/-! ## the help on a call -/

/-- the text before the cursor, if its line exists -/
def textBefore? (lines : List Line) (p : Position) : Option Line :=
  lines[p.line]?.map fun l => l.take (place l p.character)

theorem signatureAt?_eq (lines : List Line) (p : Position) :
    signatureAt? lines p = (textBefore? lines p).bind fun x => (openCall? x).bind fun c =>
      (signature? c.name).map fun s => ⟨s, c.args.count ','⟩ := by
  unfold signatureAt? textBefore?
  cases lines[p.line]? <;> rfl

/-- **The help on a call.**  There is none where no parenthesis is open before the cursor.  Else it
is the signature of the name before the innermost open one, white space between them left out, and
the argument is the number of commas behind it; there is none without a name that has a signature.
The counter of the scan backwards never falls below zero. -/
theorem signatureAt?_spec (lines : List Line) (p : Position) :
    (textBefore? lines p = none → signatureAt? lines p = none) ∧
    ∀ x, textBefore? lines p = some x →
      (openParens x = [] → signatureAt? lines p = none) ∧
      (∀ k outer, openParens x = k :: outer → ∃ nm,
        LongestEnd isNameChar (trimEnd (x.take k)) nm ∧
        signatureAt? lines p =
          if nm = [] then none
          else (signature? (String.ofList nm)).map fun s => ⟨s, (x.drop (k + 1)).count ','⟩) ∧
      openParenChecked? 0 [] x.reverse = some (openParen? 0 [] x.reverse) := by
  rw [signatureAt?_eq]
  refine ⟨fun h => by rw [h, Option.bind_none], fun x hx => ?_⟩
  rw [hx, Option.bind_some, openCall?_eq]
  refine ⟨fun h => by rw [h]; rfl, fun k outer h => ?_, openParenChecked?_eq 0 [] x.reverse⟩
  refine ⟨_, longestEnd_endRun isNameChar (trimEnd (x.take k)), ?_⟩
  rw [h, List.head?_cons, Option.bind_some]
  split
  · rw [Option.bind_none]
  · rw [Option.bind_some]

end LanguageService
