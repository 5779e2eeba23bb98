import LanguageService.Editor.Help
import LanguageService.Editor.InlayHint
import LanguageService.Proofs.Editor.ByteOffsets

/-!
# Help and hints by byte offsets

The call that is open at the cursor, the value behind a declaration and the arguments of a call are
found by scans over byte offsets.  Here these offsets are checked wherever a line is cut, and no
check ever fails.

* `openCallInBytes?_eq`, `signatureInBytes?_eq`   the call that is open at the cursor
* `typeHintInBytes?_eq`, `beginsFunctionInBytes?_eq`   the value of a variable
* `argumentHintsInBytes?_eq`, `callHintsInBytes?_eq`   the arguments of a call, offset by offset
-/

namespace LanguageService

/-! ## the open call -/

/-- The byte offset of the parenthesis that is open at the end of a text, `depth` closing ones
behind it; the characters of the text are listed from its end. -/
def openIndex? (depth : Nat) : List (Nat × Char) → Option Nat
  | [] => none
  | (i, c) :: rest =>
    if c = ')' then openIndex? (depth + 1) rest
    else if c = '(' then
      match depth with
      | 0 => some i
      | d + 1 => openIndex? d rest
    else openIndex? depth rest

/-- `openCall?`, computed with byte offsets -/
def openCallInBytes? (l : Line) : Option (Option OpenCall) :=
  match openIndex? 0 (charIndices l).reverse with
  | none => some none
  | some i =>
    (cutAt? l i).bind fun parts =>
      let before := trimEnd parts.1
      match runIndex? isNameChar before with
      | none => some none
      | some j =>
        (cutAt? before j).bind fun name => (cutAt? l (i + 1)).map fun args =>
          some ⟨String.ofList name.2, args.2⟩

/-- `signatureAt?`, computed with byte offsets -/
def signatureInBytes? (lines : List Line) (p : Position) : Option (Option SignatureHelp) :=
  match lines[p.line]? with
  | none => some none
  | some l =>
    (cutAt? l (byteIndex l p.character)).bind fun parts =>
      (openCallInBytes? parts.1).map fun call =>
        call.bind fun c => (signature? c.name).map fun s => ⟨s, c.args.count ','⟩

/-- Both scans find the same parenthesis. -/
theorem openIndex?_eq (depth : Nat) (args r : Line) :
    openIndex? depth (charIndices r.reverse).reverse =
      (openParen? depth args r).map fun parts => byteWidth parts.1.reverse := by
  induction r generalizing depth args with
  | nil => rfl
  | cons c r ih =>
    rw [List.reverse_cons, charIndices_concat, List.reverse_append, List.reverse_singleton,
      List.singleton_append]
    unfold openIndex? openParen?
    split
    · exact ih _ _
    · split
      · cases depth with
        | zero => rfl
        | succ d => exact ih _ _
      · exact ih _ _

/-- what is read backwards up to the open parenthesis is the text behind it -/
theorem eq_of_openParen? {depth : Nat} {args r before after : Line}
    (h : openParen? depth args r = some (before, after)) :
    r.reverse ++ args = before.reverse ++ '(' :: after := by
  induction r generalizing depth args with
  | nil => cases h
  | cons c r ih =>
    rw [List.reverse_cons, List.append_assoc, List.singleton_append]
    unfold openParen? at h
    split at h
    · exact ih h
    · split at h
      · next hc =>
        cases depth with
        | zero =>
          obtain ⟨rfl, rfl⟩ := Prod.mk.inj (Option.some.inj h)
          rw [hc]
        | succ d => exact ih h
      · exact ih h

/-- No cut around an open call is impossible, and the call is the same. -/
theorem openCallInBytes?_eq (l : Line) : openCallInBytes? l = some (openCall? l) := by
  have hindex := openIndex?_eq 0 [] l.reverse
  rw [List.reverse_reverse] at hindex
  rw [openCallInBytes?, openCall?, hindex]
  cases hopen : openParen? 0 [] l.reverse with
  | none => rfl
  | some parts =>
    obtain ⟨before, after⟩ := parts
    have hline := eq_of_openParen? hopen
    rw [List.reverse_reverse, List.append_nil] at hline
    subst hline
    have hcut := cutAt?_append before.reverse ('(' :: after)
    have hargs : cutAt? (before.reverse ++ '(' :: after) (byteWidth before.reverse + 1) =
        some (before.reverse ++ ['('], after) := by
      have h := cutAt?_append (before.reverse ++ ['(']) after
      rwa [byteWidth_append, List.append_assoc] at h
    -- the called name is the run at the end of the text before the parenthesis
    have htrim : trimEnd before.reverse = (before.dropWhile isBlank).reverse := by
      rw [trimEnd, List.reverse_reverse]
    have hname := runIndex?_eq isNameChar (before.dropWhile isBlank).reverse
    have hsplit := append_run isNameChar (before.dropWhile isBlank).reverse
    rw [List.reverse_reverse] at hname hsplit
    simp only [Option.map_some, hcut, Option.bind_some, htrim, hname, hargs, List.isEmpty_reverse]
    by_cases hempty : ((before.dropWhile isBlank).takeWhile isNameChar).isEmpty = true
    · rw [if_pos hempty, if_pos hempty]
    · rw [if_neg hempty, if_neg hempty, ← hsplit]
      simp only
      rw [cutAt?_append]
      rfl

theorem signatureInBytes?_eq (lines : List Line) (p : Position) :
    signatureInBytes? lines p = some (signatureAt? lines p) := by
  unfold signatureInBytes? signatureAt?
  cases lines[p.line]? with
  | none => rfl
  | some l =>
    simp only
    rw [byteIndex, cutAt?_byteOffset, Option.bind_some, openCallInBytes?_eq]
    rfl

/-! ## the value of a variable -/

/-- `beginsFunction`, computed with byte offsets -/
def beginsFunctionInBytes? (value : Line) : Option Bool :=
  if functionKeyword.toList.isPrefixOf value then
    (cutAt? value (byteWidth functionKeyword.toList)).map fun parts =>
      !parts.2.head?.any isNameChar
  else some false

/-- `typeHint?`, computed with byte offsets -/
def typeHintInBytes? (l : NumberedLine) : Option (Option InlayHint) :=
  match Shape.anyVariable.first? l.text with
  | none => some none
  | some m =>
    (cutAt? l.text (byteOffset l.text m.span.stop)).bind fun parts =>
      match literalType? parts.2 with
      | none => some none
      | some ty =>
        (utf16Column? l.text (byteOffset l.text (m.group 1).stop)).map fun col =>
          some ⟨⟨l.number, col⟩, ": " ++ ty, .type⟩

theorem beginsFunctionInBytes?_eq (value : Line) :
    beginsFunctionInBytes? value = some (beginsFunction value) := by
  rw [beginsFunctionInBytes?, beginsFunction]
  by_cases hprefix : functionKeyword.toList.isPrefixOf value = true
  · obtain ⟨rest, rfl⟩ := List.isPrefixOf_iff_prefix.mp hprefix
    rw [if_pos hprefix, cutAt?_append, hprefix, List.drop_left]
    rfl
  · rw [if_neg hprefix, Bool.eq_false_iff.mpr hprefix]
    rfl

theorem typeHintInBytes?_eq (l : NumberedLine) : typeHintInBytes? l = some (typeHint? l) := by
  unfold typeHintInBytes? typeHint?
  cases Shape.anyVariable.first? l.text with
  | none => rfl
  | some m =>
    simp only
    rw [cutAt?_byteOffset, utf16Column?_byteOffset, Option.bind_some]
    cases literalType? (l.text.drop m.span.stop) with
    | none => rfl
    | some ty => rfl

/-! ## arguments -/

/-- the hint at an argument -/
def argumentHint (l : NumberedLine) (col : Nat) (param : String) : InlayHint :=
  ⟨⟨l.number, col⟩, param ++ ":", .parameter⟩

/-- The hints at the arguments that begin at a byte offset, from one to the next. -/
def argumentHintsInBytes? (l : NumberedLine) (offset : Nat) :
    List Line → List String → Option (List InlayHint)
  | arg :: args, param :: params =>
    (difference? (byteWidth arg) (byteWidth (trimStart arg))).bind fun leading =>
      (if isBlankLine arg then some []
        else (utf16Column? l.text (offset + leading)).map fun col =>
          [argumentHint l col param]).bind fun here =>
        (argumentHintsInBytes? l (offset + byteWidth arg + 1) args params).map fun rest =>
          here ++ rest
  | _, _ => some []

/-- `callHints`, computed with byte offsets -/
def callHintsInBytes? (l : NumberedLine) (m : Match) : Option (List InlayHint) :=
  let name := (m.group 1).text l.text
  if hintedBuiltins.contains name then
    match signature? name with
    | none => some []
    | some s =>
      let start := byteOffset l.text m.span.stop
      (cutAt? l.text start).bind fun parts =>
        let stop := (((charIndicesFrom start parts.2).find? fun k => !(k.2 != ')')).map
          Prod.fst).getD (byteWidth l.text)
        (slice? l.text start stop).bind fun args =>
          argumentHintsInBytes? l start (splitAtCommas args) s.parameters
  else some []

theorem splitAtCommas_eq_splitOn (l : Line) : splitAtCommas l = l.splitOn ',' := by
  induction l with
  | nil => rfl
  | cons c l ih =>
    obtain ⟨x, ls, hsplit⟩ := List.exists_cons_of_ne_nil (List.splitOn_ne_nil ',' l)
    rw [splitAtCommas, List.splitOn_cons_eq_if_modifyHead, ih, hsplit]
    by_cases hc : c = ','
    · rw [if_pos hc, if_pos (beq_iff_eq.mpr hc)]
    · rw [if_neg hc, if_neg (mt beq_iff_eq.mp hc)]
      rfl

theorem intercalate_splitAtCommas (l : Line) : [','].intercalate (splitAtCommas l) = l := by
  rw [splitAtCommas_eq_splitOn, List.intercalate_splitOn]

theorem exists_behind_piece {l pre post x : Line} {pieces : List Line}
    (hl : l = pre ++ ([','].intercalate (x :: pieces) ++ post)) :
    ∃ rest, l = pre ++ (x ++ rest) ∧
      (pieces ≠ [] → l = (pre ++ x ++ [',']) ++ ([','].intercalate pieces ++ post)) := by
  cases pieces with
  | nil =>
    refine ⟨post, ?_, fun h => absurd rfl h⟩
    rw [hl, List.intercalate_singleton]
  | cons next pieces =>
    refine ⟨',' :: ([','].intercalate (next :: pieces) ++ post), ?_, fun _ => ?_⟩
    · rw [hl, List.intercalate_cons_cons, List.append_assoc, List.append_assoc]
      rfl
    · rw [hl, List.intercalate_cons_cons]
      simp only [List.append_assoc]

/-- Every argument begins at a place to cut at. -/
theorem argumentHintsInBytes?_eq {l : NumberedLine} {pre post : Line} {args : List Line}
    (hl : l.text = pre ++ ([','].intercalate args ++ post)) (params : List String) :
    argumentHintsInBytes? l (byteWidth pre) args params =
      some ((argumentPlaces pre.length args params).map fun a =>
        argumentHint l (column l.text a.1) a.2) := by
  induction args generalizing pre params with
  | nil => rfl
  | cons arg args ih =>
    cases params with
    | nil => rfl
    | cons param params =>
      obtain ⟨rest, hrest, hnext⟩ := exists_behind_piece hl
      have hindent : indentWidth arg ≤ arg.length := (List.takeWhile_sublist isBlank).length_le
      have hcolumn : utf16Column? l.text (byteWidth pre + byteOffset arg (indentWidth arg)) =
          some (column l.text (pre.length + indentWidth arg)) := by
        rw [hrest, ← byteOffset_between pre arg rest hindent, utf16Column?_byteOffset]
      have htail : argumentHintsInBytes? l (byteWidth pre + byteWidth arg + 1) args params =
          some ((argumentPlaces (pre.length + arg.length + 1) args params).map fun a =>
            argumentHint l (column l.text a.1) a.2) := by
        by_cases hargs : args = []
        · rw [hargs]
          rfl
        · have h := ih (hnext hargs) params
          rw [byteWidth_append, byteWidth_append, List.length_append, List.length_append] at h
          exact h
      rw [argumentHintsInBytes?, difference?_trimStart, Option.bind_some, hcolumn, htail,
        argumentPlaces]
      split
      · rfl
      · rfl

theorem callHintsInBytes?_eq {l : NumberedLine} {m : Match}
    (h : Shape.anyCall.Finds l.text m) : callHintsInBytes? l m = some (callHints l m) := by
  have hlen : (l.text.take m.span.stop).length = m.span.stop := by
    rw [List.length_take, Nat.min_eq_left (Pattern.within_of_finds h).1.inside]
  let args := (l.text.drop m.span.stop).takeWhile (· != ')')
  have hline : l.text = l.text.take m.span.stop ++ ([','].intercalate (splitAtCommas args) ++
      (l.text.drop m.span.stop).dropWhile (· != ')')) := by
    rw [intercalate_splitAtCommas, List.takeWhile_append_dropWhile, List.take_append_drop]
  unfold callHintsInBytes? callHints
  simp only
  split
  · cases signature? ((m.group 1).text l.text) with
    | none => rfl
    | some s =>
      have hhints := argumentHintsInBytes?_eq hline s.parameters
      rw [hlen] at hhints
      have hslice := slice?_run (· != ')') l.text m.span.stop
      simp only
      rw [cutAt?_byteOffset, Option.bind_some]
      exact (congrArg (Option.bind · _) hslice).trans hhints
  · rfl

end LanguageService
