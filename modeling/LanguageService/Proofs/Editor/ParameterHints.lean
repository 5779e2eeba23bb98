import Mathlib.Data.List.Basic
import LanguageService.Proofs.Editor.ByteScans
import LanguageService.Proofs.Language.Calls

/-!
# Hints at the arguments of a call

The arguments of a call are found by an offset that runs over the pieces between commas.  Here each
of them is told by its number: the hint of parameter `i` stands where piece `i` shows something
other than white space first.

* `hintedCalls l`        the calls of a line that carry hints, by its words
* `argumentTexts`        the pieces between commas, up to the first closing parenthesis
* `pieceSpan`            where piece `i` stands on the line
* `inkPlace?`            the first place of a stretch that is not white space
* `argumentPlaces_eq`    the running offset finds these places
* `parameterHints_spec`  the parameter hints of a range of a document
-/

namespace LanguageService

/-! ## calls that carry hints -/

/-- A call on a line: the word that is called, and the place behind the opening parenthesis. -/
structure OpenedCall where
  name : Span
  inside : Nat
deriving DecidableEq, Repr

/-- the calls of a line that carry hints, from left to right -/
def hintedCalls (l : Line) : List OpenedCall :=
  (wordRuns l).filterMap fun s =>
    if hintedBuiltins.contains (s.text l) then
      (callGap (l.drop s.stop)).map fun k => ⟨s, s.stop + k⟩
    else none

/-- A whole word that is one of the hinted functions, white space, and an opening parenthesis. -/
structure IsHintedCall (l : Line) (c : OpenedCall) : Prop where
  word : IsWordRun l c.name
  hinted : c.name.text l ∈ hintedBuiltins
  opened : ∃ gap rest, AllBlank gap ∧ l.drop c.name.stop = gap ++ '(' :: rest ∧
    c.inside = c.name.stop + (gap.length + 1)

theorem mem_hintedCalls_iff {l : Line} {c : OpenedCall} :
    c ∈ hintedCalls l ↔ IsHintedCall l c := by
  rw [hintedCalls, List.mem_filterMap]
  constructor
  · intro h
    obtain ⟨s, hs, hc⟩ := h
    split at hc
    · next hhinted =>
      obtain ⟨k, hk, rfl⟩ := Option.map_eq_some_iff.mp hc
      obtain ⟨gap, rest, hdrop, hgap, rfl⟩ := exists_of_callGap hk
      exact ⟨(mem_wordRuns_iff l s).mp hs, List.contains_iff_mem.mp hhinted, gap, rest, hgap,
        hdrop, rfl⟩
    · cases hc
  · intro h
    obtain ⟨gap, rest, hgap, hdrop, hinside⟩ := h.opened
    refine ⟨c.name, (mem_wordRuns_iff l c.name).mpr h.word, ?_⟩
    rw [if_pos (List.contains_iff_mem.mpr h.hinted), hdrop, callGap_open hgap, Option.map_some,
      ← hinside]

theorem hintedCalls_pairwise (l : Line) :
    (hintedCalls l).Pairwise fun c d => c.name.start < d.name.start := by
  have hname : ∀ s c, (if hintedBuiltins.contains (s.text l) then
      (callGap (l.drop s.stop)).map fun k => (⟨s, s.stop + k⟩ : OpenedCall) else none) = some c →
      c.name = s := by
    intro s c hc
    split at hc
    · obtain ⟨k, -, rfl⟩ := Option.map_eq_some_iff.mp hc
      rfl
    · cases hc
  refine List.Pairwise.filterMap _ (fun s t hst c hc d hd => ?_) (wordRunsFrom_pairwise l 0 false)
  rw [hname s c hc, hname t d hd]
  exact hst

theorem isNameText_of_hinted : ∀ w ∈ hintedBuiltins, isNameText w.toList = true := by
  decide +kernel

theorem exists_signature_of_hinted :
    ∀ w ∈ hintedBuiltins, (signature? w).isSome = true := by
  decide +kernel

/-! ## the arguments of a call -/

/-- The arguments of a call that is opened in front of a place: the text from there to the first
closing parenthesis, or to the end of the line, cut at commas. -/
def argumentTexts (l : Line) (inside : Nat) : List Line :=
  ((l.drop inside).takeWhile (· != ')')).splitOn ','

/-- Where the `i`-th of some pieces stands, if the first of them begins at `start` and there is one
character between a piece and the next. -/
def pieceSpan (start : Nat) (pieces : List Line) (i : Nat) : Span :=
  let before := start + (pieces.take i).flatten.length + i
  ⟨before, before + (pieces.getD i []).length⟩

/-- the first place of a stretch of a line at which something other than white space stands -/
def inkPlace? (l : Line) (s : Span) : Option Nat :=
  (List.range' s.start (s.stop - s.start)).find? fun k => l[k]?.any fun c => !isBlank c

theorem pieceSpan_zero (start : Nat) (x : Line) (pieces : List Line) :
    pieceSpan start (x :: pieces) 0 = ⟨start, start + x.length⟩ := rfl

theorem pieceSpan_succ (start : Nat) (x : Line) (pieces : List Line) (i : Nat) :
    pieceSpan start (x :: pieces) (i + 1) = pieceSpan (start + x.length + 1) pieces i := by
  have hbefore : start + ((x :: pieces).take (i + 1)).flatten.length + (i + 1) =
      start + x.length + 1 + (pieces.take i).flatten.length + i := by
    rw [List.take_succ_cons, List.flatten_cons, List.length_append]
    omega
  simp only [pieceSpan, hbefore, List.getD_cons_succ]

theorem stop_pieceSpan_lt (start : Nat) (pieces : List Line) {i j : Nat} (hij : i < j)
    (hj : j < pieces.length) : (pieceSpan start pieces i).stop < (pieceSpan start pieces j).start := by
  induction pieces generalizing start i j with
  | nil => exact absurd hj (Nat.not_lt_zero j)
  | cons x pieces ih =>
    obtain ⟨j, rfl⟩ := Nat.exists_eq_succ_of_ne_zero (Nat.ne_zero_of_lt hij)
    cases i with
    | zero =>
      rw [pieceSpan_zero, pieceSpan_succ]
      show start + x.length < start + x.length + 1 + _ + _
      omega
    | succ i =>
      rw [pieceSpan_succ, pieceSpan_succ]
      exact ih _ (Nat.lt_of_succ_lt_succ hij) (Nat.lt_of_succ_lt_succ hj)

theorem inkPlace?_between (pre x post : Line) :
    inkPlace? (pre ++ (x ++ post)) ⟨pre.length, pre.length + x.length⟩ =
      if isBlankLine x then none else some (pre.length + indentWidth x) := by
  induction x generalizing pre with
  | nil =>
    rw [inkPlace?, Nat.add_sub_cancel_left]
    rfl
  | cons c x ih =>
    have hnext := ih (pre ++ [c])
    rw [inkPlace?, List.append_assoc, List.length_append, List.length_singleton,
      List.singleton_append, Nat.add_sub_cancel_left] at hnext
    have hhere : (pre ++ (c :: x ++ post))[pre.length]? = some c := getElem?_behind pre _
    rw [inkPlace?, Nat.add_sub_cancel_left, List.length_cons, List.range'_succ, List.find?_cons,
      hhere, Option.any_some, isBlankLine_cons, indentWidth, List.takeWhile_cons]
    cases hc : isBlank c with
    | false => rfl
    | true =>
      simp only [Bool.not_true, Bool.true_and, if_true, List.length_cons]
      rw [List.cons_append, hnext, indentWidth]
      split
      · rfl
      · rw [Nat.add_right_comm, Nat.add_assoc]

theorem lt_of_inkPlace? {l : Line} {s : Span} {k : Nat} (h : inkPlace? l s = some k) :
    s.start ≤ k ∧ k < s.stop ∧ k < l.length := by
  obtain ⟨hink, hmem, -⟩ := List.find?_range'_eq_some.mp h
  obtain ⟨hstart, hstop⟩ := List.mem_range'_1.mp hmem
  have hline : k < l.length := by
    by_contra hout
    rw [List.getElem?_eq_none (Nat.le_of_not_lt hout)] at hink
    cases hink
  exact ⟨hstart, by omega, hline⟩

/-- each piece stands at its place, and shows no ink exactly if it is blank -/
theorem chars_pieceSpan {l pre post : Line} {pieces : List Line}
    (hl : l = pre ++ ([','].intercalate pieces ++ post)) {i : Nat} {x : Line}
    (hx : pieces[i]? = some x) :
    (pieceSpan pre.length pieces i).chars l = x ∧
      (inkPlace? l (pieceSpan pre.length pieces i) = none ↔ isBlankLine x = true) := by
  induction pieces generalizing pre i with
  | nil => cases hx
  | cons y pieces ih =>
    obtain ⟨rest, hrest, hnext⟩ := exists_behind_piece hl
    cases i with
    | zero =>
      obtain rfl : y = x := Option.some.inj hx
      rw [pieceSpan_zero, hrest, Span.chars_between, inkPlace?_between]
      refine ⟨rfl, ?_⟩
      cases isBlankLine y with
      | true => exact iff_of_true rfl rfl
      | false => exact iff_of_false (Option.some_ne_none _) Bool.false_ne_true
    | succ i =>
      have hne : pieces ≠ [] := by
        rintro rfl
        cases hx
      have hlen : (pre ++ y ++ [',']).length = pre.length + y.length + 1 := by
        rw [List.length_append, List.length_append, List.length_singleton]
      rw [pieceSpan_succ, ← hlen]
      exact ih (hnext hne) hx

/-- the running offset finds the first ink of each piece -/
theorem argumentPlaces_eq {l pre post : Line} {pieces : List Line}
    (hl : l = pre ++ ([','].intercalate pieces ++ post)) (params : List String) :
    argumentPlaces pre.length pieces params =
      (List.range (min pieces.length params.length)).filterMap fun i =>
        (inkPlace? l (pieceSpan pre.length pieces i)).map fun k => (k, params.getD i "") := by
  induction pieces generalizing pre params with
  | nil =>
    rw [List.length_nil, Nat.zero_min]
    rfl
  | cons x pieces ih =>
    cases params with
    | nil =>
      rw [List.length_nil, Nat.min_zero]
      rfl
    | cons param params =>
      obtain ⟨rest, hrest, hnext⟩ := exists_behind_piece hl
      have htail : argumentPlaces (pre.length + x.length + 1) pieces params =
          (List.range (min pieces.length params.length)).filterMap fun i =>
            (inkPlace? l (pieceSpan (pre.length + x.length + 1) pieces i)).map fun k =>
              (k, params.getD i "") := by
        by_cases hne : pieces = []
        · rw [hne, List.length_nil, Nat.zero_min]
          rfl
        · have h := ih (hnext hne) params
          rwa [List.length_append, List.length_append, List.length_singleton] at h
      have hhead := inkPlace?_between pre x rest
      rw [← hrest] at hhead
      -- behind the first piece the numbers are one greater
      have hnumbers : (fun i => (inkPlace? l (pieceSpan (pre.length + x.length + 1) pieces i)).map
          fun k => (k, params.getD i "")) =
          (fun i => (inkPlace? l (pieceSpan pre.length (x :: pieces) i)).map
            fun k => (k, (param :: params).getD i "")) ∘ Nat.succ := by
        funext i
        rw [Function.comp_apply, Nat.succ_eq_add_one, pieceSpan_succ, List.getD_cons_succ]
      rw [argumentPlaces, htail, hnumbers, ← List.filterMap_map, List.length_cons,
        List.length_cons, Nat.succ_min_succ, List.range_succ_eq_map]
      cases hblank : isBlankLine x with
      | true =>
        rw [hblank, if_pos rfl] at hhead
        rw [if_pos rfl, List.nil_append, List.filterMap_cons_none]
        rw [pieceSpan_zero, hhead, Option.map_none]
      | false =>
        rw [hblank, if_neg Bool.false_ne_true] at hhead
        rw [if_neg Bool.false_ne_true, List.singleton_append, List.filterMap_cons_some]
        rw [pieceSpan_zero, hhead, Option.map_some, List.getD_cons_zero]

/-! ## the hints of a call -/

/-- the hint of parameter `i`, where the argument of this number shows something first -/
def argumentHint? (k : NumberedLine) (inside : Nat) (params : List String) (i : Nat) :
    Option InlayHint :=
  (inkPlace? k.text (pieceSpan inside (argumentTexts k.text inside) i)).map fun q =>
    argumentHint k (column k.text q) (params.getD i "")

/-- the hints of a call, one number of an argument and a parameter after the other -/
def hintsOfCall (k : NumberedLine) (c : OpenedCall) : List InlayHint :=
  match signature? (c.name.text k.text) with
  | none => []
  | some s =>
    (List.range (min (argumentTexts k.text c.inside).length s.parameters.length)).filterMap
      (argumentHint? k c.inside s.parameters)

/-- The hints of a call stand on its arguments: each on the ink that its piece shows first, and none
on a blank piece. -/
structure StandOnArguments (k : NumberedLine) (c : OpenedCall) (hints : List InlayHint) : Prop where
  signature : ∃ s, signature? (c.name.text k.text) = some s ∧ hints =
    (List.range (min (argumentTexts k.text c.inside).length s.parameters.length)).filterMap
      (argumentHint? k c.inside s.parameters)
  pieces : ∀ i x, (argumentTexts k.text c.inside)[i]? = some x →
    (pieceSpan c.inside (argumentTexts k.text c.inside) i).chars k.text = x ∧
    (inkPlace? k.text (pieceSpan c.inside (argumentTexts k.text c.inside) i) = none ↔
      isBlankLine x = true)
  increasing : hints.Pairwise fun g h => g.position.character < h.position.character

/-- the line is the text before the arguments, the arguments with commas between them, and the rest -/
theorem eq_around_arguments (l : Line) (inside : Nat) :
    l = l.take inside ++ ([','].intercalate (argumentTexts l inside) ++
      (l.drop inside).dropWhile (· != ')')) := by
  rw [argumentTexts, List.intercalate_splitOn, List.takeWhile_append_dropWhile,
    List.take_append_drop]

theorem IsHintedCall.inside_le {l : Line} {c : OpenedCall} (h : IsHintedCall l c) :
    c.inside ≤ l.length := by
  obtain ⟨gap, rest, -, hdrop, hinside⟩ := h.opened
  have hlen := congrArg List.length hdrop
  rw [List.length_drop, List.length_append, List.length_cons] at hlen
  omega

theorem argumentHint?_lt {k : NumberedLine} {inside : Nat} {params : List String} {i j : Nat}
    (hij : i < j) (hj : j < (argumentTexts k.text inside).length) {g h : InlayHint}
    (hg : argumentHint? k inside params i = some g)
    (hh : argumentHint? k inside params j = some h) :
    g.position.character < h.position.character := by
  obtain ⟨q, hq, rfl⟩ := Option.map_eq_some_iff.mp hg
  obtain ⟨r, hr, rfl⟩ := Option.map_eq_some_iff.mp hh
  have hapart := stop_pieceSpan_lt inside (argumentTexts k.text inside) hij hj
  have hleft := (lt_of_inkPlace? hq).2.1
  have hright := lt_of_inkPlace? hr
  have hlt : q < r := Nat.lt_of_lt_of_le (Nat.lt_trans hleft hapart) hright.1
  exact column_strictMono k.text hlt (Nat.le_of_lt hright.2.2)

theorem standOnArguments {k : NumberedLine} {c : OpenedCall} (hc : IsHintedCall k.text c) :
    StandOnArguments k c (hintsOfCall k c) := by
  obtain ⟨s, hs⟩ := Option.isSome_iff_exists.mp (exists_signature_of_hinted _ hc.hinted)
  have hhints : hintsOfCall k c =
      (List.range (min (argumentTexts k.text c.inside).length s.parameters.length)).filterMap
        (argumentHint? k c.inside s.parameters) := by
    rw [hintsOfCall, hs]
  have hlen : (k.text.take c.inside).length = c.inside := by
    rw [List.length_take, Nat.min_eq_left hc.inside_le]
  refine ⟨⟨s, hs, hhints⟩, fun i x hx => ?_, ?_⟩
  · have hchars := chars_pieceSpan (eq_around_arguments k.text c.inside) hx
    rwa [hlen] at hchars
  · rw [hhints, List.pairwise_filterMap]
    refine List.pairwise_lt_range.imp_of_mem fun {i j} _ hj hij g hg h hh => ?_
    have hj := Nat.lt_of_lt_of_le (List.mem_range.mp hj) (Nat.min_le_left _ _)
    exact argumentHint?_lt hij hj hg hh

/-- The hints at a match of a call are those of the call that it opens. -/
theorem callHints_eq {k : NumberedLine} {c : OpenedCall} {m : Match}
    (hc : IsHintedCall k.text c) (hname : m.group 1 = c.name) (hstop : m.span.stop = c.inside) :
    callHints k m = hintsOfCall k c := by
  have hhinted : hintedBuiltins.contains (c.name.text k.text) = true :=
    List.contains_iff_mem.mpr hc.hinted
  have hlen : (k.text.take c.inside).length = c.inside := by
    rw [List.length_take, Nat.min_eq_left hc.inside_le]
  unfold callHints hintsOfCall
  simp only
  rw [hname, hstop, if_pos hhinted]
  cases signature? (c.name.text k.text) with
  | none => rfl
  | some s =>
    have hplaces := argumentPlaces_eq (eq_around_arguments k.text c.inside) s.parameters
    rw [hlen] at hplaces
    simp only
    rw [splitAtCommas_eq_splitOn, ← argumentTexts, hplaces, List.map_filterMap]
    congr 1
    funext i
    rw [Option.map_map, argumentHint?]
    rfl

/-- the parameter hints of a line are those of its calls, from left to right -/
theorem parameterHints_eq (k : NumberedLine) :
    parameterHints k = (hintedCalls k.text).flatMap (hintsOfCall k) := by
  rw [parameterHints, all_anyCall, hintedCalls, List.filterMap_eq_flatMap_toList,
    List.filterMap_eq_flatMap_toList, List.flatMap_assoc, List.flatMap_assoc]
  refine List.flatMap_congr fun s hs => ?_
  rw [Pattern.foundAt]
  by_cases hhinted : s.text k.text ∈ hintedBuiltins
  · have hcontains := List.contains_iff_mem.mpr hhinted
    have hname : isNameText (s.chars k.text) = true := by
      rw [← Span.toList_text]
      exact isNameText_of_hinted _ hhinted
    rw [if_pos hcontains, if_pos hname]
    cases hgap : callGap (k.text.drop s.stop) with
    | none => rfl
    | some n =>
      have hmem : (⟨s, s.stop + n⟩ : OpenedCall) ∈ hintedCalls k.text :=
        List.mem_filterMap.mpr ⟨s, hs, by rw [if_pos hcontains, hgap, Option.map_some]⟩
      simp only [Option.map_some, Option.toList_some, List.flatMap_singleton]
      exact callHints_eq (mem_hintedCalls_iff.mp hmem) rfl rfl
  · have hcontains : ¬ hintedBuiltins.contains (s.text k.text) = true :=
      mt List.contains_iff_mem.mp hhinted
    rw [if_neg hcontains, Option.toList_none, List.flatMap_nil]
    refine List.flatMap_eq_nil_iff.mpr fun m hm => ?_
    obtain ⟨n, -, rfl⟩ := Option.map_eq_some_iff.mp (Option.mem_toList.mp hm)
    -- the match is that of a name without hints
    have hgroup : (Pattern.wordMatch (fun s => [(1, s)]) s n).group 1 = s := rfl
    unfold callHints
    simp only
    rw [hgroup, if_neg hcontains]

theorem kind_of_mem_parameterHints {k : NumberedLine} {h : InlayHint}
    (hh : h ∈ parameterHints k) : h.kind = .parameter := by
  obtain ⟨m, -, hh⟩ := List.mem_flatMap.mp hh
  unfold callHints at hh
  simp only at hh
  split at hh
  · split at hh
    · exact absurd hh List.not_mem_nil
    · obtain ⟨a, -, rfl⟩ := List.mem_map.mp hh
      rfl
  · exact absurd hh List.not_mem_nil

theorem kind_of_typeHint? {k : NumberedLine} {h : InlayHint} (hh : typeHint? k = some h) :
    h.kind = .type := by
  unfold typeHint? at hh
  split at hh
  · cases hh
  · obtain ⟨ty, -, rfl⟩ := Option.map_eq_some_iff.mp hh
    rfl

theorem filter_hints_of_line (k : NumberedLine) :
    ((typeHint? k).toList ++ parameterHints k).filter (fun h => h.kind = .parameter) =
      parameterHints k := by
  have htype : (typeHint? k).toList.filter (fun h => h.kind = .parameter) = [] := by
    refine List.filter_eq_nil_iff.mpr fun h hh => ?_
    rw [kind_of_typeHint? (Option.mem_toList.mp hh)]
    decide
  have hparameter : (parameterHints k).filter (fun h => h.kind = .parameter) = parameterHints k :=
    List.filter_eq_self.mpr fun h hh => decide_eq_true (kind_of_mem_parameterHints hh)
  rw [List.filter_append, htype, hparameter, List.nil_append]

/-- **The hints at arguments.**  The parameter hints of a range are those of the code lines from its
first line to its last, in the order of the lines; and on each line those of the calls whose name, as
a whole word, is one of the hinted functions, from left to right.  The arguments of a call are the
pieces between commas up to the first closing parenthesis, or to the end of the line.  For each
number of both a piece and a parameter there is one hint, labelled with this parameter, at the column
where the piece shows something other than white space first, and none if the piece is blank; these
columns increase.  Counted in bytes, the running offset never leaves the line or cuts a character. -/
theorem parameterHints_spec (lines : List Line) (r : Range) :
    (inlayHints lines r).filter (fun h => h.kind = .parameter) =
      ((codeLines lines).filter fun k =>
        r.start.line ≤ k.number && k.number ≤ r.stop.line).flatMap
          (fun k => (hintedCalls k.text).flatMap (hintsOfCall k)) ∧
    ∀ k ∈ codeLines lines,
      (∀ c, c ∈ hintedCalls k.text ↔ IsHintedCall k.text c) ∧
      (hintedCalls k.text).Pairwise (fun c d => c.name.start < d.name.start) ∧
      (∀ c ∈ hintedCalls k.text, StandOnArguments k c (hintsOfCall k c)) ∧
      ∀ m ∈ Shape.anyCall.all k.text, callHintsInBytes? k m = some (callHints k m) := by
  refine ⟨?_, fun k _ => ⟨fun _ => mem_hintedCalls_iff, hintedCalls_pairwise k.text,
    fun c hc => standOnArguments (mem_hintedCalls_iff.mp hc),
    fun m hm => callHintsInBytes?_eq (Pattern.finds_of_mem_all hm)⟩⟩
  rw [inlayHints, List.filter_flatMap]
  refine List.flatMap_congr fun k _ => ?_
  rw [filter_hints_of_line, parameterHints_eq]

/-- The call inside another one ends the arguments of both; a blank argument has no hint. -/
example : (parameterHints ⟨0, "slice(pow(2, , 3), 4)".toList⟩).map
    (fun h => (h.position.character, h.label)) = [(6, "array:"), (15, "end:"), (10, "base:")] := by
  decide +kernel

end LanguageService
