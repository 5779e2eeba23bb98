import LanguageService.Editor.Folding
import LanguageService.Editor.Lens
import LanguageService.Editor.Outline
import LanguageService.Protocol.Encode
import LanguageService.Source.Analysis
import LanguageService.Proofs.Editor.ByteScans
import LanguageService.Proofs.Editor.CallHierarchy
import LanguageService.Proofs.Source.CursorWord

/-!
# Ranges denote text

Whatever is derived from a document, its ranges lie on lines that exist, between columns that split
no character.

* `Range.Inside`             a range inside another
* `Caller.OnText`            the item of a caller, and of a function that is called
* `Classifies`               a token stands on a span of its line that is not empty
* `foldsFrom_stop`           a fold ends on a line of the document
* `RangesOnText`             the ranges, positions, tokens and folds of an analysis
* `CutsOnText`               the byte offsets at which its lines are cut
* `ranges_on_text`           both, for every text
-/

namespace LanguageService

variable {lines : List Line}

/-! ## spans of a line -/

/-- the inner range begins no earlier and ends no later -/
def Range.Inside (inner outer : Range) : Prop :=
  outer.start.le inner.start = true ∧ inner.stop.le outer.stop = true

theorem Position.le_of_column {n a b : Nat} (h : a ≤ b) :
    (⟨n, a⟩ : Position).le ⟨n, b⟩ = true := by
  simp [Position.le, h]

theorem Span.Within.range_onText {k : NumberedLine} {s : Span} (h : s.Within k.text)
    (hk : k ∈ numberLines lines) : (s.range k.number k.text).OnText lines :=
  Span.range_onText (mem_numberLines_iff.mp hk) h.ordered

theorem Span.Within.range_inside {s : Span} {l : Line} (h : s.Within l) (n : Nat) :
    (s.range n l).Inside (Range.ofLine n l) :=
  ⟨Position.le_of_column (column_mono l (Nat.zero_le _)),
    Position.le_of_column (column_mono l h.inside)⟩

theorem Range.ofLine_onText {k : NumberedLine} (hk : k ∈ numberLines lines) :
    (Range.ofLine k.number k.text).OnText lines :=
  Span.range_onText (mem_numberLines_iff.mp hk) (Nat.zero_le _)

theorem Range.ofTrimmed_onText {k : NumberedLine} (hk : k ∈ numberLines lines) :
    (Range.ofTrimmed k.number k.text).OnText lines :=
  Span.range_onText (mem_numberLines_iff.mp hk) (Nat.le_max_right _ _)

theorem mem_numberLines_of_code {k : NumberedLine} (hk : k ∈ codeLines lines) :
    k ∈ numberLines lines :=
  (sublist_codeLines lines).subset hk

theorem Pattern.Finds.range_onText {a : Pattern} {k : NumberedLine} {m : Match}
    (h : a.Finds k.text m) (hk : k ∈ numberLines lines) :
    (m.span.range k.number k.text).OnText lines :=
  (Pattern.within_of_finds h).1.range_onText hk

theorem Pattern.Finds.group_onText {a : Pattern} {k : NumberedLine} {m : Match}
    (h : a.Finds k.text m) (hk : k ∈ numberLines lines) (i : Nat) :
    ((m.group i).range k.number k.text).OnText lines :=
  ((Pattern.within_of_finds h).2 i).range_onText hk

/-! ## declared names -/

theorem Declaration.within_of_ofShape? {kind : SymbolKind} {shape : Pattern} {l : Line}
    {d : Declaration} (h : Declaration.ofShape? kind shape l = some d) : d.span.Within l := by
  obtain ⟨m, hm, rfl⟩ := Option.map_eq_some_iff.mp h
  exact (Pattern.within_of_finds (Pattern.finds_of_first? hm)).2 1

theorem Declaration.within_of_mem_onLine {l : Line} {d : Declaration}
    (h : d ∈ Declaration.onLine l) : d.span.Within l := by
  rcases List.mem_append.mp h with h | h
  · rcases Option.or_eq_some_iff.mp (Option.mem_toList.mp h) with h | ⟨-, h⟩
    · exact within_of_ofShape? h
    · exact within_of_ofShape? h
  · exact within_of_ofShape? (Option.mem_toList.mp h)

theorem nameRange_onText {s : Symbol} (h : s ∈ (indexSymbols lines).symbols) :
    s.nameRange.OnText lines := by
  obtain ⟨before, l, after, d, hcode, hd, -, -, -, -, hrange⟩ :=
    exists_declaration_of_mem_indexSymbols h
  have hl : l ∈ codeLines lines := by
    rw [hcode]
    exact List.mem_append_right _ List.mem_cons_self
  rw [Declaration.first?_eq_head?] at hd
  rw [hrange]
  exact (Declaration.within_of_mem_onLine (List.mem_of_head? hd)).range_onText
    (mem_numberLines_of_code hl)

theorem outline_onText {e : OutlineEntry} (h : e ∈ outline lines) :
    e.range.OnText lines ∧ e.nameRange.OnText lines ∧ e.nameRange.Inside e.range := by
  obtain ⟨l, hl, he⟩ := List.mem_flatMap.mp h
  obtain ⟨d, hd, rfl⟩ := List.mem_map.mp he
  have hspan := Declaration.within_of_mem_onLine hd
  exact ⟨Range.ofLine_onText hl, hspan.range_onText hl, hspan.range_inside l.number⟩

theorem declarationOf?_onText {name : String} {r : Range}
    (h : declarationOf? lines name = some r) : r.OnText lines := by
  obtain ⟨l, hl, hr⟩ := List.exists_of_findSome?_eq_some h
  obtain ⟨s, hs, rfl⟩ := Option.map_eq_some_iff.mp hr
  obtain ⟨m, hm, hgroup⟩ := Option.bind_eq_some_iff.mp hs
  have hfinds := Pattern.finds_of_first? hm
  rcases Option.or_eq_some_iff.mp hgroup with h | ⟨-, h⟩
  · exact (Pattern.within_of_group? hfinds h).range_onText hl
  · exact (Pattern.within_of_group? hfinds h).range_onText hl

theorem occurrences_onText {name : String} {r : Range} (h : r ∈ occurrences lines name) :
    r.OnText lines := by
  obtain ⟨l, hl, hr⟩ := List.mem_flatMap.mp h
  obtain ⟨m, hm, rfl⟩ := List.mem_map.mp hr
  exact (Pattern.finds_of_mem_all hm).range_onText hl

/-! ## diagnostics, lenses and colors -/

theorem problemsOnLine_onText {symbols : SymbolTable} {k : NumberedLine}
    (hk : k ∈ numberLines lines) {f : Finding} (h : f ∈ problemsOnLine symbols k) :
    f.range.OnText lines := by
  -- all rules but one report the line without its margins
  have htrimmed : ∀ {c : Prop} [Decidable c] {p : Problem},
      (if c then some (⟨p, Range.ofTrimmed k.number k.text⟩ : Finding) else none) = some f →
        f.range.OnText lines := by
    intro c _ p h
    split at h
    · obtain rfl := Option.some.inj h
      exact Range.ofTrimmed_onText hk
    · cases h
  rcases List.mem_append.mp h with h | h
  · rcases List.mem_append.mp h with h | h
    · rcases List.mem_append.mp h with h | h
      · exact htrimmed (Option.mem_toList.mp h)
      · exact htrimmed (Option.mem_toList.mp h)
    · exact htrimmed (Option.mem_toList.mp h)
  · have h := Option.mem_toList.mp h
    unfold assignmentProblem? at h
    split at h
    · cases h
    · next m hm =>
      simp only at h
      split at h
      · cases h
      · obtain rfl := Option.some.inj h
        exact (Pattern.finds_of_first? hm).group_onText hk 1

theorem findings_onText {f : Finding} (h : f ∈ findings lines (indexSymbols lines)) :
    f.range.OnText lines := by
  rcases List.mem_append.mp h with h | h
  · obtain ⟨k, hk, hf⟩ := List.mem_flatMap.mp h
    exact problemsOnLine_onText (mem_numberLines_of_code hk) hf
  · obtain ⟨s, hs, hf⟩ := List.mem_filterMap.mp h
    unfold unusedProblem? at hf
    split at hf
    · cases hf
    · obtain rfl := Option.some.inj hf
      exact nameRange_onText hs

theorem referenceLenses_onText {r : ReferenceLens} (h : r ∈ referenceLenses lines) :
    r.range.OnText lines := by
  obtain ⟨l, hl, hr⟩ := List.mem_filterMap.mp h
  obtain ⟨m, hm, rfl⟩ := Option.map_eq_some_iff.mp hr
  exact (Pattern.finds_of_first? hm).group_onText hl 1

theorem documentColors_onText {c : DocumentColor} (h : c ∈ documentColors lines) :
    c.range.OnText lines := by
  obtain ⟨l, hl, hc⟩ := List.mem_flatMap.mp h
  rcases List.mem_append.mp hc with hc | hc
  · obtain ⟨m, hm, hcolor⟩ := List.mem_filterMap.mp hc
    obtain ⟨color, -, rfl⟩ := Option.map_eq_some_iff.mp hcolor
    exact (Pattern.finds_of_mem_all hm).range_onText hl
  · obtain ⟨m, hm, hcolor⟩ := List.mem_filterMap.mp hc
    obtain ⟨color, -, rfl⟩ := Option.map_eq_some_iff.mp hcolor
    exact (Pattern.finds_of_mem_all hm).range_onText hl

/-! ## tokens -/

/-- the columns that a token covers -/
def Token.range (t : Token) : Range :=
  ⟨⟨t.line, t.start⟩, ⟨t.line, t.start + t.length⟩⟩

/-- The token stands on a span of the line that is not empty. -/
def Classifies (k : NumberedLine) (t : Token) : Prop :=
  ∃ (s : Span) (kind : TokenKind) (modifiers : List TokenModifier),
    s.Within k.text ∧ s.start < s.stop ∧ t = s.token k kind modifiers

theorem classifies_matchTokens {a : Pattern} (ha : a.consumes = true) {kind : TokenKind}
    {modifiers : List TokenModifier} {k : NumberedLine} :
    ∀ t ∈ matchTokens a kind modifiers k, Classifies k t := by
  intro t ht
  obtain ⟨m, hm, rfl⟩ := List.mem_map.mp ht
  have hfinds := Pattern.finds_of_mem_all hm
  exact ⟨m.span, kind, modifiers, (Pattern.within_of_finds hfinds).1,
    Pattern.nonempty_of_reads ha (Pattern.reads_of_finds hfinds).1, rfl⟩

theorem classifies_groupToken? {a : Pattern} (ha : a.consumes = true)
    (hgroups : (a.groupsOf.all fun g => g.2.consumes) = true) {kind : TokenKind}
    {modifiers : List TokenModifier} {k : NumberedLine} :
    ∀ t ∈ groupToken? a kind modifiers k, Classifies k t := by
  intro t ht
  obtain ⟨m, hm, rfl⟩ := Option.map_eq_some_iff.mp ht
  have hfinds := Pattern.finds_of_first? hm
  exact ⟨m.group 1, kind, modifiers, (Pattern.within_of_finds hfinds).2 1,
    (Pattern.nonempty_of_finds ha hgroups hfinds).2 1, rfl⟩

theorem classifies_declarationToken? {k : NumberedLine} :
    ∀ t ∈ declarationToken? k, Classifies k t := by
  intro t ht
  rcases Option.or_eq_some_iff.mp ht with h | ⟨-, h⟩
  · exact classifies_groupToken? (by decide +kernel) (by decide +kernel) t h
  · exact classifies_groupToken? (by decide +kernel) (by decide +kernel) t h

/-- every pass takes a character at least -/
theorem classifies_tokensOnLine (k : NumberedLine) : ∀ t ∈ tokensOnLine k, Classifies k t := by
  simp only [tokensOnLine, List.forall_mem_append, Option.mem_toList]
  refine ⟨⟨⟨⟨⟨⟨⟨⟨⟨?_, ?_⟩, ?_⟩, classifies_declarationToken?⟩, ?_⟩, ?_⟩, ?_⟩, ?_⟩, ?_⟩,
    classifies_groupToken? (by decide +kernel) (by decide +kernel)⟩
  all_goals exact classifies_matchTokens (by decide +kernel)

theorem exists_line_of_mem_tokens {t : Token} (h : t ∈ tokens lines) :
    ∃ k ∈ numberLines lines, Classifies k t := by
  obtain ⟨k, hk, ht⟩ := List.mem_flatMap.mp h
  exact ⟨k, hk, classifies_tokensOnLine k t ht⟩

theorem Span.Within.column_lt {l : Line} {s : Span} (h : s.Within l) (hlt : s.start < s.stop) :
    column l s.start < column l s.stop :=
  column_strictMono l hlt h.inside

theorem Classifies.onText {k : NumberedLine} {t : Token} (h : Classifies k t)
    (hk : k ∈ numberLines lines) : t.range.OnText lines ∧ 0 < t.length := by
  obtain ⟨s, kind, modifiers, hs, hlt, rfl⟩ := h
  have hcolumn := hs.column_lt hlt
  have hrange : (s.token k kind modifiers).range = s.range k.number k.text := by
    show (⟨⟨k.number, column k.text s.start⟩, ⟨k.number,
      column k.text s.start + (column k.text s.stop - column k.text s.start)⟩⟩ : Range) = _
    rw [Nat.add_sub_cancel' (Nat.le_of_lt hcolumn)]
    rfl
  rw [hrange]
  exact ⟨hs.range_onText hk, Nat.sub_pos_of_lt hcolumn⟩

/-! ## callers and callees -/

/-- The item of a caller begins and ends on the text, and its name lies inside it.  Only the item of
the document can cover more than one line. -/
structure Caller.OnText (lines : List Line) (c : Caller) : Prop where
  start : (c.range lines).start.OnText lines
  stop : (c.range lines).stop.OnText lines
  ordered : (c.range lines).start.le (c.range lines).stop = true
  oneLine : (c.range lines).stop.line = (c.range lines).start.line →
    (c.range lines).OnText lines
  nameRange : c.nameRange.OnText lines
  inside : c.nameRange.Inside (c.range lines)

theorem Caller.function_onText {shape : Pattern} {k : NumberedLine} {f : FunctionSite}
    (hk : k ∈ numberLines lines) (h : FunctionSite.onLine? shape k = some f) :
    (Caller.function f).OnText lines := by
  obtain ⟨m, hm, rfl⟩ := Option.map_eq_some_iff.mp h
  have hname := (Pattern.within_of_finds (Pattern.finds_of_first? hm)).2 1
  have hline := Range.ofLine_onText hk
  exact ⟨hline.start, hline.stop, Position.le_of_column hline.ordered, fun _ => hline,
    hname.range_onText hk, hname.range_inside k.number⟩

theorem functionNamed?_onText {name : String} {f : FunctionSite}
    (h : functionNamed? lines name = some f) : (Caller.function f).OnText lines := by
  obtain ⟨k, hk, hf⟩ := List.exists_of_findSome?_eq_some h
  exact Caller.function_onText hk hf

theorem Range.ofLines_stop_onText (hne : lines ≠ []) :
    (Range.ofLines lines).stop.OnText lines := by
  obtain ⟨init, l, rfl⟩ := List.eq_nil_or_concat lines |>.resolve_left hne
  have hlast : (Range.ofLines (init.concat l)).stop = ⟨init.length, column l l.length⟩ := by
    simp [Range.ofLines, column_length]
  rw [hlast]
  exact column_onText (by simp) l.length

theorem Caller.document_onText (hne : lines ≠ []) : Caller.document.OnText lines := by
  obtain ⟨l, ls, rfl⟩ := List.exists_cons_of_ne_nil hne
  have hstart : (⟨0, 0⟩ : Position).OnText (l :: ls) := column_onText (l := l) rfl 0
  have hle : ∀ p : Position, (⟨0, 0⟩ : Position).le p = true := by
    intro p
    rcases Nat.eq_zero_or_pos p.line with h | h
    · simp [Position.le, h]
    · simp [Position.le, h]
  have hstop := Range.ofLines_stop_onText hne
  refine ⟨hstart, hstop, hle _, fun hline => ⟨hstart, hstop, hline, Nat.zero_le _⟩,
    ⟨hstart, hstart, rfl, Nat.le_refl _⟩, hle _, hle _⟩

theorem Caller.of_onText (hne : lines ≠ []) (n : Nat) : (Caller.of lines n).OnText lines := by
  rw [Caller.of]
  cases h : enclosingFunction? lines n with
  | none => exact Caller.document_onText hne
  | some f =>
    obtain ⟨k, hk, hf⟩ := (reaches_of_enclosingFunction? h).declared
    exact Caller.function_onText hk hf

theorem callSites_onText {name : String} {r : Range} (h : r ∈ callSites lines name) :
    r.OnText lines := by
  obtain ⟨l, hl, hr⟩ := List.mem_flatMap.mp h
  obtain ⟨m, -, rfl⟩ := List.mem_map.mp hr
  exact Span.range_onText (text_of_mem_codeLines hl) (Nat.le_add_right _ _)

/-- what holds of the party and of the range of every call holds of the groups -/
theorem forall_groupCalls {α : Type} {name : α → String} {P : α → Prop} {Q : Range → Prop}
    {calls : List (α × Range)} (h : ∀ c ∈ calls, P c.1 ∧ Q c.2) :
    ∀ g ∈ groupCalls name calls, P g.party ∧ ∀ r ∈ g.ranges, Q r := by
  intro g hg
  have hgrouped := grouped_groupCalls name calls
  obtain ⟨c, hc, hparty⟩ := hgrouped.party g hg
  refine ⟨hparty ▸ (h c hc).1, fun r hr => ?_⟩
  obtain ⟨c, hc, -, rfl⟩ := hgrouped.ranges g hg r hr
  exact (h c hc).2

theorem incomingCalls_onText (hne : lines ≠ []) {name : String} {g : CallGroup Caller}
    (hg : g ∈ incomingCalls lines name) :
    g.party.OnText lines ∧ ∀ r ∈ g.ranges, r.OnText lines := by
  refine forall_groupCalls ?_ g hg
  intro c hc
  obtain ⟨r, hr, rfl⟩ := List.mem_map.mp hc
  exact ⟨Caller.of_onText hne r.start.line, callSites_onText hr⟩

theorem calleesOnLine_onText {k : NumberedLine} (hk : k ∈ numberLines lines)
    {c : FunctionSite × Range} (h : c ∈ calleesOnLine lines k) :
    (Caller.function c.1).OnText lines ∧ c.2.OnText lines := by
  obtain ⟨m, hm, hcall⟩ := List.mem_filterMap.mp h
  simp only at hcall
  split at hcall
  · cases hcall
  · obtain ⟨f, hf, rfl⟩ := Option.map_eq_some_iff.mp hcall
    exact ⟨functionNamed?_onText hf, (Pattern.finds_of_mem_all hm).group_onText hk 1⟩

theorem outgoingCalls_onText {name : String} {g : CallGroup FunctionSite}
    (hg : g ∈ outgoingCalls lines name) :
    (Caller.function g.party).OnText lines ∧ ∀ r ∈ g.ranges, r.OnText lines := by
  unfold outgoingCalls at hg
  split at hg
  · exact absurd hg List.not_mem_nil
  · refine forall_groupCalls (P := fun f => (Caller.function f).OnText lines) ?_ g hg
    intro c hc
    obtain ⟨k, hk, hc⟩ := List.mem_flatMap.mp hc
    exact calleesOnLine_onText (mem_numberLines_of_code (List.mem_filter.mp hk).1) hc

/-! ## hints -/

theorem typeHint?_onText {k : NumberedLine} (hk : k ∈ numberLines lines) {h : InlayHint}
    (hh : typeHint? k = some h) : h.position.OnText lines := by
  unfold typeHint? at hh
  split at hh
  · cases hh
  · obtain ⟨ty, -, rfl⟩ := Option.map_eq_some_iff.mp hh
    exact column_onText (mem_numberLines_iff.mp hk) _

theorem callHints_onText {k : NumberedLine} (hk : k ∈ numberLines lines) {m : Match}
    {h : InlayHint} (hh : h ∈ callHints k m) : h.position.OnText lines := by
  unfold callHints at hh
  simp only at hh
  split at hh
  · split at hh
    · exact absurd hh List.not_mem_nil
    · obtain ⟨a, -, rfl⟩ := List.mem_map.mp hh
      exact column_onText (mem_numberLines_iff.mp hk) _
  · exact absurd hh List.not_mem_nil

theorem inlayHints_onText {r : Range} {h : InlayHint} (hh : h ∈ inlayHints lines r) :
    h.position.OnText lines := by
  obtain ⟨k, hk, hh⟩ := List.mem_flatMap.mp hh
  have hk := mem_numberLines_of_code (List.mem_filter.mp hk).1
  rcases List.mem_append.mp hh with hh | hh
  · exact typeHint?_onText hk (Option.mem_toList.mp hh)
  · obtain ⟨m, -, hh⟩ := List.mem_flatMap.mp hh
    exact callHints_onText hk hh

/-! ## folds -/

theorem braceFolds_stop (n : Nat) (l : Line) (opened : List Nat) :
    ∀ f ∈ (braceFolds n opened l).1, f.stop = n := by
  induction l generalizing opened with
  | nil => exact fun f hf => absurd hf List.not_mem_nil
  | cons c rest ih =>
    unfold braceFolds
    split
    · exact ih _
    · split
      · split
        · exact ih _
        · next s outer =>
          split
          · exact List.forall_mem_cons.mpr ⟨rfl, ih outer⟩
          · exact ih outer
      · exact ih _

theorem commentFold?_stop {n : Nat} {ls : List Line} {f : Fold}
    (h : commentFold? n ls = some f) : f.stop < n + ls.length := by
  unfold commentFold? at h
  split at h
  · cases h
  · split at h
    · split at h
      · cases h
      · cases h
      · next k _ hk =>
        obtain rfl := Option.some.inj h
        have := (List.findIdx?_eq_some_iff_findIdx_eq.mp hk).1
        exact Nat.add_lt_add_left this n
    · cases h

theorem foldsFrom_stop (ls : List Line) (n : Nat) (opened : List Nat) :
    ∀ f ∈ foldsFrom n opened ls, f.stop < n + ls.length := by
  induction ls generalizing n opened with
  | nil => exact fun f hf => absurd hf List.not_mem_nil
  | cons l ls ih =>
    intro f hf
    rcases List.mem_append.mp hf with hf | hf
    · rcases List.mem_append.mp hf with hf | hf
      · rw [braceFolds_stop n l opened f hf]
        exact Nat.lt_add_of_pos_right (Nat.succ_pos _)
      · exact commentFold?_stop (Option.mem_toList.mp hf)
    · have := ih _ _ f hf
      rw [List.length_cons]
      omega

/-! ## the whole document -/

/-- What is derived from a document denotes text of it. -/
structure RangesOnText (a : Analysis) : Prop where
  symbols : ∀ s ∈ a.symbols.symbols, s.nameRange.OnText a.lines
  diagnostics : ∀ d ∈ a.diagnostics, d.range.OnText a.lines
  declaration : ∀ name r, declarationOf? a.lines name = some r → r.OnText a.lines
  occurrences : ∀ name, ∀ r ∈ occurrences a.lines name, r.OnText a.lines
  outline : ∀ e ∈ outline a.lines,
    e.range.OnText a.lines ∧ e.nameRange.OnText a.lines ∧ e.nameRange.Inside e.range
  lenses : ∀ r ∈ referenceLenses a.lines, r.range.OnText a.lines
  colors : ∀ c ∈ documentColors a.lines, c.range.OnText a.lines
  tokens : ∀ t ∈ tokens a.lines, t.range.OnText a.lines ∧ 0 < t.length
  incoming : ∀ name, ∀ g ∈ incomingCalls a.lines name,
    g.party.OnText a.lines ∧ ∀ r ∈ g.ranges, r.OnText a.lines
  outgoing : ∀ name, ∀ g ∈ outgoingCalls a.lines name,
    (Caller.function g.party).OnText a.lines ∧ ∀ r ∈ g.ranges, r.OnText a.lines
  functions : ∀ name f, functionNamed? a.lines name = some f → (Caller.function f).OnText a.lines
  hints : ∀ r, ∀ h ∈ inlayHints a.lines r, h.position.OnText a.lines
  folds : ∀ f ∈ folds a.lines, f.start < f.stop ∧ f.stop < a.lines.length

/-- Wherever a line of a document is cut at byte offsets, these are places to cut at.  Each field
says so of one way to find them: the computation that checks its offsets gives a result, and gives
the same result. -/
structure CutsOnText (lines : List Line) : Prop where
  found : ∀ k ∈ numberLines lines, ∀ (a : Pattern) (m : Match), a.Finds k.text m →
    ∀ s, (s = m.span ∨ ∃ i, m.group? i = some s) → s.Within k.text ∧
      byteRange? k.number k.text (byteOffset k.text s.start) (byteOffset k.text s.stop) =
        some (s.range k.number k.text)
  margins : ∀ k ∈ numberLines lines,
    trimmedRangeInBytes? k.number k.text = some (Range.ofTrimmed k.number k.text)
  word : ∀ p, wordAtInBytes? lines p = some (wordAt lines p)
  signature : ∀ p, signatureInBytes? lines p = some (signatureAt? lines p)
  calls : ∀ name, ∀ k ∈ codeLines lines, ∀ m ∈ (Shape.call name).all k.text,
    callRangeInBytes? name k m =
      some (Span.range ⟨m.span.start, m.span.start + name.length⟩ k.number k.text)
  tokens : ∀ t ∈ tokens lines, ∃ k ∈ numberLines lines, ∃ s kind modifiers,
    s.Within k.text ∧ Span.tokenInBytes? s k kind modifiers = some t
  colors : ∀ k ∈ numberLines lines, ∀ m ∈ hexColorText.all k.text,
    hexColorInBytes? ((m.group 1).chars k.text) = some (hexColor? ((m.group 1).chars k.text))
  typeHints : ∀ k ∈ codeLines lines, typeHintInBytes? k = some (typeHint? k)
  values : ∀ value, beginsFunctionInBytes? value = some (beginsFunction value)
  callHints : ∀ k ∈ codeLines lines, ∀ m ∈ Shape.anyCall.all k.text,
    callHintsInBytes? k m = some (callHints k m)

theorem cutsOnText (lines : List Line) : CutsOnText lines where
  found := by
    intro k _ a m hm s hs
    refine ⟨?_, byteRange?_byteOffset k.number k.text s⟩
    rcases hs with rfl | ⟨i, hi⟩
    · exact (Pattern.within_of_finds hm).1
    · exact Pattern.within_of_group? hm hi
  margins := fun k _ => trimmedRangeInBytes?_eq k.number k.text
  word := wordAtInBytes?_eq lines
  signature := signatureInBytes?_eq lines
  calls := fun _ _ _ _ hm => callRangeInBytes?_eq (Pattern.finds_of_mem_all hm)
  tokens := by
    intro t ht
    obtain ⟨k, hk, s, kind, modifiers, hs, -, rfl⟩ := exists_line_of_mem_tokens ht
    exact ⟨k, hk, s, kind, modifiers, hs, Span.tokenInBytes?_eq hs.ordered kind modifiers⟩
  colors := fun _ _ _ hm =>
    hexColorInBytes?_eq (isHexDigit_of_finds (Pattern.finds_of_mem_all hm))
  typeHints := fun k _ => typeHintInBytes?_eq k
  values := beginsFunctionInBytes?_eq
  callHints := fun _ _ _ hm => callHintsInBytes?_eq (Pattern.finds_of_mem_all hm)

theorem rangesOnText (text : Line) : RangesOnText (Analysis.of text) where
  symbols := fun _ hs => nameRange_onText hs
  diagnostics := by
    intro d hd
    obtain ⟨f, hf, rfl⟩ := List.mem_map.mp hd
    exact findings_onText hf
  declaration := fun _ _ h => declarationOf?_onText h
  occurrences := fun _ _ h => occurrences_onText h
  outline := fun _ he => outline_onText he
  lenses := fun _ hr => referenceLenses_onText hr
  colors := fun _ hc => documentColors_onText hc
  tokens := by
    intro t ht
    obtain ⟨k, hk, h⟩ := exists_line_of_mem_tokens ht
    exact h.onText hk
  incoming := fun _ _ hg => incomingCalls_onText (splitLines_ne_nil text) hg
  outgoing := fun _ _ hg => outgoingCalls_onText hg
  functions := fun _ _ h => functionNamed?_onText h
  hints := fun _ _ hh => inlayHints_onText hh
  folds := by
    intro f hf
    have hstop := foldsFrom_stop (splitLines text) 0 [] f hf
    rw [Nat.zero_add] at hstop
    exact ⟨start_lt_stop_of_mem_folds _ f hf, hstop⟩

/-- **Every range denotes existing text.**  Whatever is derived from a text lies on its lines,
between columns that split no character; no token is empty, and every fold ends on a line.  No byte
offset at which a line is cut is beyond its end or inside a character. -/
theorem ranges_on_text (text : Line) :
    RangesOnText (Analysis.of text) ∧ CutsOnText (Analysis.of text).lines :=
  ⟨rangesOnText text, cutsOnText (Analysis.of text).lines⟩

end LanguageService
