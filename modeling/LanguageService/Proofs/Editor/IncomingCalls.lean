import LanguageService.Proofs.Editor.CallHierarchy
import LanguageService.Proofs.Language.NamedCalls

/-!
# Incoming calls

The calls of a name are found from the top of the document to its end, and each is added to the
group of its caller.  No call is lost on the way, and none is listed twice.

* `CallSite lines name r`    the calls of a name in a document
* `mem_callSites_iff_callSite`, `callSites_pairwise`   these are found, in their order
* `addCall_cases`            what one more call does to the groups
* `GroupedInOrder`, `groupedInOrder_groupCalls`   what holds of the groups of calls
* `Nearest`                  the nearest function whose body reaches a line
* `document_iff_not_reaches`, `function_iff_nearest`   the caller of a line
* `IncomingCalls`, `incomingCalls_spec`   what holds of the callers of a name
-/

namespace LanguageService

/-! ## the calls of a document -/

/-- the range of the name in a call of it -/
def calledRange (name : String) (k : NumberedLine) (s : Span) : Range :=
  Span.range ⟨s.start, s.start + name.length⟩ k.number k.text

/-- The range belongs to one of the calls that are found on a code line from left to right. -/
def CallSite (lines : List Line) (name : String) (r : Range) : Prop :=
  ∃ k ∈ codeLines lines, ∃ spans, Successive (CallText name.toList k.text) spans ∧
    ∃ s ∈ spans, r = calledRange name k s

theorem mem_callSites_iff_callSite {lines : List Line} {name : String} {r : Range} :
    r ∈ callSites lines name ↔ CallSite lines name r := by
  rw [callSites, List.mem_flatMap]
  refine exists_congr fun k => and_congr_right fun _ => ?_
  rw [List.mem_map]
  constructor
  · rintro ⟨m, hm, rfl⟩
    exact ⟨_, Pattern.successive_call name k.text, m.span, List.mem_map_of_mem hm, rfl⟩
  · rintro ⟨spans, hspans, s, hs, rfl⟩
    rw [hspans.eq_call] at hs
    obtain ⟨m, hm, rfl⟩ := List.mem_map.mp hs
    exact ⟨m, hm, rfl⟩

/-- Of two calls that overlap the first is found. -/
example : callSites ["x(a(a(".toList] "(a" = [⟨⟨0, 1⟩, ⟨0, 3⟩⟩] := by decide +kernel

theorem callSite_iff_of_not_mem {lines : List Line} {name : String} (hname : '(' ∉ name.toList)
    {r : Range} : CallSite lines name r ↔
      ∃ k ∈ codeLines lines, ∃ s, CallText name.toList k.text s ∧ r = calledRange name k s := by
  refine exists_congr fun k => and_congr_right fun _ => ?_
  constructor
  · rintro ⟨spans, hspans, s, hs, rfl⟩
    exact ⟨s, hspans.found s hs, rfl⟩
  · rintro ⟨s, hs, rfl⟩
    exact ⟨_, Pattern.successive_call name k.text, s, (mem_call_iff hname).mpr hs, rfl⟩

/-- the order of the document -/
def Range.Precedes (r q : Range) : Prop :=
  r.start.line < q.start.line ∨ r.start.line = q.start.line ∧ r.start.character < q.start.character

theorem Range.Precedes.ne {r q : Range} (h : r.Precedes q) : r ≠ q := by
  rintro rfl
  rcases h with h | ⟨-, h⟩
  · exact absurd h (Nat.lt_irrefl _)
  · exact absurd h (Nat.lt_irrefl _)

theorem callSites_pairwise (lines : List Line) (name : String) :
    (callSites lines name).Pairwise Range.Precedes := by
  rw [callSites, List.pairwise_flatMap]
  refine ⟨fun k _ => ?_, (codeLines_pairwise lines).imp fun {j k} hjk r hr q hq => ?_⟩
  · have hspans := Pattern.successive_call name k.text
    refine List.pairwise_map.mpr ((List.pairwise_map.mp hspans.apart).imp_of_mem ?_)
    intro m n hm hn hapart
    have hpos := (hspans.found _ (List.mem_map_of_mem hm)).start_lt_stop
    have hcall := hspans.found _ (List.mem_map_of_mem hn)
    refine Or.inr ⟨rfl, column_strictMono _ (Nat.lt_of_lt_of_le hpos hapart) ?_⟩
    exact Nat.le_trans (Nat.le_of_lt hcall.start_lt_stop) hcall.stop_le
  · obtain ⟨m, -, rfl⟩ := List.mem_map.mp hr
    obtain ⟨n, -, rfl⟩ := List.mem_map.mp hq
    exact Or.inl hjk

/-! ## groups of calls -/

section
variable {α : Type} {name : α → String}

/-- One more call begins a new group at the end, or goes to the end of the group of its name. -/
theorem addCall_cases (name : α → String) (groups : List (CallGroup α)) (call : α × Range) :
    ((∀ g ∈ groups, name g.party ≠ name call.1) ∧
      addCall name groups call = groups ++ [⟨call.1, [call.2]⟩]) ∨
    ∃ before g after, groups = before ++ g :: after ∧ name g.party = name call.1 ∧
      addCall name groups call =
        before ++ { g with ranges := g.ranges ++ [call.2] } :: after := by
  induction groups with
  | nil => exact Or.inl ⟨fun g hg => absurd hg List.not_mem_nil, rfl⟩
  | cons h rest ih =>
    by_cases hname : name h.party = name call.1
    · exact Or.inr ⟨[], h, rest, rfl, hname, by rw [addCall, if_pos hname]; rfl⟩
    · rw [addCall, if_neg hname]
      rcases ih with ⟨hnew, heq⟩ | ⟨before, g, after, rfl, hg, heq⟩
      · exact Or.inl ⟨List.forall_mem_cons.mpr ⟨hname, hnew⟩, by rw [heq]; rfl⟩
      · exact Or.inr ⟨h :: before, g, after, rfl, hg, by rw [heq]; rfl⟩

/-- The calls that go to the groups of one name. -/
def rangesUnder (name : α → String) (calls : List (α × Range)) (party : String) : List Range :=
  (calls.filter fun c => name c.1 = party).map Prod.snd

theorem rangesUnder_concat (calls : List (α × Range)) (call : α × Range) (party : String) :
    rangesUnder name (calls ++ [call]) party =
      rangesUnder name calls party ++ if name call.1 = party then [call.2] else [] := by
  rw [rangesUnder, rangesUnder, List.filter_append, List.map_append, List.append_cancel_left_eq]
  split
  · next h => rw [List.filter_cons_of_pos (by simpa using h)]; rfl
  · next h => rw [List.filter_cons_of_neg (by simpa using h)]; rfl

theorem rangesUnder_concat_of_ne {calls : List (α × Range)} {call : α × Range} {party : String}
    (h : party ≠ name call.1) :
    rangesUnder name (calls ++ [call]) party = rangesUnder name calls party := by
  rw [rangesUnder_concat, if_neg (Ne.symm h), List.append_nil]

/-- a group as the call that it began with -/
def CallGroup.first (g : CallGroup α) : α × Option Range :=
  (g.party, g.ranges.head?)

/-- What holds of the groups of some calls: each holds the calls of its name, in their order, the
groups begin with some of the calls, in their order, and together hold every call once. -/
structure GroupedInOrder (name : α → String) (calls : List (α × Range))
    (groups : List (CallGroup α)) : Prop where
  ranges : ∀ g ∈ groups, g.ranges = rangesUnder name calls (name g.party)
  first : (groups.map CallGroup.first).Sublist (calls.map fun c => (c.1, some c.2))
  perm : (groups.flatMap CallGroup.ranges).Perm (calls.map Prod.snd)

theorem GroupedInOrder.exists_head {calls : List (α × Range)} {groups : List (CallGroup α)}
    (h : GroupedInOrder name calls groups) {g : CallGroup α} (hg : g ∈ groups) :
    ∃ r, g.ranges.head? = some r := by
  obtain ⟨c, -, hc⟩ := List.mem_map.mp (h.first.subset (List.mem_map_of_mem hg))
  exact ⟨c.2, (congrArg Prod.snd hc).symm⟩

section
variable {calls : List (α × Range)} {groups before after : List (CallGroup α)} {g : CallGroup α}
  {call : α × Range}

/-- a call of a name that no earlier one has -/
theorem GroupedInOrder.begin (h : GroupedInOrder name calls groups)
    (hgroups : ∀ g ∈ groups, name g.party ≠ name call.1)
    (hcalls : ∀ c ∈ calls, name c.1 ≠ name call.1) :
    GroupedInOrder name (calls ++ [call]) (groups ++ [⟨call.1, [call.2]⟩]) where
  ranges := by
    have hnone : rangesUnder name calls (name call.1) = [] := by
      refine List.map_eq_nil_iff.mpr (List.filter_eq_nil_iff.mpr fun c hc => ?_)
      rw [decide_eq_true_eq]
      exact hcalls c hc
    intro k hk
    rcases List.mem_append.mp hk with hk | hk
    · rw [h.ranges k hk, rangesUnder_concat_of_ne (hgroups k hk)]
    · obtain rfl := List.mem_singleton.mp hk
      rw [rangesUnder_concat, if_pos rfl, hnone]
      rfl
  first := by
    rw [List.map_append, List.map_append]
    exact h.first.append (List.Sublist.refl _)
  perm := by
    rw [List.flatMap_append, List.map_append]
    exact h.perm.append_right _

/-- a call of a name that has a group -/
theorem GroupedInOrder.add (h : GroupedInOrder name calls (before ++ g :: after))
    (hg : name g.party = name call.1)
    (hothers : ∀ k ∈ before ++ after, name k.party ≠ name call.1) :
    GroupedInOrder name (calls ++ [call])
      (before ++ { g with ranges := g.ranges ++ [call.2] } :: after) where
  ranges := by
    have hkept : ∀ k ∈ before ++ g :: after, name k.party ≠ name call.1 →
        k.ranges = rangesUnder name (calls ++ [call]) (name k.party) := by
      intro k hk hne
      rw [rangesUnder_concat_of_ne hne, h.ranges k hk]
    intro k hk
    rcases List.mem_append.mp hk with hk | hk
    · exact hkept k (List.mem_append_left _ hk) (hothers k (List.mem_append_left _ hk))
    · rcases List.mem_cons.mp hk with rfl | hk
      · rw [rangesUnder_concat, if_pos hg.symm, ← h.ranges g (by simp)]
      · exact hkept k (List.mem_append_right _ (List.mem_cons_of_mem _ hk))
          (hothers k (List.mem_append_right _ hk))
  first := by
    obtain ⟨r, hr⟩ := h.exists_head (List.mem_append_right before List.mem_cons_self)
    have hfirst : CallGroup.first { g with ranges := g.ranges ++ [call.2] } = g.first := by
      rw [CallGroup.first, CallGroup.first, List.head?_append, hr]
      rfl
    have hsame : (before ++ { g with ranges := g.ranges ++ [call.2] } :: after).map
        CallGroup.first = (before ++ g :: after).map CallGroup.first := by
      rw [List.map_append, List.map_cons, hfirst, List.map_append, List.map_cons]
    rw [hsame, @List.map_append _ _ _ calls]
    exact h.first.trans (List.sublist_append_left _ _)
  perm := by
    rw [List.map_append]
    refine List.Perm.trans ?_ (h.perm.append_right _)
    rw [List.flatMap_append, List.flatMap_append, List.flatMap_cons, List.flatMap_cons]
    simp only [List.append_assoc]
    exact (List.perm_append_comm.append_left _).append_left _

theorem GroupedInOrder.addCall (h : GroupedInOrder name calls groups)
    (hdistinct : groups.Pairwise fun g k => name g.party ≠ name k.party)
    (hlisted : ∀ c ∈ calls, ∃ g ∈ groups, name g.party = name c.1) (call : α × Range) :
    GroupedInOrder name (calls ++ [call]) (addCall name groups call) := by
  rcases addCall_cases name groups call with ⟨hnew, heq⟩ | ⟨before, g, after, rfl, hg, heq⟩
  · rw [heq]
    refine h.begin hnew fun c hc => ?_
    obtain ⟨k, hk, hname⟩ := hlisted c hc
    rw [← hname]
    exact hnew k hk
  · rw [heq]
    obtain ⟨-, hbehind, hcross⟩ := List.pairwise_append.mp hdistinct
    refine h.add hg fun k hk => ?_
    rw [← hg]
    rcases List.mem_append.mp hk with hk | hk
    · exact hcross k hk g List.mem_cons_self
    · exact Ne.symm ((List.pairwise_cons.mp hbehind).1 k hk)

end

theorem groupedInOrder_groupCalls (name : α → String) (calls : List (α × Range)) :
    GroupedInOrder name calls (groupCalls name calls) := by
  induction calls using List.reverseRecOn with
  | nil => exact ⟨fun g hg => absurd hg List.not_mem_nil, List.Sublist.refl _, List.Perm.refl _⟩
  | append_singleton calls call ih =>
    rw [groupCalls_concat]
    refine ih.addCall (groupCalls_distinct name calls) (fun c hc => ?_) call
    obtain ⟨g, hg, hname, -⟩ := (grouped_groupCalls name calls).listed c hc
    exact ⟨g, hg, hname⟩

end

/-! ## callers -/

section
variable {lines : List Line} {n : Nat}

theorem Reaches.ne_documentCaller {f : FunctionSite} (h : Reaches lines n f) :
    f.name ≠ documentCaller :=
  LanguageService.ne_documentCaller h.declared.declaredOn.isName

theorem document_iff_not_reaches :
    (Caller.of lines n).name = documentCaller ↔ ¬∃ f, Reaches lines n f := by
  rw [Caller.of]
  cases hf : enclosingFunction? lines n with
  | none =>
    refine iff_of_true rfl ?_
    rintro ⟨g, hg⟩
    obtain ⟨f, hfound, -⟩ := exists_enclosingFunction? hg
    rw [hf] at hfound
    cases hfound
  | some f =>
    have hreaches := reaches_of_enclosingFunction? hf
    exact iff_of_false hreaches.ne_documentCaller (not_not_intro ⟨f, hreaches⟩)

/-- The function is the nearest one whose body reaches line `n`. -/
structure Nearest (lines : List Line) (n : Nat) (f : FunctionSite) : Prop where
  reaches : Reaches lines n f
  nearest : ∀ g, Reaches lines n g → g.line ≤ f.line

theorem nearest_iff_enclosingFunction? {f : FunctionSite} :
    Nearest lines n f ↔ enclosingFunction? lines n = some f := by
  constructor
  · intro h
    obtain ⟨g, hfound, hle⟩ := exists_enclosingFunction? h.reaches
    have hg := reaches_of_enclosingFunction? hfound
    have hsame : f = g := h.reaches.declared.eq_of_line hg.declared
      (Nat.le_antisymm hle (h.nearest g hg))
    rw [hfound, hsame]
  · intro h
    refine ⟨reaches_of_enclosingFunction? h, fun g hg => ?_⟩
    obtain ⟨f', hfound, hle⟩ := exists_enclosingFunction? hg
    rw [h] at hfound
    rwa [Option.some.inj hfound]

theorem function_iff_nearest {caller : String} (hcaller : caller ≠ documentCaller) :
    (Caller.of lines n).name = caller ↔ ∃ f, Nearest lines n f ∧ f.name = caller := by
  constructor
  · intro h
    obtain ⟨f, hf, hname⟩ := exists_function_of_caller h hcaller
    exact ⟨f, nearest_iff_enclosingFunction?.mpr hf, hname⟩
  · rintro ⟨f, hf, rfl⟩
    rw [Caller.of, nearest_iff_enclosingFunction?.mp hf]
    rfl

end

/-! ## all together -/

/-- What is listed as the callers of a name.  The ranges of all entries are the calls of the name
that are found from left to right, which are all of them if the name holds no parenthesis, and each
is listed once; every caller has one entry, in which its calls stand in the order of the document;
the entries stand in the order of their first calls; and a call stands under the nearest function
whose body reaches its line, or under the document if no body does. -/
structure IncomingCalls (lines : List Line) (name : String) (groups : List (CallGroup Caller)) :
    Prop where
  sites : ∀ r, r ∈ groups.flatMap CallGroup.ranges ↔ CallSite lines name r
  all : '(' ∉ name.toList → ∀ r, r ∈ groups.flatMap CallGroup.ranges ↔
    ∃ k ∈ codeLines lines, ∃ s, CallText name.toList k.text s ∧ r = calledRange name k s
  once : (groups.flatMap CallGroup.ranges).Nodup
  distinct : groups.Pairwise fun g h => g.party.name ≠ h.party.name
  nonempty : ∀ g ∈ groups, g.ranges ≠ []
  inOrder : ∀ g ∈ groups, g.ranges.Pairwise Range.Precedes
  byFirst : groups.Pairwise fun g h =>
    ∃ r ∈ g.ranges.head?, ∃ q ∈ h.ranges.head?, r.Precedes q
  document : ∀ r, Listed Caller.name groups documentCaller r ↔
    CallSite lines name r ∧ ¬∃ f, Reaches lines r.start.line f
  function : ∀ caller, caller ≠ documentCaller → ∀ r, Listed Caller.name groups caller r ↔
    CallSite lines name r ∧ ∃ f, Nearest lines r.start.line f ∧ f.name = caller

/-- the calls of a name, each with its caller -/
def callsWithCallers (lines : List Line) (name : String) : List (Caller × Range) :=
  (callSites lines name).map fun r => (Caller.of lines r.start.line, r)

theorem map_snd_callsWithCallers (lines : List Line) (name : String) :
    (callsWithCallers lines name).map Prod.snd = callSites lines name := by
  rw [callsWithCallers, List.map_map]
  exact List.map_id _

theorem callsWithCallers_pairwise (lines : List Line) (name : String) :
    (callsWithCallers lines name).Pairwise fun c d => c.2.Precedes d.2 := by
  have horder := callSites_pairwise lines name
  rw [← map_snd_callsWithCallers] at horder
  exact List.pairwise_map.mp horder

section
variable (lines : List Line) (name : String)

theorem groupedInOrder_incomingCalls : GroupedInOrder Caller.name (callsWithCallers lines name)
    (incomingCalls lines name) :=
  groupedInOrder_groupCalls _ _

theorem ranges_incomingCalls_perm :
    ((incomingCalls lines name).flatMap CallGroup.ranges).Perm (callSites lines name) := by
  have hperm := (groupedInOrder_incomingCalls lines name).perm
  rwa [map_snd_callsWithCallers] at hperm

theorem mem_ranges_incomingCalls_iff (r : Range) :
    r ∈ (incomingCalls lines name).flatMap CallGroup.ranges ↔ CallSite lines name r := by
  rw [(ranges_incomingCalls_perm lines name).mem_iff, mem_callSites_iff_callSite]

theorem listed_incomingCalls_iff_callSite {caller : String} {r : Range} :
    Listed Caller.name (incomingCalls lines name) caller r ↔
      CallSite lines name r ∧ (Caller.of lines r.start.line).name = caller := by
  rw [incomingCalls, listed_groupCalls_iff, ← mem_callSites_iff_callSite]
  constructor
  · rintro ⟨c, hc, hcaller, rfl⟩
    obtain ⟨r, hr, rfl⟩ := List.mem_map.mp hc
    exact ⟨hr, hcaller⟩
  · rintro ⟨hr, hcaller⟩
    exact ⟨_, List.mem_map_of_mem hr, hcaller, rfl⟩

/-- **Incoming calls.**  Every call of a name is listed once, in the entry of its caller; the entries
and the calls in each of them stand in the order of the document. -/
theorem incomingCalls_spec : IncomingCalls lines name (incomingCalls lines name) where
  sites := mem_ranges_incomingCalls_iff lines name
  all := by
    intro hname r
    rw [mem_ranges_incomingCalls_iff, callSite_iff_of_not_mem hname]
  once := by
    rw [(ranges_incomingCalls_perm lines name).nodup_iff]
    exact (callSites_pairwise lines name).imp Range.Precedes.ne
  distinct := groupCalls_distinct _ _
  nonempty := by
    intro g hg
    obtain ⟨r, hr⟩ := (groupedInOrder_incomingCalls lines name).exists_head hg
    exact List.ne_nil_of_mem (List.mem_of_head? hr)
  inOrder := by
    intro g hg
    rw [(groupedInOrder_incomingCalls lines name).ranges g hg]
    exact List.pairwise_map.mpr
      ((callsWithCallers_pairwise lines name).sublist List.filter_sublist)
  byFirst := by
    have hfirsts : ((callsWithCallers lines name).map fun c => (c.1, some c.2)).Pairwise
        fun x y => ∃ r ∈ x.2, ∃ q ∈ y.2, r.Precedes q :=
      List.pairwise_map.mpr ((callsWithCallers_pairwise lines name).imp fun {c d} hcd =>
        ⟨c.2, rfl, d.2, rfl, hcd⟩)
    exact List.pairwise_map.mp
      (hfirsts.sublist (groupedInOrder_incomingCalls lines name).first)
  document := by
    intro r
    rw [listed_incomingCalls_iff_callSite, document_iff_not_reaches]
  function := by
    intro caller hcaller r
    rw [listed_incomingCalls_iff_callSite, function_iff_nearest hcaller]

end

end LanguageService
