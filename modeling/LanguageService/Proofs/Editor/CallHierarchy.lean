import Mathlib.Data.List.Induction
import LanguageService.Proofs.Editor.FunctionSite

/-!
# Calls from both sides

Who calls a function is found from the places of the calls, by the function to whose body each of
them belongs; whom a function calls is found from its body.  Both searches find the same calls.

* `Listed`, `listed_groupCalls_iff`   where a range is listed
* `Grouped`                           groups hold the calls that they are made of
* `listed_incomingCalls_iff`, `listed_outgoingCalls_iff`   what is listed on both sides
* `listed_outgoingCalls_of_incomingCalls`   from the callee to the caller
* `calledFrom_of_outgoingCalls`       from the caller to the callee
* `incoming_outgoing_dual`            both directions together
-/

namespace LanguageService

/-! ## groups of calls -/

section
variable {α : Type} (name : α → String)

/-- the range is listed under a party of this name -/
def Listed (groups : List (CallGroup α)) (party : String) (r : Range) : Prop :=
  ∃ g ∈ groups, name g.party = party ∧ r ∈ g.ranges

instance (groups : List (CallGroup α)) (party : String) (r : Range) :
    Decidable (Listed name groups party r) :=
  inferInstanceAs (Decidable (∃ g ∈ groups, name g.party = party ∧ r ∈ g.ranges))

/-- The groups hold these calls and no others. -/
structure Grouped (calls : List (α × Range)) (groups : List (CallGroup α)) : Prop where
  party : ∀ g ∈ groups, ∃ c ∈ calls, c.1 = g.party
  ranges : ∀ g ∈ groups, ∀ r ∈ g.ranges, ∃ c ∈ calls, name c.1 = name g.party ∧ c.2 = r
  listed : ∀ c ∈ calls, Listed name groups (name c.1) c.2

variable {name}

theorem listed_addCall_of_listed {groups : List (CallGroup α)} (call : α × Range) {party : String}
    {r : Range} (hl : Listed name groups party r) :
    Listed name (addCall name groups call) party r := by
  obtain ⟨g, hg, hparty, hr⟩ := hl
  induction groups with
  | nil => exact absurd hg List.not_mem_nil
  | cons h rest ih =>
    unfold addCall
    split
    · rcases List.mem_cons.mp hg with rfl | hg
      · exact ⟨_, List.mem_cons_self, hparty, List.mem_append_left _ hr⟩
      · exact ⟨g, List.mem_cons_of_mem _ hg, hparty, hr⟩
    · rcases List.mem_cons.mp hg with rfl | hg
      · exact ⟨g, List.mem_cons_self, hparty, hr⟩
      · obtain ⟨k, hk, hkparty, hkr⟩ := ih hg
        exact ⟨k, List.mem_cons_of_mem _ hk, hkparty, hkr⟩

theorem listed_addCall (groups : List (CallGroup α)) (call : α × Range) :
    Listed name (addCall name groups call) (name call.1) call.2 := by
  induction groups with
  | nil => exact ⟨_, List.mem_cons_self, rfl, List.mem_cons_self⟩
  | cons h rest ih =>
    unfold addCall
    split
    · next heq =>
      exact ⟨_, List.mem_cons_self, heq, List.mem_append_right _ List.mem_cons_self⟩
    · obtain ⟨k, hk, hkparty, hkr⟩ := ih
      exact ⟨k, List.mem_cons_of_mem _ hk, hkparty, hkr⟩

theorem grouped_addCall {calls : List (α × Range)} {groups : List (CallGroup α)}
    (h : Grouped name calls groups) (call : α × Range) :
    Grouped name (calls ++ [call]) (addCall name groups call) where
  party := by
    intro g hg
    have hold : ∀ k ∈ groups, ∃ c ∈ calls ++ [call], c.1 = k.party := by
      intro k hk
      obtain ⟨c, hc, hparty⟩ := h.party k hk
      exact ⟨c, List.mem_append_left _ hc, hparty⟩
    rcases mem_addCall hg with hg | rfl | ⟨k, hk, -, rfl⟩
    · exact hold g hg
    · exact ⟨call, by simp, rfl⟩
    · exact hold k hk
  ranges := by
    intro g hg r hr
    have hold : ∀ k ∈ groups, r ∈ k.ranges →
        ∃ c ∈ calls ++ [call], name c.1 = name k.party ∧ c.2 = r := by
      intro k hk hr
      obtain ⟨c, hc, hcall⟩ := h.ranges k hk r hr
      exact ⟨c, List.mem_append_left _ hc, hcall⟩
    rcases mem_addCall hg with hg | rfl | ⟨k, hk, hname, rfl⟩
    · exact hold g hg hr
    · exact ⟨call, by simp, rfl, (List.mem_singleton.mp hr).symm⟩
    · rcases List.mem_append.mp hr with hr | hr
      · exact hold k hk hr
      · exact ⟨call, by simp, hname.symm, (List.mem_singleton.mp hr).symm⟩
  listed := by
    intro c hc
    rcases List.mem_append.mp hc with hc | hc
    · exact listed_addCall_of_listed call (h.listed c hc)
    · rw [List.mem_singleton.mp hc]
      exact listed_addCall groups call

theorem groupCalls_concat (name : α → String) (calls : List (α × Range)) (call : α × Range) :
    groupCalls name (calls ++ [call]) = addCall name (groupCalls name calls) call := by
  rw [groupCalls, List.foldl_append]
  rfl

theorem grouped_groupCalls (name : α → String) (calls : List (α × Range)) :
    Grouped name calls (groupCalls name calls) := by
  induction calls using List.reverseRecOn with
  | nil =>
    exact ⟨fun g hg => absurd hg List.not_mem_nil, fun g hg => absurd hg List.not_mem_nil,
      fun c hc => absurd hc List.not_mem_nil⟩
  | append_singleton calls call ih =>
    rw [groupCalls_concat]
    exact grouped_addCall ih call

theorem listed_groupCalls_iff {calls : List (α × Range)} {party : String} {r : Range} :
    Listed name (groupCalls name calls) party r ↔ ∃ c ∈ calls, name c.1 = party ∧ c.2 = r := by
  have hgrouped := grouped_groupCalls name calls
  constructor
  · intro h
    obtain ⟨g, hg, rfl, hr⟩ := h
    exact hgrouped.ranges g hg r hr
  · intro h
    obtain ⟨c, hc, rfl, rfl⟩ := h
    exact hgrouped.listed c hc

end

/-! ## what is listed -/

/-- On line `k` the word at `s` is a call of this name. -/
structure CallAt (name : String) (k : NumberedLine) (s : Span) : Prop where
  called : s ∈ calledWords k.text
  text : s.text k.text = name

theorem mem_callSites_iff {lines : List Line} {name : String} (hname : IsName name.toList)
    {r : Range} : r ∈ callSites lines name ↔
      ∃ k ∈ codeLines lines, ∃ s, CallAt name k s ∧ r = s.range k.number k.text := by
  have hline : ∀ k : NumberedLine, ((Shape.call name).all k.text).map (fun m =>
      Span.range ⟨m.span.start, m.span.start + name.length⟩ k.number k.text) =
      ((calledWords k.text).filter fun s => s.chars k.text == name.toList).map
        fun s => s.range k.number k.text := by
    intro k
    rw [← start_all_call hname.isWordText, List.map_map]
    rfl
  rw [callSites, List.mem_flatMap]
  refine exists_congr fun k => and_congr_right fun _ => ?_
  rw [hline, List.mem_map]
  refine exists_congr fun s => ?_
  rw [List.mem_filter, beq_iff_eq]
  constructor
  · intro h
    obtain ⟨⟨hcalled, hchars⟩, rfl⟩ := h
    exact ⟨⟨hcalled, Span.text_eq_iff.mpr hchars⟩, rfl⟩
  · intro h
    obtain ⟨hcall, rfl⟩ := h
    exact ⟨⟨hcall.called, Span.text_eq_iff.mp hcall.text⟩, rfl⟩

theorem listed_incomingCalls_iff {lines : List Line} {name : String} (hname : IsName name.toList)
    {caller : String} {r : Range} :
    Listed Caller.name (incomingCalls lines name) caller r ↔ ∃ k ∈ codeLines lines, ∃ s,
      CallAt name k s ∧ r = s.range k.number k.text ∧ (Caller.of lines k.number).name = caller := by
  rw [incomingCalls, listed_groupCalls_iff]
  constructor
  · intro h
    obtain ⟨c, hc, hcaller, rfl⟩ := h
    obtain ⟨r, hr, rfl⟩ := List.mem_map.mp hc
    obtain ⟨k, hk, s, hs, rfl⟩ := (mem_callSites_iff hname).mp hr
    exact ⟨k, hk, s, hs, rfl, hcaller⟩
  · intro h
    obtain ⟨k, hk, s, hs, rfl, hcaller⟩ := h
    have hr := (mem_callSites_iff hname).mpr ⟨k, hk, s, hs, rfl⟩
    exact ⟨_, List.mem_map.mpr ⟨_, hr, rfl⟩, hcaller, rfl⟩

theorem mem_calleesOnLine_iff {lines : List Line} {k : NumberedLine} {f : FunctionSite} {r : Range} :
    (f, r) ∈ calleesOnLine lines k ↔ IsName f.name.toList ∧ isReserved f.name = false ∧
      functionNamed? lines f.name = some f ∧
        ∃ s, CallAt f.name k s ∧ r = s.range k.number k.text := by
  have hgroup : calleesOnLine lines k =
      ((calledWords k.text).filter fun s => isNameText (s.chars k.text)).filterMap fun s =>
        if isReserved (s.text k.text) then none
        else (functionNamed? lines (s.text k.text)).map fun f => (f, s.range k.number k.text) := by
    rw [← group_all_anyCall, List.filterMap_map]
    rfl
  rw [hgroup, List.mem_filterMap]
  constructor
  · intro h
    obtain ⟨s, hs, hcall⟩ := h
    obtain ⟨hcalled, hname⟩ := List.mem_filter.mp hs
    have hname : IsName (s.text k.text).toList := by
      rw [Span.toList_text]
      exact (isNameText_iff _).mp hname
    split at hcall
    · cases hcall
    · next hreserved =>
      obtain ⟨f', hf, hpair⟩ := Option.map_eq_some_iff.mp hcall
      obtain ⟨rfl, rfl⟩ := Prod.mk.inj hpair
      obtain ⟨hfname, -⟩ := declaredOn_of_functionNamed? hname hf
      rw [← hfname] at hname hreserved hf
      exact ⟨hname, Bool.eq_false_iff.mpr hreserved, hf, s, ⟨hcalled, hfname.symm⟩, rfl⟩
  · intro h
    obtain ⟨hname, hreserved, hf, s, hs, rfl⟩ := h
    have hchars : isNameText (s.chars k.text) = true := by
      rw [← hs.text, Span.toList_text] at hname
      exact (isNameText_iff _).mpr hname
    refine ⟨s, List.mem_filter.mpr ⟨hs.called, hchars⟩, ?_⟩
    rw [hs.text, hreserved, hf]
    rfl

theorem listed_outgoingCalls_iff {lines : List Line} {name callee : String} {r : Range} :
    Listed FunctionSite.name (outgoingCalls lines name) callee r ↔
      ∃ f, functionNamed? lines name = some f ∧ ∃ k ∈ codeLines lines,
        (f.line ≤ k.number ∧ k.number ≤ blockEnd lines f.line) ∧
        IsName callee.toList ∧ isReserved callee = false ∧
        (functionNamed? lines callee).isSome = true ∧
        ∃ s, CallAt callee k s ∧ r = s.range k.number k.text := by
  rw [outgoingCalls]
  cases functionNamed? lines name with
  | none =>
    constructor
    · intro h
      obtain ⟨g, hg, -⟩ := h
      exact absurd hg List.not_mem_nil
    · intro h
      obtain ⟨f, hf, -⟩ := h
      cases hf
  | some f =>
    simp only
    rw [listed_groupCalls_iff]
    constructor
    · intro h
      obtain ⟨⟨g, r⟩, hc, rfl, rfl⟩ := h
      obtain ⟨k, hk, hcall⟩ := List.mem_flatMap.mp hc
      obtain ⟨hk, hspan⟩ := List.mem_filter.mp hk
      rw [Bool.and_eq_true, decide_eq_true_eq, decide_eq_true_eq] at hspan
      obtain ⟨hname, hreserved, hg, s, hs, rfl⟩ := mem_calleesOnLine_iff.mp hcall
      exact ⟨f, rfl, k, hk, hspan, hname, hreserved, by rw [hg]; rfl, s, hs, rfl⟩
    · intro h
      obtain ⟨f', hf, k, hk, hspan, hname, hreserved, hfound, s, hs, rfl⟩ := h
      obtain rfl := Option.some.inj hf
      obtain ⟨g, hg⟩ := Option.isSome_iff_exists.mp hfound
      obtain ⟨rfl, -⟩ := declaredOn_of_functionNamed? hname hg
      have hcall : (g, s.range k.number k.text) ∈ calleesOnLine lines k :=
        mem_calleesOnLine_iff.mpr ⟨hname, hreserved, hg, s, hs, rfl⟩
      have hbody : k ∈ (codeLines lines).filter fun l =>
          f.line ≤ l.number && l.number ≤ blockEnd lines f.line := by
        refine List.mem_filter.mpr ⟨hk, ?_⟩
        rw [Bool.and_eq_true, decide_eq_true_eq, decide_eq_true_eq]
        exact hspan
      exact ⟨_, List.mem_flatMap.mpr ⟨k, hbody, hcall⟩, rfl, rfl⟩

/-! ## both sides -/

theorem ne_documentCaller {name : String} (h : IsName name.toList) : name ≠ documentCaller := by
  rintro rfl
  exact absurd ((isNameText_iff _).mpr h) (by decide)

theorem exists_function_of_caller {lines : List Line} {n : Nat} {name : String}
    (h : (Caller.of lines n).name = name) (hname : name ≠ documentCaller) :
    ∃ f, enclosingFunction? lines n = some f ∧ f.name = name := by
  rw [Caller.of] at h
  cases hf : enclosingFunction? lines n with
  | none =>
    rw [hf] at h
    exact absurd h.symm hname
  | some f =>
    rw [hf] at h
    exact ⟨f, rfl, h⟩

/-- From the callee to the caller: a call that is listed under a caller of one declaration is listed
among what this caller calls. -/
theorem listed_outgoingCalls_of_incomingCalls {lines : List Line} {f g : String}
    (hf : f ≠ documentCaller) (hg : IsName g.toList) (hreserved : isReserved g = false)
    (hfound : (functionNamed? lines g).isSome = true)
    (hone : lines.countP (Shape.function f).occurs ≤ 1) {r : Range}
    (hr : Listed Caller.name (incomingCalls lines g) f r) :
    Listed FunctionSite.name (outgoingCalls lines f) g r := by
  obtain ⟨k, hk, s, hs, rfl, hcaller⟩ := (listed_incomingCalls_iff hg).mp hr
  obtain ⟨h, hencloses, rfl⟩ := exists_function_of_caller hcaller hf
  have hreaches := reaches_of_enclosingFunction? hencloses
  have hdeclared := hreaches.declared.declaredOn
  obtain ⟨site, hsite⟩ := hdeclared.exists_functionNamed?
  -- only one line declares the name, so both searches start from it
  have hline : site.line = h.line :=
    DeclaredOn.eq_of_countP hone (declaredOn_of_functionNamed? hdeclared.isName hsite).2 hdeclared
  have hspan : site.line ≤ k.number ∧ k.number ≤ blockEnd lines site.line := by
    rw [hline]
    exact ⟨hreaches.above, hreaches.reached⟩
  exact listed_outgoingCalls_iff.mpr
    ⟨site, hsite, k, hk, hspan, hg, hreserved, hfound, s, hs, rfl⟩

/-- A range is listed as a call of `g` under the name of a function `h`, which is declared from line
`first` on and whose body reaches the range.  The entry holds a function of this name, which is `h`
itself if no other line declares the name. -/
structure CalledFrom (lines : List Line) (g : String) (r : Range) (first : Nat) (h : FunctionSite) :
    Prop where
  reaches : Reaches lines r.start.line h
  below : first ≤ h.line
  ne_document : h.name ≠ documentCaller
  entry : ∃ e ∈ incomingCalls lines g, r ∈ e.ranges ∧ ∃ k : FunctionSite,
    e.party = .function k ∧ k.name = h.name ∧ k.DeclaredIn lines ∧
      (lines.countP (Shape.function h.name).occurs ≤ 1 → k = h)

theorem exists_party {lines : List Line} {g : String} {e : CallGroup Caller}
    (he : e ∈ incomingCalls lines g) : ∃ n, e.party = Caller.of lines n := by
  have hgrouped := grouped_groupCalls Caller.name
    ((callSites lines g).map fun r => (Caller.of lines r.start.line, r))
  obtain ⟨c, hc, hparty⟩ := hgrouped.party e he
  obtain ⟨r, -, rfl⟩ := List.mem_map.mp hc
  exact ⟨r.start.line, hparty.symm⟩

/-- From the caller to the callee: what a function calls is listed under a function that is declared
in its body, or under itself. -/
theorem calledFrom_of_outgoingCalls {lines : List Line} {f g : String} (hf : IsName f.toList)
    {r : Range} (hr : Listed FunctionSite.name (outgoingCalls lines f) g r) :
    ∃ site h, functionNamed? lines f = some site ∧ CalledFrom lines g r site.line h := by
  obtain ⟨site, hsite, k, hk, hspan, hg, -, -, s, hs, rfl⟩ := listed_outgoingCalls_iff.mp hr
  -- the general pattern finds some function on the line of the declaration
  obtain ⟨a, ha, haline⟩ := (declaredOn_of_functionNamed? hf hsite).2.exists_declaredIn
  have hreaches : Reaches lines k.number a :=
    ⟨ha, by rw [haline]; exact hspan.1, by rw [haline]; exact hspan.2⟩
  obtain ⟨h, hencloses, hbelow⟩ := exists_enclosingFunction? hreaches
  have hreached := reaches_of_enclosingFunction? hencloses
  have hname : h.name ≠ documentCaller := ne_documentCaller hreached.declared.declaredOn.isName
  have hcaller : (Caller.of lines k.number).name = h.name := by
    rw [Caller.of, hencloses]
    rfl
  obtain ⟨e, he, hparty, hmem⟩ := (listed_incomingCalls_iff hg).mpr ⟨k, hk, s, hs, rfl, hcaller⟩
  obtain ⟨n, hn⟩ := exists_party he
  rw [hn] at hparty
  obtain ⟨c, hc, hcname⟩ := exists_function_of_caller hparty hname
  have hcdeclared := (reaches_of_enclosingFunction? hc).declared
  have hsame : lines.countP (Shape.function h.name).occurs ≤ 1 → c = h := by
    intro hone
    have hcon := hcdeclared.declaredOn
    rw [hcname] at hcon
    exact hcdeclared.eq_of_line hreached.declared
      (hcon.eq_of_countP hone hreached.declared.declaredOn)
  refine ⟨site, h, hsite, hreached, by omega, hname, e, he, hmem, c, ?_, hcname, hcdeclared, hsame⟩
  rw [hn, Caller.of, hc]

/-- **Calls from both sides.**  What is listed under a function as a call of an identifier is listed
for this function under the identifier, if at most one line declares the function; and what is
listed for a function is listed under it or under a function declared in its body. -/
theorem incoming_outgoing_dual (lines : List Line) :
    (∀ f g : String, f ≠ documentCaller → IsName g.toList → isReserved g = false →
      (functionNamed? lines g).isSome = true →
      lines.countP (Shape.function f).occurs ≤ 1 →
      ∀ r, Listed Caller.name (incomingCalls lines g) f r →
        Listed FunctionSite.name (outgoingCalls lines f) g r) ∧
    ∀ f g : String, IsName f.toList →
      ∀ r, Listed FunctionSite.name (outgoingCalls lines f) g r →
        ∃ site h, functionNamed? lines f = some site ∧ CalledFrom lines g r site.line h :=
  ⟨fun _ _ hf hg hreserved hfound hone _ hr =>
      listed_outgoingCalls_of_incomingCalls hf hg hreserved hfound hone hr,
    fun _ _ hf _ hr => calledFrom_of_outgoingCalls hf hr⟩

/-- The second function calls the first, and so does the document. -/
def nestedLines : List Line :=
  ["let helper = func(x) \x7b".toList, "  return x".toList, "\x7d".toList,
    "let main = func() \x7b".toList, "  helper(1)".toList, "\x7d".toList, "helper(2)".toList]

theorem dual_nestedLines :
    Listed FunctionSite.name (outgoingCalls nestedLines "main") "helper" ⟨⟨4, 2⟩, ⟨4, 8⟩⟩ ∧
      ∃ site h, functionNamed? nestedLines "main" = some site ∧
        CalledFrom nestedLines "helper" ⟨⟨4, 2⟩, ⟨4, 8⟩⟩ site.line h := by
  have hmain : IsName "main".toList := (isNameText_iff _).mp (by decide)
  have hhelper : IsName "helper".toList := (isNameText_iff _).mp (by decide)
  have hincoming : Listed Caller.name (incomingCalls nestedLines "helper") "main"
      ⟨⟨4, 2⟩, ⟨4, 8⟩⟩ := by decide +kernel
  have houtgoing := (incoming_outgoing_dual nestedLines).1 "main" "helper" (by decide) hhelper
    (by decide +kernel) (by decide +kernel) (by decide +kernel) _ hincoming
  exact ⟨houtgoing, (incoming_outgoing_dual nestedLines).2 "main" "helper" hmain _ houtgoing⟩

/-- Names that begin with a digit; the last line is in no function. -/
def numeralLines : List Line :=
  ["let 1g = func()".toList, "let g = func()".toList, "let f = func() 1g()".toList,
    "let 1f = func() g()".toList, "g()".toList]

/-- Two functions of one name call the first function, the second of them in the body of `f`. -/
def namesakeLines : List Line :=
  ["let g = func()".toList, "let h = func() g()".toList, "let f = func() \x7b".toList,
    "  let h = func() g()".toList, "\x7d".toList]

/-- Neither direction holds of all names: a name may be declared that is no identifier, and the name
of the document declares nothing.  And where two functions share a name, an entry may hold one that
is declared elsewhere. -/
theorem not_dual_of_all_names :
    (¬ ∀ f g : String, isReserved g = false → (functionNamed? numeralLines g).isSome = true →
      numeralLines.countP (Shape.function f).occurs ≤ 1 →
      ∀ r, Listed Caller.name (incomingCalls numeralLines g) f r →
        Listed FunctionSite.name (outgoingCalls numeralLines f) g r) ∧
    (¬ ∀ g : String, IsName g.toList →
      ∀ r, Listed Caller.name (incomingCalls numeralLines g) documentCaller r →
        Listed FunctionSite.name (outgoingCalls numeralLines documentCaller) g r) ∧
    (¬ ∀ f g : String, ∀ r, Listed FunctionSite.name (outgoingCalls numeralLines f) g r →
      ∃ e ∈ incomingCalls numeralLines g, r ∈ e.ranges ∧ e.party ≠ .document) ∧
    ¬ ∀ f g : String, ∀ site, functionNamed? namesakeLines f = some site →
      ∀ r, Listed FunctionSite.name (outgoingCalls namesakeLines f) g r →
        ∃ e ∈ incomingCalls namesakeLines g, r ∈ e.ranges ∧ ∃ h : FunctionSite,
          e.party = .function h ∧ site.line ≤ h.line := by
  refine ⟨fun h => ?_, fun h => ?_, fun h => ?_, fun h => ?_⟩
  · have hlisted := h "f" "1g" (by decide +kernel) (by decide +kernel) (by decide +kernel)
      ⟨⟨2, 15⟩, ⟨2, 17⟩⟩ (by decide +kernel)
    exact absurd hlisted (by decide +kernel)
  · have hlisted := h "g" ((isNameText_iff _).mp (by decide)) ⟨⟨4, 0⟩, ⟨4, 1⟩⟩ (by decide +kernel)
    exact absurd hlisted (by decide +kernel)
  · have hentry := h "1f" "g" ⟨⟨3, 16⟩, ⟨3, 17⟩⟩ (by decide +kernel)
    exact absurd hentry (by decide +kernel)
  · have hsite : functionNamed? namesakeLines "f" =
        some ⟨"f", 2, "let f = func() \x7b".toList, ⟨⟨2, 4⟩, ⟨2, 5⟩⟩⟩ := by decide +kernel
    have hentries : incomingCalls namesakeLines "g" =
        [⟨.function ⟨"h", 1, "let h = func() g()".toList, ⟨⟨1, 4⟩, ⟨1, 5⟩⟩⟩,
          [⟨⟨1, 15⟩, ⟨1, 16⟩⟩, ⟨⟨3, 17⟩, ⟨3, 18⟩⟩]⟩] := by decide +kernel
    obtain ⟨e, he, -, f, hparty, hline⟩ :=
      h "f" "g" _ hsite ⟨⟨3, 17⟩, ⟨3, 18⟩⟩ (by decide +kernel)
    rw [hentries] at he
    obtain rfl := List.mem_singleton.mp he
    obtain rfl := Caller.function.inj hparty
    exact absurd hline (by decide)

end LanguageService
