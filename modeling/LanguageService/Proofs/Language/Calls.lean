import Mathlib.Data.List.Basic
import LanguageService.Proofs.Language.Declarations

/-!
# Shapes of calls

A call is a word, white space and an opening parenthesis.  The search for calls of any identifier
and the search for calls of one given name find the same places.

* `callGap r`            how much of the text behind a name makes it a call
* `calledWords l`        the words of a line that are called
* `all_anyCall`, `all_call`, `group_all_anyCall`, `start_all_call`   the matches of both patterns
* `DeclaresName`         a line that declares a function of a given name
* `occurs_function_iff`, `exists_anyFunction`   the search for such a line, by name and in general
-/

namespace LanguageService

/-- how many characters of the text behind a name make it a call -/
def callGap (r : Line) : Option Nat :=
  if (r.dropWhile isBlank).head? = some '(' then some ((r.takeWhile isBlank).length + 1) else none

theorem not_isBlank_paren : isBlank '(' = false := by decide

theorem not_isWord_paren : isWord '(' = false := by decide +kernel

theorem head?_paren (s : Line) : (('(' : Char) :: s).head?.any isBlank = false :=
  not_isBlank_paren

theorem callGap_open {g : Line} (hg : AllBlank g) (s : Line) :
    callGap (g ++ '(' :: s) = some (g.length + 1) := by
  have htake : (g ++ '(' :: s).takeWhile isBlank = g := takeWhile_append_of_run hg (head?_paren s)
  have hdrop : (g ++ '(' :: s).dropWhile isBlank = '(' :: s := by
    have hsplit := List.takeWhile_append_dropWhile (p := isBlank) (l := g ++ '(' :: s)
    rw [htake] at hsplit
    exact List.append_cancel_left hsplit
  rw [callGap, htake, hdrop]
  exact if_pos rfl

theorem exists_of_callGap {r : Line} {k : Nat} (h : callGap r = some k) :
    ∃ g s, r = g ++ '(' :: s ∧ AllBlank g ∧ k = g.length + 1 := by
  unfold callGap at h
  split at h
  · next hhead =>
    obtain ⟨s, hs⟩ := List.head?_eq_some_iff.mp hhead
    refine ⟨r.takeWhile isBlank, s, ?_, List.all_eq_true.mp List.all_takeWhile,
      (Option.some.inj h).symm⟩
    rw [← hs, List.takeWhile_append_dropWhile]
  · cases h

theorem callGap_gap {r : Line} {k : Nat} (h : callGap r = some k) :
    k ≤ r.length ∧ ∀ c ∈ r.take k, isWord c = false := by
  obtain ⟨g, s, rfl, hg, rfl⟩ := exists_of_callGap h
  have htake : (g ++ '(' :: s).take (g.length + 1) = g ++ ['('] := by
    rw [List.take_length_add_append]
    rfl
  refine ⟨by simp, fun c hc => ?_⟩
  rw [htake] at hc
  rcases List.mem_append.mp hc with hc | hc
  · exact not_isWord_of_isBlank (hg c hc)
  · rw [List.mem_singleton.mp hc]
    exact not_isWord_paren

theorem callName_unique {w r v g y : Line} (hw : IsWordText w) (hr : startsInWord r = false)
    (hv : IsWordText v) (hg : AllBlank g) (hline : w ++ r = v ++ (g ++ ['(']) ++ y) :
    w = v ∧ r = g ++ '(' :: y := by
  refine run_unique hw.isWord hr hv.isWord (startsInWord_gap hg not_isWord_paren y) ?_
  rw [hline]
  simp only [List.append_assoc, List.singleton_append]

namespace Pattern

/-! ## calls -/

section
variable {a : Pattern} {T : Line → Bool} {G : Span → List (Nat × Span)}
  (ha : ∀ p x y gs, Fits a p x y gs ↔ T x = true ∧ gs = G ⟨p.length, p.length + x.length⟩)
  (hT : ∀ x, T x = true → IsWordText x)
include ha hT

theorem fits_call {p x y : Line} {gs : List (Nat × Span)} :
    Fits (inOrder [wordEdge, a, blanks, literal ['(']]) p x y gs ↔
      endsInWord p = false ∧ ∃ w g, x = w ++ (g ++ ['(']) ∧ T w = true ∧ AllBlank g ∧
        gs = G ⟨p.length, p.length + w.length⟩ := by
  show Fits (seq wordEdge (seq a (seq blanks (literal ['('])))) p x y gs ↔ _
  rw [fits_wordEdge_seq]
  constructor
  · intro h
    obtain ⟨hp, w, _, _, _, hfit, ⟨g, _, _, _, hblanks, hparen, rfl, rfl⟩, rfl, rfl⟩ := h
    obtain ⟨hw, rfl⟩ := (ha _ _ _ _).mp hfit
    obtain ⟨hg, rfl⟩ := fits_blanks.mp hblanks
    obtain ⟨rfl, rfl⟩ := (fits_literal _).mp hparen
    rw [List.append_assoc, (hT w hw).startsInWord_append] at hp
    exact ⟨Bool.eq_false_iff.mpr hp, w, g, rfl, hw, hg, rfl⟩
  · intro h
    obtain ⟨hp, w, g, rfl, hw, hg, rfl⟩ := h
    rw [List.append_assoc, (hT w hw).startsInWord_append, hp]
    exact ⟨by decide, w, g ++ ['('], _, [], (ha _ _ _ _).mpr ⟨hw, rfl⟩,
      ⟨g, ['('], [], [], fits_blanks.mpr ⟨hg, rfl⟩, (fits_literal _).mpr ⟨rfl, rfl⟩, rfl, rfl⟩,
      rfl, rfl⟩

theorem beginsWithWord_call :
    BeginsWithWord (inOrder [wordEdge, a, blanks, literal ['(']])
      (fun w r => if T w = true then callGap r else none) G where
  word := by
    intro p w r hp hw hr
    cases hreach : (if T w = true then callGap r else none) with
    | none =>
      refine (matchAt?_eq_none_iff _ p _).mpr ?_
      intro x y gs hline hf
      obtain ⟨-, v, g, rfl, hv, hg, rfl⟩ := (fits_call ha hT).mp hf
      obtain ⟨rfl, rfl⟩ := callName_unique hw hr (hT v hv) hg hline
      rw [if_pos hv, callGap_open hg] at hreach
      cases hreach
    | some k =>
      split at hreach
      · next ht =>
        obtain ⟨g, s, rfl, hg, rfl⟩ := exists_of_callGap hreach
        have hf := (fits_call ha hT (y := s)).mpr ⟨hp, w, g, rfl, ht, hg, rfl⟩
        have hmatch := matchAt?_eq_some_of_unique hf ?_
        · have hline : w ++ (g ++ '(' :: s) = w ++ (g ++ ['(']) ++ s := by simp
          have hlen : p.length + (w ++ (g ++ ['('])).length =
              p.length + w.length + (g.length + 1) := by
            simp only [List.length_append, List.length_singleton]
            omega
          rw [hline, hmatch, hlen]
          rfl
        · intro x y gs hline hf'
          obtain ⟨-, v, g', rfl, hv, hg', rfl⟩ := (fits_call ha hT).mp hf'
          have hline : w ++ (g ++ '(' :: s) = v ++ (g' ++ ['(']) ++ y := by
            rw [← hline]
            simp
          obtain ⟨rfl, hrest⟩ := callName_unique hw hr (hT v hv) hg' hline
          obtain ⟨rfl, -⟩ := run_unique hg (head?_paren s) hg' (head?_paren y) hrest
          exact ⟨rfl, rfl⟩
      · cases hreach
  elsewhere := by
    intro p b hat
    refine (matchAt?_eq_none_iff _ p b).mpr ?_
    intro x y gs hb hf
    obtain ⟨hp, w, g, rfl, hw, -, -⟩ := (fits_call ha hT).mp hf
    rw [hb, List.append_assoc, (hT w hw).startsInWord_append, hp] at hat
    exact absurd hat (by decide)
  gap := by
    intro w r k hk
    split at hk
    · exact callGap_gap hk
    · cases hk

end

end Pattern

/-- the words of a line that are called -/
def calledWords (l : Line) : List Span :=
  (wordRuns l).filter fun s => (callGap (l.drop s.stop)).isSome

theorem stop_of_mem_calledWords {l : Line} {s : Span} (h : s ∈ calledWords l) :
    s.stop = s.start + (s.chars l).length := by
  obtain ⟨p, w, r, rfl, -, -, -, rfl⟩ := (mem_wordRuns_iff l s).mp (List.mem_filter.mp h).1
  rw [Span.chars_between]

/-- The matches of a pattern of calls, each told by its word. -/
theorem map_all_call {a : Pattern} {T : Line → Bool} {G : Span → List (Nat × Span)}
    (ha : ∀ p x y gs, a.Fits p x y gs ↔ T x = true ∧ gs = G ⟨p.length, p.length + x.length⟩)
    (hT : ∀ x, T x = true → IsWordText x) (l : Line) (word : Match → Span)
    (hword : ∀ s ∈ calledWords l, T (s.chars l) = true →
      ∀ k, word (Pattern.wordMatch G s k) = s) :
    (((Pattern.inOrder [.wordEdge, a, blanks, .literal ['(']]).all l).map word) =
      (calledWords l).filter fun s => T (s.chars l) := by
  rw [Pattern.all_of_beginsWithWord (Pattern.beginsWithWord_call ha hT), List.map_filterMap,
    calledWords, List.filter_filter, ← List.filterMap_eq_filter]
  refine List.filterMap_congr fun s hs => ?_
  rw [Pattern.foundAt]
  by_cases ht : T (s.chars l) = true
  · cases hgap : callGap (l.drop s.stop) with
    | none => simp [ht, hgap, Option.guard]
    | some k =>
      have hcalled : s ∈ calledWords l := List.mem_filter.mpr ⟨hs, by rw [hgap]; rfl⟩
      simp [ht, hgap, hword s hcalled ht k, Option.guard]
  · simp [ht, Option.guard]

theorem fits_calledName {p x y : Line} {gs : List (Nat × Span)} :
    (Pattern.group 1 identifierText).Fits p x y gs ↔
      isNameText x = true ∧ gs = [(1, ⟨p.length, p.length + x.length⟩)] := by
  rw [isNameText_iff]
  exact Pattern.fits_group fun _ _ _ _ => Pattern.fits_identifierText

/-- the calls of any identifier are found word by word -/
theorem all_anyCall (l : Line) : Shape.anyCall.all l =
    (wordRuns l).filterMap (Pattern.foundAt (fun w r => if isNameText w then callGap r else none)
      (fun s => [(1, s)]) l) :=
  Pattern.all_of_beginsWithWord (Pattern.beginsWithWord_call (fun _ _ _ _ => fits_calledName)
    fun x hx => ((isNameText_iff x).mp hx).isWordText) l

theorem group_all_anyCall (l : Line) : (Shape.anyCall.all l).map (fun m => m.group 1) =
    (calledWords l).filter fun s => isNameText (s.chars l) :=
  map_all_call (G := fun s => [(1, s)]) (fun _ _ _ _ => fits_calledName)
    (fun x hx => ((isNameText_iff x).mp hx).isWordText) l _ fun _ _ _ _ => rfl

theorem fits_givenName {name : String} {p x y : Line} {gs : List (Nat × Span)} :
    (nameText name).Fits p x y gs ↔ (x == name.toList) = true ∧ gs = [] := by
  rw [beq_iff_eq]
  exact Pattern.fits_nameText

/-- the calls of one given name are found word by word -/
theorem all_call {name : String} (hname : IsWordText name.toList) (l : Line) :
    (Shape.call name).all l = (wordRuns l).filterMap (Pattern.foundAt
      (fun w r => if w == name.toList then callGap r else none) (fun _ => []) l) :=
  Pattern.all_of_beginsWithWord (Pattern.beginsWithWord_call (fun _ _ _ _ => fits_givenName)
    fun x hx => by rwa [beq_iff_eq.mp hx]) l

theorem start_all_call {name : String} (hname : IsWordText name.toList) (l : Line) :
    ((Shape.call name).all l).map
        (fun m => (⟨m.span.start, m.span.start + name.length⟩ : Span)) =
      (calledWords l).filter fun s => s.chars l == name.toList := by
  refine map_all_call (G := fun _ => []) (fun _ _ _ _ => fits_givenName)
    (fun x hx => by rwa [beq_iff_eq.mp hx]) l _ fun s hs ht k => ?_
  have hstop := stop_of_mem_calledWords hs
  rw [beq_iff_eq.mp ht, String.length_toList] at hstop
  show (⟨s.start, s.start + name.length⟩ : Span) = s
  rw [← hstop]

/-! ## declarations of a given function -/

/-- the line declares a function of this name -/
def DeclaresName (name : String) (l : Line) : Prop :=
  ∃ p gap r, DeclaredAt declarationKeyword.toList FunctionTail l p gap name.toList r

theorem DeclaresName.isName {name : String} {l : Line} (h : DeclaresName name l) :
    IsName name.toList := by
  obtain ⟨p, gap, r, hd⟩ := h
  exact hd.name

theorem declaresName_of_function {name : String} (hname : IsName name.toList) {l : Line}
    {m : Match} (h : (Shape.function name).first? l = some m) :
    DeclaresName name l ∧ (m.group 1).text l = name := by
  obtain ⟨p, b, rfl, hm⟩ := Pattern.exists_matchAt?_of_first? h
  obtain ⟨gap, nm, r, rfl, hd, hgroup⟩ := declaredAt_of_functionOf
    (fun _ _ _ _ => Pattern.fits_nameText) (fun x hx => by rwa [hx]) hm
  exact ⟨⟨p, gap, r, hd⟩, by rw [hgroup, Span.text_eq_iff, hd.chars_nameSpan]⟩

theorem occurs_function_iff {name : String} (hname : IsName name.toList) (l : Line) :
    (Shape.function name).occurs l = true ↔ DeclaresName name l := by
  rw [Pattern.occurs, Option.isSome_iff_exists]
  constructor
  · intro h
    obtain ⟨m, hm⟩ := h
    exact (declaresName_of_function hname hm).1
  · intro h
    obtain ⟨p, gap, r, hd⟩ := h
    have hline := hd.line
    rw [hline] at hd
    exact Pattern.exists_first?_of_matchAt? hline
      (functionOf_of_declaredAt (fun _ _ _ _ => Pattern.fits_nameText) rfl hd)

theorem declaresName_of_anyFunction {l : Line} {m : Match}
    (h : Shape.anyFunction.first? l = some m) : DeclaresName ((m.group 1).text l) l := by
  obtain ⟨p, b, rfl, hm⟩ := Pattern.exists_matchAt?_of_first? h
  obtain ⟨gap, nm, r, hd, hgroup⟩ := shape_function.sound p b m hm
  have htext : ((m.group 1).text (p ++ b)).toList = nm := by
    rw [hgroup, Span.toList_text, hd.chars_nameSpan]
  exact ⟨p, gap, r, by rwa [htext]⟩

theorem exists_anyFunction {name : String} {l : Line} (h : DeclaresName name l) :
    ∃ m, Shape.anyFunction.first? l = some m := by
  obtain ⟨p, gap, r, hd⟩ := h
  have hline := hd.line
  rw [hline] at hd
  exact Pattern.exists_first?_of_matchAt? hline (shape_function.complete p _ gap _ r hd)

end LanguageService
