import LanguageService.Proofs.Source.Correspondence
import LanguageService.Proofs.Text.MapWords

/-!
# Names exchanged

An exchange of identifiers, made for every word of a line, changes nothing that the analysis sees
but the names, unless the name of an import is only part of a word.  The exchange undoes itself, so
that everything has to be shown in one direction only.

* `NameExchange f`       `f` exchanges identifiers, none of them reserved
* `ImportsWhole l`       every imported name is a whole word
* `DeclaredAt.mapWords`  a declaration of the other name
* `lineMatch_mapWords`   a line corresponds to the line with its names exchanged
* `codeLines_mapWords`   and so does a document
-/

namespace LanguageService

/-- An exchange of identifiers that leaves reserved words and all other words alone. -/
structure NameExchange (f : Line → Line) : Prop where
  involutive : ∀ x, f (f x) = x
  isName : ∀ x, IsName x → IsName (f x)
  other : ∀ x, ¬ IsName x → f x = x
  reserved : ∀ x, isReserved (String.ofList x) = true → f x = x

/-- the exchange of two words -/
def swapName (w n x : Line) : Line :=
  if x = w then n else if x = n then w else x

theorem swapName_left (w n : Line) : swapName w n w = n := if_pos rfl

theorem swapName_right (w n : Line) : swapName w n n = w := by
  rw [swapName]
  by_cases h : n = w
  · rw [if_pos h, h]
  · rw [if_neg h, if_pos rfl]

theorem swapName_other {w n x : Line} (hw : x ≠ w) (hn : x ≠ n) : swapName w n x = x := by
  rw [swapName, if_neg hw, if_neg hn]

theorem swapName_cases (w n x : Line) : x = w ∨ x = n ∨ swapName w n x = x := by
  by_cases hxw : x = w
  · exact Or.inl hxw
  · by_cases hxn : x = n
    · exact Or.inr (Or.inl hxn)
    · exact Or.inr (Or.inr (swapName_other hxw hxn))

theorem swapName_swapName (w n x : Line) : swapName w n (swapName w n x) = x := by
  rcases swapName_cases w n x with rfl | rfl | h
  · rw [swapName_left, swapName_right]
  · rw [swapName_right, swapName_left]
  · rw [h, h]

theorem isWordText_swapName {w n : Line} (hw : IsWordText w) (hn : IsWordText n) (x : Line)
    (hx : IsWordText x) : IsWordText (swapName w n x) := by
  rcases swapName_cases w n x with rfl | rfl | h
  · rwa [swapName_left]
  · rwa [swapName_right]
  · rwa [h]

theorem nameExchange_swapName {w n : Line} (hw : IsName w) (hn : IsName n)
    (hw' : isReserved (String.ofList w) = false) (hn' : isReserved (String.ofList n) = false) :
    NameExchange (swapName w n) := by
  refine ⟨swapName_swapName w n, ?_, ?_, ?_⟩
  · intro x hx
    rcases swapName_cases w n x with rfl | rfl | h
    · rwa [swapName_left]
    · rwa [swapName_right]
    · rwa [h]
  · intro x hx
    rcases swapName_cases w n x with rfl | rfl | h
    · exact absurd hw hx
    · exact absurd hn hx
    · exact h
  · intro x hx
    rcases swapName_cases w n x with rfl | rfl | h
    · rw [hw'] at hx
      exact absurd hx (by decide)
    · rw [hn'] at hx
      exact absurd hx (by decide)
    · exact h

/-- the exchange of names as texts -/
def exchangeText (f : Line → Line) (s : String) : String :=
  String.ofList (f s.toList)

theorem exchangeText_involutive {f : Line → Line} (hf : ∀ w, f (f w) = w) (s : String) :
    exchangeText f (exchangeText f s) = s := by
  rw [exchangeText, exchangeText, String.toList_ofList, hf, String.ofList_toList]

namespace NameExchange

variable {f : Line → Line} (hf : NameExchange f)
include hf

theorem isWordText (w : Line) (hw : IsWordText w) : IsWordText (f w) := by
  by_cases h : IsName w
  · exact (hf.isName w h).isWordText
  · rw [hf.other w h]
    exact hw

theorem exchangeText_of_reserved {s : String} (hs : isReserved s = true) :
    exchangeText f s = s := by
  rw [exchangeText, hf.reserved s.toList (by rwa [String.ofList_toList]), String.ofList_toList]

theorem renames : Renames (exchangeText f) := by
  have hback := exchangeText_involutive hf.involutive
  refine ⟨fun s t hst => ?_, fun s => ?_, fun s hs => hf.exchangeText_of_reserved hs⟩
  · rw [← hback s, hst, hback t]
  · rw [Bool.eq_iff_iff]
    constructor
    · intro h
      have hfix := hf.exchangeText_of_reserved h
      rw [hback] at hfix
      rwa [← hfix] at h
    · intro h
      rwa [hf.exchangeText_of_reserved h]

end NameExchange

/-- Every imported name is a whole word: no word character follows that is no part of an ASCII
name. -/
def ImportsWhole (l : Line) : Prop :=
  ∀ p gap nm r, DeclaredAt "import".toList ImportTail l p gap nm r → startsInWord r = false

theorem importsWhole_of_ascii {l : Line} (h : l.all (fun c => !isWord c || isNameChar c) = true) :
    ImportsWhole l := by
  intro p gap nm r hd
  cases r with
  | nil => rfl
  | cons d r =>
    by_cases hword : isWord d = true
    · have hmem : d ∈ l := by
        rw [hd.line]
        simp
      have hname : isNameChar d = false := hd.tail
      have hascii := List.all_eq_true.mp h d hmem
      rw [hword, hname] at hascii
      exact absurd hascii (by decide)
    · exact Bool.eq_false_iff.mpr hword

/-! ## tails -/

theorem startsInWord_append_equals {g : Line} (hg : AllBlank g) (s : Line) :
    startsInWord (g ++ '=' :: s) = false := by
  cases g with
  | nil => exact not_isWord_eq
  | cons c g => exact not_isWord_of_isBlank (hg c List.mem_cons_self)

theorem VariableTail.startsInWord {r : Line} (h : VariableTail r) : startsInWord r = false := by
  obtain ⟨g, s, rfl, hg⟩ := h
  exact startsInWord_append_equals hg s

theorem FunctionTail.startsInWord {r : Line} (h : FunctionTail r) : startsInWord r = false := by
  obtain ⟨g, g', s, rfl, hg, -, -⟩ := h
  exact startsInWord_append_equals hg _

section
variable {f : Line → Line} (hf : NameExchange f)
include hf

omit hf in
theorem mapWords_equals {g : Line} (hg : AllBlank g) (s : Line) :
    mapWords f (g ++ '=' :: s) = g ++ '=' :: mapWords f s := by
  have hgap : ∀ c ∈ ['='], isWord c = false := eq_false_of_all (by decide +kernel)
  have haround := mapWords_around f (List.cons_ne_nil '=' []) hgap g s
  rwa [mapWords_of_blank f hg] at haround

omit hf in
theorem VariableTail.mapWords {r : Line} (h : VariableTail r) :
    VariableTail (mapWords f r) := by
  obtain ⟨g, s, rfl, hg⟩ := h
  exact ⟨g, _, mapWords_equals hg s, hg⟩

theorem FunctionTail.mapWords {r : Line} (h : FunctionTail r) : FunctionTail (mapWords f r) := by
  obtain ⟨g, g', s, rfl, hg, hg', hs⟩ := h
  have hfunc : f functionKeyword.toList = functionKeyword.toList :=
    hf.reserved _ (by decide +kernel)
  refine ⟨g, g', LanguageService.mapWords f s, ?_, hg, hg', ?_⟩
  · rw [mapWords_equals hg, mapWords_blank_append f hg',
      mapWords_word f isWordText_func hs, hfunc]
  · rwa [startsInWord_mapWords hf.isWordText]

theorem ImportTail.mapWords {r : Line} (hr : startsInWord r = false) :
    ImportTail (mapWords f r) := by
  rw [← startsInWord_mapWords hf.isWordText] at hr
  cases h : LanguageService.mapWords f r with
  | nil => rfl
  | cons c s =>
    rw [h] at hr
    exact not_isNameChar_of_not_isWord hr

theorem AssignmentTail.mapWords {r : Line} (h : AssignmentTail r) :
    AssignmentTail (mapWords f r) := by
  obtain ⟨g, g', c, s, rfl, hg, hg', hc, hblank⟩ := h
  rw [mapWords_equals hg, mapWords_blank_append f hg']
  by_cases hw : isWord c = true
  · have hstart := startsInWord_mapWords hf.isWordText (c :: s)
    rw [startsInWord_cons, hw] at hstart
    cases hm : LanguageService.mapWords f (c :: s) with
    | nil =>
      rw [hm] at hstart
      exact absurd hstart (by decide)
    | cons d t =>
      rw [hm, startsInWord_cons] at hstart
      refine ⟨g, g', d, t, rfl, hg, hg', ?_, not_isBlank_of_isWord hstart⟩
      rintro rfl
      rw [not_isWord_eq] at hstart
      exact absurd hstart (by decide)
  · rw [mapWords_gap f (Bool.eq_false_iff.mpr hw)]
    exact ⟨g, g', c, _, rfl, hg, hg', hc, hblank⟩

/-! ## declarations -/

omit hf in
theorem mapWords_declaration {keyword p gap x r : Line} (hk : IsWordText keyword)
    (hfix : f keyword = keyword) (hp : endsInWord p = false) (hne : gap ≠ []) (hgap : AllBlank gap)
    (hx : IsWordText x) (hr : startsInWord r = false) :
    mapWords f (p ++ (keyword ++ (gap ++ (x ++ r)))) =
      mapWords f p ++ (keyword ++ (gap ++ (f x ++ mapWords f r))) := by
  have hstart : startsInWord (gap ++ (x ++ r)) = false := by
    rw [startsInWord_append _ hne]
    exact startsInWord_of_blank hgap
  rw [mapWords_append f (Or.inl hp), mapWords_word f hk hstart, hfix,
    mapWords_blank_append f hgap, mapWords_word f hx hr]

theorem DeclaredAt.mapWords {keyword l p gap nm r : Line} {Tail : Line → Prop}
    (hd : DeclaredAt keyword Tail l p gap nm r) (hk : IsWordText keyword)
    (hfix : f keyword = keyword) (hr : startsInWord r = false) (hTail : Tail (mapWords f r)) :
    DeclaredAt keyword Tail (mapWords f l) (mapWords f p) gap (f nm) (mapWords f r) := by
  refine ⟨?_, ?_, hd.gap_ne, hd.gap_blank, hf.isName nm hd.name, hTail⟩
  · rw [hd.line]
    exact mapWords_declaration hk hfix hd.edge hd.gap_ne hd.gap_blank hd.name.isWordText hr
  · rw [endsInWord_mapWords hf.isWordText]
    exact hd.edge

omit hf in
/-- a name that a word character goes on with is part of a word that is no name -/
theorem exists_word_of_part {nm r : Line} {d : Char} (hnm : IsName nm) (hd : isWord d = true)
    (hname : isNameChar d = false) : ∃ y s, r = y ++ s ∧ startsInWord s = false ∧
      IsWordText (nm ++ d :: y) ∧ ¬ IsName (nm ++ d :: y) := by
  refine ⟨r.takeWhile isWord, r.dropWhile isWord, List.takeWhile_append_dropWhile.symm,
    head?_dropWhile_any isWord r, ⟨by simp, fun c hc => ?_⟩, fun hn => ?_⟩
  · rcases List.mem_append.mp hc with hc | hc
    · exact hnm.isWordText.isWord c hc
    · rcases List.mem_cons.mp hc with rfl | hc
      · exact hd
      · exact List.all_eq_true.mp List.all_takeWhile c hc
  · rw [hn.isNameChar d (by simp)] at hname
    exact absurd hname (by decide)

/-- An imported name that is only part of a word is so before and after, since that word is no
identifier. -/
theorem ImportsWhole.mapWords {l : Line} (h : ImportsWhole l) : ImportsWhole (mapWords f l) := by
  intro p gap nm r hd
  cases r with
  | nil => rfl
  | cons d r =>
    by_cases hword : isWord d = true
    · exfalso
      have hname : isNameChar d = false := hd.tail
      obtain ⟨y, s, rfl, hs, hx, hother⟩ := exists_word_of_part hd.name hword hname (r := r)
      have hline : LanguageService.mapWords f l =
          p ++ ("import".toList ++ (gap ++ ((nm ++ d :: y) ++ s))) := by
        rw [hd.line, List.append_assoc nm, List.cons_append]
      -- that word is no identifier, so it stands on `l` as well
      have hback := congrArg (LanguageService.mapWords f) hline
      rw [mapWords_mapWords hf.isWordText hf.involutive,
        mapWords_declaration isWordText_import (hf.reserved _ (by decide +kernel)) hd.edge
          hd.gap_ne hd.gap_blank hx hs, hf.other _ hother, List.append_assoc nm] at hback
      have hedge : endsInWord (LanguageService.mapWords f p) = false := by
        rw [endsInWord_mapWords hf.isWordText]
        exact hd.edge
      have hwhole := h _ gap nm _ ⟨hback, hedge, hd.gap_ne, hd.gap_blank, hd.name, hname⟩
      rw [List.cons_append, startsInWord_cons, hword] at hwhole
      exact absurd hwhole (by decide)
    · exact Bool.eq_false_iff.mpr hword

/-! ## corresponding lines -/

/-- any two places -/
def AnyPlace (_ _ : Line) (_ _ : Span) : Prop := True

/-- What stands before and behind a declaration, and the same with names exchanged. -/
structure ExchangedAround (f : Line → Line) (l p r p' r' : Line) : Prop where
  before : ∃ b, l = p ++ b
  edge : endsInWord p = false
  whole : startsInWord r = false
  left : p' = LanguageService.mapWords f p
  right : r' = LanguageService.mapWords f r

omit hf in
theorem ExchangedAround.length_le {l p r p' r' q s q' s' : Line}
    (hp : ExchangedAround f l p r p' r') (hq : ExchangedAround f l q s q' s')
    (hle : p.length ≤ q.length) : p'.length ≤ q'.length := by
  obtain ⟨b, hb⟩ := hp.before
  obtain ⟨c, hc⟩ := hq.before
  obtain ⟨z, rfl⟩ := List.prefix_of_prefix_length_le ⟨b, hb.symm⟩ ⟨c, hc.symm⟩ hle
  rw [hp.left, hq.left, mapWords_append f (Or.inl hp.edge), List.length_append]
  exact Nat.le_add_right _ _

theorem ofShape?_mapWords {a : Pattern} {keyword l : Line} {Tail : Line → Prop}
    (hshape : DeclarationShape a keyword Tail) (hfix : f keyword = keyword)
    (hTail : ∀ r, startsInWord r = false → Tail r → Tail (mapWords f r))
    (hwhole : ∀ p gap nm r, DeclaredAt keyword Tail l p gap nm r → startsInWord r = false)
    (hwhole' : ∀ p gap nm r, DeclaredAt keyword Tail (mapWords f l) p gap nm r →
      startsInWord r = false) (kind : SymbolKind) :
    Option.Rel (DeclarationMatch (exchangeText f) AnyPlace l (mapWords f l))
      (Declaration.ofShape? kind a l) (Declaration.ofShape? kind a (mapWords f l)) := by
  have hback := mapWords_mapWords hf.isWordText hf.involutive
  refine rel_mono (hshape.ofShape?_match kind (σ := f) (R := ExchangedAround f l) ?_ ?_ ?_) ?_
  · exact fun _ _ _ _ _ _ _ _ hp hq hle => hp.length_le hq hle
  · intro p gap nm r hd
    have hr := hwhole p gap nm r hd
    exact ⟨_, _, ⟨⟨_, hd.line⟩, hd.edge, hr, rfl, rfl⟩,
      hd.mapWords hf hshape.isWordText hfix hr (hTail r hr hd.tail)⟩
  · intro p' gap nm r' hd'
    have hr := hwhole' p' gap nm r' hd'
    -- exchanged once more, it is a declaration on the old line
    have hd := hd'.mapWords hf hshape.isWordText hfix hr (hTail r' hr hd'.tail)
    rw [hback] at hd
    refine ⟨_, gap, _, _, ⟨⟨_, hd.line⟩, hd.edge, ?_, (hback p').symm, (hback r').symm⟩, hd⟩
    rwa [startsInWord_mapWords hf.isWordText]
  · rintro d d' ⟨p, r, p', r', gap, nm, hR, hd, hd', rfl, rfl⟩
    refine ⟨?_, rfl, trivial, ?_⟩
    · rw [exchangeText, String.toList_ofList]
    · rw [hd.nameSpan_mem_wordRuns_iff, hd'.nameSpan_mem_wordRuns_iff, hR.right,
        startsInWord_mapWords hf.isWordText]

theorem function_mapWords (l : Line) :
    Option.Rel (DeclarationMatch (exchangeText f) AnyPlace l (mapWords f l))
      (Declaration.ofShape? .function Shape.anyFunction l)
      (Declaration.ofShape? .function Shape.anyFunction (mapWords f l)) :=
  ofShape?_mapWords hf shape_function (hf.reserved _ (by decide +kernel))
    (fun _ _ h => h.mapWords hf)
    (fun _ _ _ _ hd => hd.tail.startsInWord) (fun _ _ _ _ hd => hd.tail.startsInWord) _

theorem variable_mapWords (l : Line) :
    Option.Rel (DeclarationMatch (exchangeText f) AnyPlace l (mapWords f l))
      (Declaration.ofShape? .var Shape.anyVariable l)
      (Declaration.ofShape? .var Shape.anyVariable (mapWords f l)) :=
  ofShape?_mapWords hf shape_variable (hf.reserved _ (by decide +kernel)) (fun _ _ h => h.mapWords)
    (fun _ _ _ _ hd => hd.tail.startsInWord) (fun _ _ _ _ hd => hd.tail.startsInWord) _

theorem import_mapWords {l : Line} (hl : ImportsWhole l) :
    Option.Rel (DeclarationMatch (exchangeText f) AnyPlace l (mapWords f l))
      (Declaration.ofShape? .imported Shape.anyImport l)
      (Declaration.ofShape? .imported Shape.anyImport (mapWords f l)) :=
  ofShape?_mapWords hf shape_import (hf.reserved _ (by decide +kernel))
    (fun _ hr _ => ImportTail.mapWords hf hr) hl (hl.mapWords hf) _

theorem first?_mapWords {l : Line} (hl : ImportsWhole l) :
    Option.Rel (DeclarationMatch (exchangeText f) AnyPlace l (mapWords f l))
      (Declaration.first? l) (Declaration.first? (mapWords f l)) :=
  rel_or (rel_or (function_mapWords hf l) (variable_mapWords hf l)) (import_mapWords hf hl)

theorem AssignedAt.mapWords {l g nm r : Line} (ha : AssignedAt l g nm r) :
    AssignedAt (mapWords f l) g (f nm) (mapWords f r) := by
  refine ⟨?_, ha.blank, hf.isName nm ha.name, ha.tail.mapWords hf⟩
  have hr : startsInWord r = false := by
    obtain ⟨g₁, g₂, c, s, rfl, hg₁, -⟩ := ha.tail
    exact startsInWord_append_equals hg₁ _
  rw [ha.line, mapWords_blank_append f ha.blank, mapWords_word f ha.name.isWordText hr]

theorem assigned?_mapWords (l : Line) :
    Option.Rel (fun s s' => s'.text (mapWords f l) = exchangeText f (s.text l) ∧
      AnyPlace l (mapWords f l) s s') (assigned? l) (assigned? (mapWords f l)) := by
  cases hl : assigned? l with
  | none =>
    have hl' : assigned? (mapWords f l) = none := by
      refine (assigned?_eq_none_iff _).mpr fun g nm r ha' => ?_
      have ha := ha'.mapWords hf
      rw [mapWords_mapWords hf.isWordText hf.involutive] at ha
      exact (assigned?_eq_none_iff l).mp hl g _ _ ha
    rw [hl']
    exact .none
  | some s =>
    obtain ⟨g, nm, r, ha, rfl⟩ := exists_of_assigned? hl
    have ha' := ha.mapWords hf
    rw [(assigned?_eq_some_iff _ _).mpr ⟨g, f nm, _, ha', rfl⟩]
    refine .some ⟨?_, trivial⟩
    rw [ha'.line, ha.line, Span.text, Span.text, Span.chars_between, Span.chars_between,
      exchangeText, String.toList_ofList]

theorem lineMatch_mapWords {l : Line} (hl : ImportsWhole l) :
    LineMatch (exchangeText f) AnyPlace l (mapWords f l) := by
  refine ⟨first?_mapWords hf hl, wordsOf_mapWords hf.isWordText l, ?_, ?_,
    assigned?_mapWords hf l, trivial⟩
  · intro c hc
    have hgap : isWord c = false := eq_false_of_all (by decide +kernel) c hc
    exact count_mapWords hf.isWordText hgap l
  · rw [occurs_anyFunction, occurs_anyFunction]
    exact isSome_of_rel (function_mapWords hf l)

theorem role_mapWords (l : Line) : LineRole.of (mapWords f l) = LineRole.of l := by
  have hw := hf.isWordText
  have hff := hf.involutive
  have hcomment : ∀ x, lineComment.isPrefixOf (mapWords f x) = lineComment.isPrefixOf x :=
    isPrefixOf_mapWords hw hff (by decide) (eq_false_of_all (by decide +kernel))
  have hopens : ∀ x, opensBlock.isPrefixOf (mapWords f x) = opensBlock.isPrefixOf x :=
    isPrefixOf_mapWords hw hff (by decide) (eq_false_of_all (by decide +kernel))
  have hcloses : ∀ x, occursIn closesBlock (mapWords f x) = occursIn closesBlock x :=
    occursIn_mapWords hw hff (by decide) (eq_false_of_all (by decide +kernel))
  simp only [LineRole.of, trim_mapWords hw, isEmpty_mapWords hw hff, hcomment, hopens, hcloses]

theorem codeLines_mapWords {lines : List Line} (h : ∀ l ∈ lines, ImportsWhole l) :
    List.Forall₂ (NumberedMatch (LineMatch (exchangeText f) AnyPlace)) (codeLines lines)
      (codeLines (lines.map (mapWords f))) := by
  have hpairs : List.Forall₂ (fun l l' => ImportsWhole l ∧ l' = mapWords f l) lines
      (lines.map (mapWords f)) := by
    refine List.forall₂_map_right_iff.mpr (List.forall₂_same.mpr fun l hl => ⟨h l hl, rfl⟩)
  refine (codeLines_match ?_ ?_ hpairs).imp ?_
  · rintro l _ ⟨-, rfl⟩
    exact role_mapWords hf l
  · rintro l _ ⟨-, rfl⟩
    rw [trim_mapWords hf.isWordText]
    exact occursIn_mapWords hf.isWordText hf.involutive (by decide)
      (eq_false_of_all (by decide +kernel)) _
  · rintro k k' ⟨hn, himports, heq⟩
    refine ⟨hn, ?_⟩
    rw [heq]
    exact lineMatch_mapWords hf himports

end

end LanguageService
