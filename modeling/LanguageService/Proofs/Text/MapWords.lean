import LanguageService.Text.Search
import LanguageService.Proofs.Text.Margins

/-!
# Words of a line replaced

`mapWords f l` is the line `l` with `f w` for every word `w`.  It commutes with every cut that
splits no word, and so with everything that looks only at the places between words.

* `mapWords_gap`, `mapWords_word`, `mapWords_append`   how it is computed
* `mapWords_mapWords`    an involution of words is one of lines
* `wordsOf_mapWords`     the words are the words replaced
* `trim_mapWords`, `count_mapWords`, `occursIn_mapWords`   what it leaves alone
-/

namespace LanguageService

/-- The rest of a line with its words replaced, if `word` has been read of the word at its start. -/
def mapWordsFrom (f : Line → Line) (word : Line) : Line → Line
  | [] => if word.isEmpty then [] else f word
  | c :: l =>
    if isWord c then mapWordsFrom f (word ++ [c]) l
    else (if word.isEmpty then [] else f word) ++ c :: mapWordsFrom f [] l

/-- a line with `f w` for every word `w` -/
def mapWords (f : Line → Line) (l : Line) : Line :=
  mapWordsFrom f [] l

section
variable (f : Line → Line)

theorem mapWords_nil : mapWords f [] = [] := rfl

theorem mapWords_gap {c : Char} (hc : isWord c = false) (l : Line) :
    mapWords f (c :: l) = c :: mapWords f l := by
  rw [mapWords, mapWordsFrom, hc]
  rfl

theorem mapWordsFrom_inside {w : Line} (hw : ∀ c ∈ w, isWord c = true) (word l : Line) :
    mapWordsFrom f word (w ++ l) = mapWordsFrom f (word ++ w) l := by
  induction w generalizing word with
  | nil => rw [List.nil_append, List.append_nil]
  | cons c w ih =>
    rw [List.cons_append, mapWordsFrom, if_pos (hw c List.mem_cons_self),
      ih fun d hd => hw d (List.mem_cons_of_mem _ hd), List.append_assoc, List.singleton_append]

theorem mapWords_word {w l : Line} (hw : IsWordText w) (hl : startsInWord l = false) :
    mapWords f (w ++ l) = f w ++ mapWords f l := by
  have hne : w.isEmpty = false := List.isEmpty_eq_false_iff.mpr hw.ne_nil
  rw [mapWords, mapWordsFrom_inside f hw.isWord, List.nil_append]
  cases l with
  | nil =>
    rw [mapWordsFrom, hne, mapWords_nil, List.append_nil]
    rfl
  | cons c l =>
    have hc : isWord c = false := hl
    rw [mapWordsFrom, hc, hne, mapWords_gap f hc]
    rfl

/-- a cut that splits no word may be made before or after -/
theorem mapWords_append {a b : Line} (h : endsInWord a = false ∨ startsInWord b = false) :
    mapWords f (a ++ b) = mapWords f a ++ mapWords f b := by
  induction a using word_induction with
  | nil => rfl
  | gap c l hc ih =>
    have h' : endsInWord l = false ∨ startsInWord b = false := by
      cases l with
      | nil => exact Or.inl rfl
      | cons d l => rwa [← List.singleton_append, endsInWord_append _ (List.cons_ne_nil _ _)] at h
    rw [List.cons_append, mapWords_gap f hc, mapWords_gap f hc, ih h', List.cons_append]
  | word w l hw hl ih =>
    have h' : (endsInWord l = false ∨ startsInWord b = false) ∧ startsInWord (l ++ b) = false := by
      cases l with
      | nil =>
        rw [List.append_nil, hw.endsInWord] at h
        have hb := h.resolve_left (by decide)
        exact ⟨Or.inr hb, hb⟩
      | cons d l =>
        rw [endsInWord_append _ (List.cons_ne_nil _ _)] at h
        exact ⟨h, hl⟩
    rw [List.append_assoc, mapWords_word f hw h'.2, mapWords_word f hw hl, ih h'.1,
      List.append_assoc]

theorem mapWords_of_blank {g : Line} (hg : AllBlank g) : mapWords f g = g := by
  induction g with
  | nil => rfl
  | cons c g ih =>
    rw [mapWords_gap f (not_isWord_of_isBlank (hg c List.mem_cons_self)),
      ih fun d hd => hg d (List.mem_cons_of_mem _ hd)]

theorem mapWords_append_blank {h : Line} (hh : AllBlank h) (x : Line) :
    mapWords f (x ++ h) = mapWords f x ++ h := by
  rw [mapWords_append f (Or.inr (startsInWord_of_blank hh)), mapWords_of_blank f hh]

theorem mapWords_blank_append {g : Line} (hg : AllBlank g) (x : Line) :
    mapWords f (g ++ x) = g ++ mapWords f x := by
  rw [mapWords_append f (Or.inl (endsInWord_of_blank hg)), mapWords_of_blank f hg]

theorem mapWords_around {needle : Line} (hne : needle ≠ [])
    (hgap : ∀ c ∈ needle, isWord c = false) (a b : Line) :
    mapWords f (a ++ (needle ++ b)) = mapWords f a ++ (needle ++ mapWords f b) := by
  have hinner : ∀ x : Line, (∀ c ∈ x, isWord c = false) →
      mapWords f (x ++ b) = x ++ mapWords f b := by
    intro x hx
    induction x with
    | nil => rfl
    | cons c x ih =>
      rw [List.cons_append, mapWords_gap f (hx c List.mem_cons_self),
        ih fun d hd => hx d (List.mem_cons_of_mem _ hd), List.cons_append]
  have hstart : startsInWord (needle ++ b) = false := by
    obtain ⟨c, x, rfl⟩ := List.exists_cons_of_ne_nil hne
    exact hgap c List.mem_cons_self
  rw [mapWords_append f (Or.inr hstart), hinner needle hgap]

end

/-! ## words stay words -/

section
variable {f : Line → Line} (hf : ∀ w, IsWordText w → IsWordText (f w))
include hf

theorem startsInWord_mapWords (l : Line) : startsInWord (mapWords f l) = startsInWord l := by
  induction l using word_induction with
  | nil => rfl
  | gap c l hc _ => rw [mapWords_gap f hc, startsInWord_cons, startsInWord_cons]
  | word w l hw hl _ =>
    rw [mapWords_word f hw hl, (hf w hw).startsInWord_append, hw.startsInWord_append]

theorem endsInWord_mapWords (l : Line) : endsInWord (mapWords f l) = endsInWord l := by
  have hne : ∀ {l : Line}, l ≠ [] → mapWords f l ≠ [] := by
    intro l hl
    cases l using word_induction with
    | nil => exact absurd rfl hl
    | gap c l hc _ =>
      rw [mapWords_gap f hc]
      exact List.cons_ne_nil _ _
    | word w r hw hr _ =>
      rw [mapWords_word f hw hr]
      exact List.append_ne_nil_of_left_ne_nil (hf w hw).ne_nil _
  induction l using word_induction with
  | nil => rfl
  | gap c l hc ih =>
    rw [mapWords_gap f hc]
    by_cases hl : l = []
    · rw [hl, mapWords_nil]
    · rw [← List.singleton_append, endsInWord_append _ (hne hl), ih, ← List.singleton_append,
        endsInWord_append _ hl]
  | word w l hw hl ih =>
    rw [mapWords_word f hw hl]
    by_cases hl : l = []
    · rw [hl, mapWords_nil, List.append_nil, List.append_nil, (hf w hw).endsInWord, hw.endsInWord]
    · rw [endsInWord_append _ (hne hl), ih, endsInWord_append _ hl]

theorem mapWords_mapWords (hff : ∀ w, f (f w) = w) (l : Line) : mapWords f (mapWords f l) = l := by
  induction l using word_induction with
  | nil => rfl
  | gap c l hc ih => rw [mapWords_gap f hc, mapWords_gap f hc, ih]
  | word w l hw hl ih =>
    rw [mapWords_word f hw hl,
      mapWords_word f (hf w hw) (by rwa [startsInWord_mapWords hf]), hff, ih]

/-- the words are the words replaced -/
theorem wordsOf_mapWords (l : Line) :
    wordsOf (mapWords f l) = (wordsOf l).map fun s => String.ofList (f s.toList) := by
  induction l using word_induction with
  | nil => rfl
  | gap c l hc ih => rw [mapWords_gap f hc, wordsOf_gap hc, wordsOf_gap hc, ih]
  | word w l hw hl ih =>
    rw [mapWords_word f hw hl, wordsOf_word (hf w hw) (by rwa [startsInWord_mapWords hf]),
      wordsOf_word hw hl, ih, List.map_cons, String.toList_ofList]

theorem count_mapWords {c : Char} (hc : isWord c = false) (l : Line) :
    (mapWords f l).count c = l.count c := by
  have hzero : ∀ w : Line, IsWordText w → w.count c = 0 := by
    intro w hw
    refine List.count_eq_zero.mpr fun hmem => ?_
    have := hw.isWord c hmem
    rw [hc] at this
    exact absurd this (by decide)
  induction l using word_induction with
  | nil => rfl
  | gap d l hd ih => rw [mapWords_gap f hd, List.count_cons, List.count_cons, ih]
  | word w l hw hl ih =>
    rw [mapWords_word f hw hl, List.count_append, List.count_append, ih, hzero w hw,
      hzero (f w) (hf w hw)]

theorem trimmed_mapWords {t : Line} (ht : Trimmed t) : Trimmed (mapWords f t) := by
  have hblank : ∀ {o : Option Char}, o.any isWord = true → o.any isBlank = false := by
    intro o ho
    cases o with
    | none => rfl
    | some c => exact not_isBlank_of_isWord ho
  refine ⟨?_, ?_⟩
  · cases t with
    | nil => rfl
    | cons c t =>
      by_cases hc : isWord c = true
      · have hstart := startsInWord_mapWords hf (c :: t)
        rw [startsInWord_cons, hc] at hstart
        exact hblank hstart
      · rw [mapWords_gap f (Bool.eq_false_iff.mpr hc)]
        exact ht.first
  · rcases List.eq_nil_or_concat t with rfl | ⟨x, c, rfl⟩
    · rfl
    · rw [List.concat_eq_append] at ht ⊢
      by_cases hc : isWord c = true
      · have hend := endsInWord_mapWords hf (x ++ [c])
        rw [endsInWord_concat, hc] at hend
        exact hblank hend
      · have hlast := ht.last
        have hstart : startsInWord [c] = false := Bool.eq_false_iff.mpr hc
        rw [List.getLast?_concat] at hlast
        rw [mapWords_append f (Or.inr hstart), mapWords_gap f hstart, mapWords_nil,
          List.getLast?_concat]
        exact hlast

theorem trim_mapWords (l : Line) : trim (mapWords f l) = mapWords f (trim l) := by
  obtain ⟨h, hh, heq⟩ := exists_margins l
  have hg := allBlank_takeWhile l
  have hmap : mapWords f l = l.takeWhile isBlank ++ (mapWords f (trim l) ++ h) := by
    have hcut := congrArg (mapWords f) heq
    rwa [mapWords_blank_append f hg, mapWords_append_blank f hh] at hcut
  rw [hmap, trim_margins hg (trimmed_mapWords hf (trimmed_trim l)) hh]

variable (hff : ∀ w, f (f w) = w)
include hff

/-- what replacing the words keeps, replacing them back keeps as well -/
theorem mapWords_iff {P : Line → Prop} (hP : ∀ l, P l → P (mapWords f l)) (l : Line) :
    P (mapWords f l) ↔ P l := by
  refine ⟨fun h => ?_, hP l⟩
  have hback := hP _ h
  rwa [mapWords_mapWords hf hff] at hback

theorem occursIn_mapWords {needle : Line} (hne : needle ≠ [])
    (hgap : ∀ c ∈ needle, isWord c = false) (l : Line) :
    occursIn needle (mapWords f l) = occursIn needle l := by
  rw [Bool.eq_iff_iff]
  refine mapWords_iff hf hff (P := fun l => occursIn needle l = true) (fun l h => ?_) l
  obtain ⟨a, b, rfl⟩ := (occursIn_iff needle l).mp h
  refine (occursIn_iff needle _).mpr ⟨mapWords f a, mapWords f b, ?_⟩
  rw [List.append_assoc, mapWords_around f hne hgap, List.append_assoc]

theorem isPrefixOf_mapWords {needle : Line} (hne : needle ≠ [])
    (hgap : ∀ c ∈ needle, isWord c = false) (l : Line) :
    needle.isPrefixOf (mapWords f l) = needle.isPrefixOf l := by
  rw [Bool.eq_iff_iff]
  refine mapWords_iff hf hff (P := fun l => needle.isPrefixOf l = true) (fun l h => ?_) l
  obtain ⟨b, rfl⟩ := List.isPrefixOf_iff_prefix.mp h
  exact List.isPrefixOf_iff_prefix.mpr
    ⟨mapWords f b, (mapWords_around f hne hgap [] b).symm⟩

theorem isEmpty_mapWords (l : Line) : (mapWords f l).isEmpty = l.isEmpty := by
  rw [Bool.eq_iff_iff]
  refine mapWords_iff hf hff (P := fun l => l.isEmpty = true) (fun l h => ?_) l
  rw [List.isEmpty_iff.mp h]
  rfl

end
end LanguageService
