import LanguageService.Proofs.Text.Runs

/-!
# Words of a line

A word is a maximal run of word characters.  A line is made of words and of the single characters
between them, and every fact about words is proved along this structure.

* `startsInWord`, `endsInWord`   what a text does to a word at its edge
* `le_of_startsInWord`   where the next word can begin
* `word_induction`       induction on the words and gaps of a line
* `wordRuns l`           the words of a line as spans, from left to right
* `mem_wordRuns_iff`     they are exactly the maximal runs of word characters
* `wordsOf l`            their texts; `wordsOf_append` splits them at a cut that splits no word
-/

namespace LanguageService

/-- does the text begin with a word character? -/
def startsInWord (l : Line) : Bool :=
  l.head?.any isWord

/-- does the text end with a word character? -/
def endsInWord (l : Line) : Bool :=
  l.getLast?.any isWord

/-- word characters, and at least one -/
structure IsWordText (w : Line) : Prop where
  ne_nil : w ≠ []
  isWord : ∀ c ∈ w, isWord c = true

theorem eq_false_of_all {p : Char → Bool} {l : Line} (h : l.all (fun c => !p c) = true) :
    ∀ c ∈ l, p c = false := by
  intro c hc
  have hp := List.all_eq_true.mp h c hc
  rwa [Bool.not_eq_true'] at hp

/-- white space only -/
def AllBlank (g : Line) : Prop := ∀ c ∈ g, isBlank c = true

/-! ## the edges of a text -/

theorem startsInWord_nil : startsInWord [] = false := rfl

theorem startsInWord_cons (c : Char) (l : Line) : startsInWord (c :: l) = isWord c := rfl

theorem endsInWord_nil : endsInWord [] = false := rfl

theorem endsInWord_concat (l : Line) (c : Char) : endsInWord (l ++ [c]) = isWord c := by
  simp [endsInWord]

theorem startsInWord_append {a : Line} (b : Line) (h : a ≠ []) :
    startsInWord (a ++ b) = startsInWord a :=
  head?_any_append b h

theorem endsInWord_append (a : Line) {b : Line} (h : b ≠ []) :
    endsInWord (a ++ b) = endsInWord b :=
  getLast?_any_append a h

namespace IsWordText

variable {w : Line} (hw : IsWordText w)
include hw

theorem startsInWord : startsInWord w = true :=
  head?_any_of_run hw.ne_nil hw.isWord

theorem endsInWord : endsInWord w = true :=
  getLast?_any_of_run hw.ne_nil hw.isWord

theorem startsInWord_append (r : Line) : LanguageService.startsInWord (w ++ r) = true :=
  (LanguageService.startsInWord_append r hw.ne_nil).trans hw.startsInWord

theorem endsInWord_append (p : Line) : LanguageService.endsInWord (p ++ w) = true :=
  (LanguageService.endsInWord_append p hw.ne_nil).trans hw.endsInWord

theorem edge_before {p r : Line}
    (h : LanguageService.endsInWord p = false ∨ LanguageService.startsInWord (w ++ r) = false) :
    LanguageService.endsInWord p = false := by
  rw [hw.startsInWord_append] at h
  exact h.resolve_right Bool.false_ne_true.symm

end IsWordText

theorem startsInWord_of_none {t : Line} (h : ∀ c ∈ t, isWord c = false) :
    startsInWord t = false := by
  cases t with
  | nil => rfl
  | cons c t => exact h c List.mem_cons_self

theorem startsInWord_of_blank {l : Line} (h : AllBlank l) : startsInWord l = false :=
  startsInWord_of_none fun c hc => not_isWord_of_isBlank (h c hc)

theorem not_blank_of_startsInWord {t : Line} (h : startsInWord t = true) :
    t.head?.any isBlank = false := by
  cases t with
  | nil => rfl
  | cons c t =>
    refine Bool.eq_false_iff.mpr fun hc => ?_
    rw [startsInWord_cons, not_isWord_of_isBlank hc] at h
    exact Bool.false_ne_true h

theorem startsInWord_gap {g : Line} (hg : AllBlank g) {c : Char} (hc : isWord c = false)
    (t : Line) : startsInWord (g ++ c :: t) = false := by
  cases g with
  | nil => exact hc
  | cons d g => exact not_isWord_of_isBlank (hg d List.mem_cons_self)

theorem endsInWord_of_blank {l : Line} (h : AllBlank l) : endsInWord l = false := by
  rcases List.eq_nil_or_concat l with rfl | ⟨a, c, rfl⟩
  · rfl
  · rw [List.concat_eq_append, endsInWord_concat]
    exact not_isWord_of_isBlank (h c (by simp))

/-- Between the start of a word and the end of the text without word characters that follows it, no
other word begins. -/
theorem le_of_startsInWord {p w g t q b : Line} (hw : IsWordText w)
    (hg : ∀ c ∈ g, isWord c = false) (hline : p ++ (w ++ (g ++ t)) = q ++ b)
    (hq : endsInWord q = false) (hb : startsInWord b = true) (hlt : p.length < q.length) :
    (p ++ (w ++ g)).length ≤ q.length := by
  apply Nat.le_of_not_lt
  intro hcon
  rw [List.length_append, List.length_append] at hcon
  rcases List.append_eq_append_iff.mp hline with ⟨x, rfl, hx⟩ | ⟨x, rfl, -⟩
  · rw [List.length_append] at hlt hcon
    rcases List.append_eq_append_iff.mp hx with ⟨z, rfl, hz⟩ | ⟨c, rfl, -⟩
    · -- the other word begins behind this one
      rw [List.length_append] at hcon
      rcases List.append_eq_append_iff.mp hz with ⟨c, rfl, -⟩ | ⟨c, rfl, rfl⟩
      · rw [List.length_append] at hcon
        omega
      · have hne : c ≠ [] := by
          rintro rfl
          rw [List.append_nil] at hcon
          omega
        have hnone : ∀ d ∈ c, isWord d = false := fun d hd => hg d (List.mem_append_right _ hd)
        rw [startsInWord_append _ hne, startsInWord_of_none hnone] at hb
        cases hb
    · -- the other word begins inside this one
      have hword : IsWordText x := by
        refine ⟨?_, fun d hd => hw.isWord d (List.mem_append_left _ hd)⟩
        rintro rfl
        rw [List.length_nil] at hlt
        omega
      rw [hword.endsInWord_append] at hq
      cases hq
  · rw [List.length_append] at hlt
    omega

/-- Induction on the words and gaps of a line. -/
@[elab_as_elim]
theorem word_induction {motive : Line → Prop} (nil : motive [])
    (gap : ∀ c l, isWord c = false → motive l → motive (c :: l))
    (word : ∀ w l, IsWordText w → startsInWord l = false → motive l → motive (w ++ l))
    (l : Line) : motive l :=
  run_induction isWord nil gap (fun w l hne hw hl => word w l ⟨hne, hw⟩ hl) l

/-! ## the words of a line -/

/-- The words that begin in `l`, before which `pos` characters stand; `inWord` says that the last
of these is a word character. -/
def wordRunsFrom (pos : Nat) (inWord : Bool) : Line → List Span
  | [] => []
  | c :: l =>
    if isWord c && !inWord then
      ⟨pos, pos + ((c :: l).takeWhile isWord).length⟩ :: wordRunsFrom (pos + 1) true l
    else wordRunsFrom (pos + 1) (isWord c) l

/-- the maximal runs of word characters, from left to right -/
def wordRuns (l : Line) : List Span :=
  wordRunsFrom 0 false l

theorem wordRunsFrom_gap {c : Char} (hc : isWord c = false) (pos : Nat) (inWord : Bool) (l : Line) :
    wordRunsFrom pos inWord (c :: l) = wordRunsFrom (pos + 1) false l := by
  rw [wordRunsFrom, hc]
  rfl

theorem wordRunsFrom_inside {w : Line} (hw : ∀ c ∈ w, isWord c = true) (pos : Nat) (l : Line) :
    wordRunsFrom pos true (w ++ l) = wordRunsFrom (pos + w.length) true l := by
  induction w generalizing pos with
  | nil => rfl
  | cons c w ih =>
    have hc : isWord c = true := hw c List.mem_cons_self
    rw [List.cons_append, wordRunsFrom, hc, if_neg (by decide),
      ih (fun d hd => hw d (List.mem_cons_of_mem _ hd)), List.length_cons]
    congr 1
    omega

theorem wordRunsFrom_of_not_startsInWord {l : Line} (h : startsInWord l = false) (pos : Nat)
    (inWord : Bool) : wordRunsFrom pos inWord l = wordRunsFrom pos false l := by
  cases l with
  | nil => rfl
  | cons c l => rw [wordRunsFrom_gap h, wordRunsFrom_gap h]

theorem wordRunsFrom_word {w l : Line} (hw : IsWordText w) (hl : startsInWord l = false)
    (pos : Nat) : wordRunsFrom pos false (w ++ l) =
      ⟨pos, pos + w.length⟩ :: wordRunsFrom (pos + w.length) false l := by
  have htake : (w ++ l).takeWhile isWord = w := takeWhile_append_of_run hw.isWord hl
  obtain ⟨c, r, rfl⟩ := List.exists_cons_of_ne_nil hw.ne_nil
  have hc : isWord c = true := hw.isWord c List.mem_cons_self
  rw [List.cons_append] at htake ⊢
  rw [wordRunsFrom, hc, if_pos (by decide), htake,
    wordRunsFrom_inside fun d hd => hw.isWord d (List.mem_cons_of_mem _ hd),
    wordRunsFrom_of_not_startsInWord hl, List.length_cons]
  congr 2
  omega

theorem wordRunsFrom_eq_scanFrom (l : Line) (pos : Nat) :
    wordRunsFrom pos false l = scanFrom (runLength isWord) pos 0 l := by
  induction l using word_induction generalizing pos with
  | nil => rfl
  | gap c l hc ih => rw [wordRunsFrom_gap hc, scanFrom_gap hc, ih]
  | word w l hw hl ih =>
    rw [wordRunsFrom_word hw hl, scanFrom_run hw.ne_nil hw.isWord hl, ih]

/-- a cut that splits no word splits the list of words -/
theorem wordRunsFrom_append {a b : Line} (h : endsInWord a = false ∨ startsInWord b = false)
    (pos : Nat) : wordRunsFrom pos false (a ++ b) =
      wordRunsFrom pos false a ++ wordRunsFrom (pos + a.length) false b := by
  simp only [wordRunsFrom_eq_scanFrom]
  exact scanFrom_runLength_append h pos

theorem wordRuns_append {a b : Line} (h : endsInWord a = false ∨ startsInWord b = false) :
    wordRuns (a ++ b) = wordRuns a ++ wordRunsFrom a.length false b := by
  rw [wordRuns, wordRunsFrom_append h, Nat.zero_add]
  rfl

theorem le_start_of_mem_wordRunsFrom {l : Line} {pos : Nat} {inWord : Bool} :
    ∀ s ∈ wordRunsFrom pos inWord l, pos ≤ s.start := by
  induction l generalizing pos inWord with
  | nil => exact fun s hs => absurd hs List.not_mem_nil
  | cons c l ih =>
    intro s hs
    unfold wordRunsFrom at hs
    split at hs
    · rcases List.mem_cons.mp hs with rfl | hs
      · exact Nat.le_refl pos
      · exact Nat.le_of_succ_le (ih s hs)
    · exact Nat.le_of_succ_le (ih s hs)

theorem wordRunsFrom_pairwise (l : Line) (pos : Nat) (inWord : Bool) :
    (wordRunsFrom pos inWord l).Pairwise fun s t => s.start < t.start := by
  induction l generalizing pos inWord with
  | nil => exact List.Pairwise.nil
  | cons c l ih =>
    unfold wordRunsFrom
    split
    · exact List.pairwise_cons.mpr ⟨fun s hs => le_start_of_mem_wordRunsFrom s hs, ih _ _⟩
    · exact ih _ _

theorem wordRuns_nodup (l : Line) : (wordRuns l).Nodup := by
  refine List.nodup_iff_pairwise_ne.mpr ((wordRunsFrom_pairwise l 0 false).imp ?_)
  intro s t hlt heq
  rw [heq] at hlt
  exact Nat.lt_irrefl _ hlt

/-! ## words as maximal runs -/

/-- A stretch of word characters that no word character touches. -/
def IsWordRun (l : Line) (s : Span) : Prop :=
  ∃ before w after, l = before ++ (w ++ after) ∧ endsInWord before = false ∧ IsWordText w ∧
    startsInWord after = false ∧ s = ⟨before.length, before.length + w.length⟩

theorem isWordRun_iff (l : Line) (s : Span) : IsWordRun l s ↔ IsRun isWord l s := by
  constructor
  · rintro ⟨a, w, b, hl, ha, hw, hb, hs⟩
    exact ⟨a, w, b, hl, ha, hw.ne_nil, hw.isWord, hb, hs⟩
  · rintro ⟨a, w, b, hl, ha, hne, hw, hb, hs⟩
    exact ⟨a, w, b, hl, ha, ⟨hne, hw⟩, hb, hs⟩

/-- the words of a line are exactly its maximal runs of word characters -/
theorem mem_wordRuns_iff (l : Line) (s : Span) : s ∈ wordRuns l ↔ IsWordRun l s := by
  rw [isWordRun_iff, ← mem_maximalRuns_iff, wordRuns, wordRunsFrom_eq_scanFrom]
  rfl

/-! ## the texts of the words -/

/-- the words of a line, from left to right -/
def wordsOf (l : Line) : List String :=
  (wordRuns l).map fun s => s.text l

theorem Span.chars_between (p w r : Line) :
    (Span.mk p.length (p.length + w.length)).chars (p ++ (w ++ r)) = w := by
  show ((p ++ (w ++ r)).take (p.length + w.length)).drop p.length = w
  rw [List.take_length_add_append, List.take_left, List.drop_left]

theorem getElem?_behind (p b : Line) : (p ++ b)[p.length]? = b.head? := by
  rw [List.getElem?_append_right (Nat.le_refl _), Nat.sub_self, List.head?_eq_getElem?]

theorem Span.toList_text (s : Span) (l : Line) : (s.text l).toList = s.chars l :=
  String.toList_ofList

theorem Span.text_eq_iff {s : Span} {l : Line} {name : String} :
    s.text l = name ↔ s.chars l = name.toList := by
  rw [← toList_text, String.toList_inj]

/-- the words of a line do not depend on what stands before it -/
theorem map_text_wordRunsFrom (l pre pre' : Line) :
    (wordRunsFrom pre.length false l).map (fun s => s.text (pre ++ l)) =
      (wordRunsFrom pre'.length false l).map fun s => s.text (pre' ++ l) := by
  induction l using word_induction generalizing pre pre' with
  | nil => rfl
  | gap c l hc ih =>
    have step : ∀ q : Line,
        (wordRunsFrom q.length false (c :: l)).map (fun s => s.text (q ++ c :: l)) =
        (wordRunsFrom (q ++ [c]).length false l).map fun s => s.text ((q ++ [c]) ++ l) := by
      intro q
      rw [wordRunsFrom_gap hc, List.length_append, List.append_assoc]
      rfl
    rw [step, step, ih]
  | word w l hw hl ih =>
    have step : ∀ q : Line,
        (wordRunsFrom q.length false (w ++ l)).map (fun s => s.text (q ++ (w ++ l))) =
        String.ofList w ::
          (wordRunsFrom (q ++ w).length false l).map fun s => s.text ((q ++ w) ++ l) := by
      intro q
      rw [wordRunsFrom_word hw hl, List.map_cons, Span.text, Span.chars_between, List.length_append,
        List.append_assoc]
    rw [step, step, ih]

theorem wordsOf_append {a b : Line} (h : endsInWord a = false ∨ startsInWord b = false) :
    wordsOf (a ++ b) = wordsOf a ++ wordsOf b := by
  have hleft : ∀ s ∈ wordRuns a, s.text (a ++ b) = s.text a := by
    intro s hs
    obtain ⟨x, w, y, rfl, -, -, -, rfl⟩ := (mem_wordRuns_iff a s).mp hs
    rw [Span.text, Span.text, Span.chars_between, List.append_assoc, List.append_assoc,
      Span.chars_between]
  rw [wordsOf, wordRuns_append h, List.map_append, List.map_congr_left hleft,
    map_text_wordRunsFrom b a []]
  rfl

theorem wordsOf_gap {c : Char} (hc : isWord c = false) (l : Line) :
    wordsOf (c :: l) = wordsOf l := by
  have hsingle : wordsOf [c] = [] := by
    rw [wordsOf, wordRuns, wordRunsFrom_gap hc]
    rfl
  have hedge : endsInWord [c] = false := hc
  rw [← List.singleton_append, wordsOf_append (Or.inl hedge), hsingle, List.nil_append]

theorem wordsOf_word {w l : Line} (hw : IsWordText w) (hl : startsInWord l = false) :
    wordsOf (w ++ l) = String.ofList w :: wordsOf l := by
  have hsingle : wordsOf w = [String.ofList w] := by
    have hruns := wordRunsFrom_word hw startsInWord_nil 0
    have hchars := Span.chars_between [] w []
    rw [List.append_nil] at hruns hchars
    rw [wordsOf, wordRuns, hruns]
    exact congrArg (fun x => [String.ofList x]) hchars
  rw [wordsOf_append (Or.inr hl), hsingle, List.singleton_append]

theorem wordsOf_of_blank {g : Line} (hg : AllBlank g) : wordsOf g = [] := by
  induction g with
  | nil => rfl
  | cons c g ih =>
    rw [wordsOf_gap (not_isWord_of_isBlank (hg c List.mem_cons_self)),
      ih fun d hd => hg d (List.mem_cons_of_mem _ hd)]

end LanguageService
