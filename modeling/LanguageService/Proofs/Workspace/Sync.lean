import LanguageService.Workspace.Store
import LanguageService.Proofs.Text.Lines

/-!
# Incremental changes agree with full ones

A stored document and the analysis know different line breaks.  They read every position alike as
long as a text holds no break but LF and CR LF, and no change of such a document brings another one
in, because a position never lies between the two characters of CR LF.

* `plainBreaks t`          no line break but LF and CR LF
* `PlainLines ls ps`       the stored lines of such a text beside the pieces between its line feeds
* `charOffset_eq_decoded`   both decoders find the same place
* `plainBreaks_apply`      a change keeps the text plain
* `update_eq_decoded`      a batch of changes has the effect of one full change
-/

namespace LanguageService

/-- Every line break is a line feed, or a carriage return with a line feed behind it. -/
def plainBreaks : Line → Bool
  | [] => true
  | '\r' :: '\n' :: rest => plainBreaks rest
  | c :: rest => (!isBreak c || c == '\n') && plainBreaks rest

theorem plainBreaks_cons {c : Char} (hc : isBreak c = false) (rest : Line) :
    plainBreaks (c :: rest) = plainBreaks rest := by
  have hr : c ≠ '\r' := by
    rintro rfl
    exact absurd hc (by decide)
  rw [plainBreaks]
  · rw [hc]
    rfl
  · exact fun _ h => absurd h hr

/-! ## stored lines and pieces -/

/-- no line break at all -/
def Unbroken (x : Line) : Prop := ∀ c ∈ x, isBreak c = false

/-- The lines of a stored text beside the pieces between its line feeds, if it holds no break but LF
and CR LF. -/
inductive PlainLines : List Line → List Line → Prop where
  | last {x : Line} : Unbroken x → PlainLines [x] [x]
  | feed {x : Line} {ls ps : List Line} : Unbroken x → PlainLines ls ps →
      PlainLines ((x ++ ['\n']) :: ls) (x :: ps)
  | returnFeed {x : Line} {ls ps : List Line} : Unbroken x → PlainLines ls ps →
      PlainLines ((x ++ ['\r', '\n']) :: ls) ((x ++ ['\r']) :: ps)

theorem unbroken_cons {c : Char} {x : Line} (hc : isBreak c = false) (hx : Unbroken x) :
    Unbroken (c :: x) := by
  intro d hd
  rcases List.mem_cons.mp hd with rfl | hd
  · exact hc
  · exact hx d hd

theorem unbroken_nil : Unbroken [] := fun _ h => absurd h List.not_mem_nil

theorem PlainLines.ne_nil {ls ps : List Line} (h : PlainLines ls ps) : ls ≠ [] ∧ ps ≠ [] := by
  cases h <;> exact ⟨List.cons_ne_nil _ _, List.cons_ne_nil _ _⟩

theorem splitAtFeeds_cons {c : Char} (hc : c ≠ '\n') (rest : Line) {l : Line} {ls : List Line}
    (h : splitAtFeeds rest = l :: ls) : splitAtFeeds (c :: rest) = (c :: l) :: ls := by
  rw [splitAtFeeds, if_neg hc, h]

theorem PlainLines.cons {c : Char} {rest : Line} (hc : isBreak c = false)
    (h : PlainLines (brokenLines rest) (splitAtFeeds rest)) :
    PlainLines (brokenLines (c :: rest)) (splitAtFeeds (c :: rest)) := by
  have hr : c ≠ '\r' := by
    rintro rfl
    exact absurd hc (by decide)
  have hn : c ≠ '\n' := by
    rintro rfl
    exact absurd hc (by decide)
  have hbroken : brokenLines (c :: rest) = consLine c (brokenLines rest) := by
    rw [brokenLines]
    · rw [if_neg (Bool.eq_false_iff.mp hc)]
    · exact fun _ h => absurd h hr
  rw [hbroken]
  generalize hls : brokenLines rest = ls at h ⊢
  generalize hps : splitAtFeeds rest = ps at h
  cases h with
  | last hx =>
    rw [splitAtFeeds_cons hn rest hps]
    exact .last (unbroken_cons hc hx)
  | feed hx h =>
    rw [splitAtFeeds_cons hn rest hps]
    exact .feed (unbroken_cons hc hx) h
  | returnFeed hx h =>
    rw [splitAtFeeds_cons hn rest hps]
    exact .returnFeed (unbroken_cons hc hx) h

theorem plainLines_of_plainBreaks {t : Line} (h : plainBreaks t = true) :
    PlainLines (brokenLines t) (splitAtFeeds t) := by
  fun_induction plainBreaks t with
  | case1 => exact .last unbroken_nil
  | case2 rest ih => exact .returnFeed unbroken_nil (ih h)
  | case3 c rest hcr ih =>
    obtain ⟨hc, hrest⟩ := Bool.and_eq_true_iff.mp h
    by_cases hb : isBreak c = true
    · rw [hb] at hc
      obtain rfl : c = '\n' := beq_iff_eq.mp hc
      exact .feed unbroken_nil (ih hrest)
    · exact .cons (Bool.eq_false_iff.mpr hb) (ih hrest)

/-! ## one place for every position -/

/-- the text is empty, or it begins with a carriage return or line feed -/
def StopsColumn (e : Line) : Prop := ∀ c r, e = c :: r → c = '\n' ∨ c = '\r'

theorem breakPlace_append {x e : Line} (hx : Unbroken x) (he : StopsColumn e) (col : Nat) :
    breakPlace (x ++ e) col = place x col := by
  induction x generalizing col with
  | nil =>
    rw [List.nil_append]
    cases e with
    | nil => rfl
    | cons c r => rw [breakPlace, if_pos (Or.inr (he c r rfl)), place]
  | cons c x ih =>
    have hc : c ≠ '\n' ∧ c ≠ '\r' := by
      have := hx c List.mem_cons_self
      exact ⟨by rintro rfl; exact absurd this (by decide),
        by rintro rfl; exact absurd this (by decide)⟩
    rw [List.cons_append, breakPlace, place]
    by_cases h0 : col = 0
    · rw [if_pos (Or.inl h0), if_pos h0]
    · rw [if_neg (by simp [h0, hc.1, hc.2]), if_neg h0,
        ih fun d hd => hx d (List.mem_cons_of_mem _ hd)]

theorem dropReturn_of_unbroken {x : Line} (hx : Unbroken x) : dropReturn x = x :=
  dropReturn_of_getLast? fun h => absurd (hx '\r' (List.mem_of_getLast? h)) (by decide)

theorem stopsColumn_nil : StopsColumn [] := fun _ _ h => absurd h.symm (List.cons_ne_nil _ _)

theorem stopsColumn_feed : StopsColumn ['\n'] := fun _ _ h => Or.inl (List.cons.inj h).1.symm

theorem stopsColumn_returnFeed : StopsColumn ['\r', '\n'] :=
  fun _ _ h => Or.inr (List.cons.inj h).1.symm

/-- the stored lines and the pieces give one place for every position -/
theorem PlainLines.offset_eq {ls ps : List Line} (h : PlainLines ls ps) (n col : Nat) :
    offsetInLines ls n col = offsetInPieces ps n col := by
  induction h generalizing n with
  | @last x hx =>
    cases n with
    | zero =>
      have := breakPlace_append hx stopsColumn_nil col
      rw [List.append_nil] at this
      rw [offsetInLines, offsetInPieces, dropReturn_of_unbroken hx, this]
    | succ n => rfl
  | @feed x ls ps hx h ih =>
    cases n with
    | zero =>
      rw [offsetInLines, offsetInPieces, dropReturn_of_unbroken hx,
        breakPlace_append hx stopsColumn_feed]
    | succ n =>
      rw [offsetInLines, offsetInPieces, if_neg (by simpa using h.ne_nil.2), ih, List.length_append,
        List.length_singleton]
  | @returnFeed x ls ps hx h ih =>
    cases n with
    | zero =>
      rw [offsetInLines, offsetInPieces, dropReturn_concat,
        breakPlace_append hx stopsColumn_returnFeed]
    | succ n =>
      rw [offsetInLines, offsetInPieces, if_neg (by simpa using h.ne_nil.2), ih, List.length_append,
        List.length_append]
      rfl

/-- the store and the analysis decode a position alike -/
theorem charOffset_eq_decoded {t : Line} (h : plainBreaks t = true) (p : Position) :
    charOffset t p = decodedOffset t p := by
  rw [← textOffset_eq_decoded]
  exact (plainLines_of_plainBreaks h).offset_eq p.line p.character

/-! ## plain texts stay plain -/

theorem plainBreaks_append {x y : Line} (hx : plainBreaks x = true) (hy : plainBreaks y = true) :
    plainBreaks (x ++ y) = true := by
  fun_induction plainBreaks x with
  | case1 => exact hy
  | case2 rest ih => exact ih hx
  | case3 c rest hcr ih =>
    obtain ⟨hc, hrest⟩ := Bool.and_eq_true_iff.mp hx
    by_cases hb : isBreak c = true
    · rw [hb] at hc
      obtain rfl : c = '\n' := beq_iff_eq.mp hc
      exact ih hrest
    · rw [List.cons_append, plainBreaks_cons (Bool.eq_false_iff.mpr hb)]
      exact ih hrest

theorem plainBreaks_of_unbroken {x : Line} (hx : Unbroken x) : plainBreaks x = true := by
  induction x with
  | nil => rfl
  | cons c x ih =>
    rw [plainBreaks_cons (hx c List.mem_cons_self)]
    exact ih fun d hd => hx d (List.mem_cons_of_mem _ hd)

/-- A cut at a place of a line that is no later than its break leaves both sides plain. -/
theorem plainBreaks_cut {x e rest : Line} (hx : Unbroken x) (he : StopsColumn e)
    (hplain : plainBreaks (e ++ rest) = true) (col : Nat) :
    plainBreaks ((x ++ e ++ rest).take (breakPlace (x ++ e) col)) = true ∧
      plainBreaks ((x ++ e ++ rest).drop (breakPlace (x ++ e) col)) = true := by
  have hle := place_le_length x col
  rw [breakPlace_append hx he, List.append_assoc, List.take_append_of_le_length hle,
    List.drop_append_of_le_length hle]
  exact ⟨plainBreaks_of_unbroken fun c hc => hx c (List.mem_of_mem_take hc),
    plainBreaks_append (plainBreaks_of_unbroken fun c hc => hx c (List.mem_of_mem_drop hc)) hplain⟩

theorem plainBreaks_line {x : Line} (hx : Unbroken x) :
    plainBreaks (x ++ ['\n']) = true ∧ plainBreaks (x ++ ['\r', '\n']) = true :=
  ⟨plainBreaks_append (plainBreaks_of_unbroken hx) rfl,
    plainBreaks_append (plainBreaks_of_unbroken hx) rfl⟩

theorem PlainLines.flatten {ls ps : List Line} (h : PlainLines ls ps) :
    plainBreaks ls.flatten = true := by
  induction h with
  | last hx => exact plainBreaks_append (plainBreaks_of_unbroken hx) rfl
  | feed hx _ ih => exact plainBreaks_append (plainBreaks_line hx).1 ih
  | returnFeed hx _ ih => exact plainBreaks_append (plainBreaks_line hx).2 ih

theorem PlainLines.cut {ls ps : List Line} (h : PlainLines ls ps) (n col : Nat) :
    plainBreaks (ls.flatten.take (offsetInLines ls n col)) = true ∧
      plainBreaks (ls.flatten.drop (offsetInLines ls n col)) = true := by
  have later : ∀ {l : Line} {ls : List Line} (k : Nat), plainBreaks l = true →
      plainBreaks (ls.flatten.take k) = true ∧ plainBreaks (ls.flatten.drop k) = true →
      plainBreaks ((l :: ls).flatten.take (l.length + k)) = true ∧
        plainBreaks ((l :: ls).flatten.drop (l.length + k)) = true := by
    intro l ls k hl hk
    rw [List.flatten_cons, List.take_length_add_append, List.drop_length_add_append]
    exact ⟨plainBreaks_append hl hk.1, hk.2⟩
  induction h generalizing n with
  | @last x hx =>
    cases n with
    | zero =>
      have := @plainBreaks_cut x [] [] hx stopsColumn_nil rfl col
      rw [List.append_nil, List.append_nil] at this
      rw [List.flatten_singleton]
      exact this
    | succ n => exact later 0 (plainBreaks_of_unbroken hx) ⟨rfl, rfl⟩
  | @feed x ls ps hx h ih =>
    cases n with
    | zero => exact plainBreaks_cut hx stopsColumn_feed h.flatten col
    | succ n => exact later _ (plainBreaks_line hx).1 (ih n)
  | @returnFeed x ls ps hx h ih =>
    cases n with
    | zero => exact plainBreaks_cut hx stopsColumn_returnFeed h.flatten col
    | succ n => exact later _ (plainBreaks_line hx).2 (ih n)

theorem plainBreaks_take_drop {t : Line} (h : plainBreaks t = true) (p : Position) :
    plainBreaks (t.take (charOffset t p)) = true ∧
      plainBreaks (t.drop (charOffset t p)) = true := by
  have := (plainLines_of_plainBreaks h).cut p.line p.character
  rwa [flatten_brokenLines] at this

theorem plainBreaks_apply {t : Line} {c : Change} (ht : plainBreaks t = true)
    (hc : plainBreaks c.text = true) : plainBreaks (c.apply t) = true := by
  unfold Change.apply
  split
  · exact hc
  · next r _ =>
    have hdrop :
        plainBreaks (t.drop (max (charOffset t r.start) (charOffset t r.stop))) = true := by
      rcases Nat.le_total (charOffset t r.start) (charOffset t r.stop) with h | h
      · rw [Nat.max_eq_right h]
        exact (plainBreaks_take_drop ht _).2
      · rw [Nat.max_eq_left h]
        exact (plainBreaks_take_drop ht _).2
    exact plainBreaks_append (plainBreaks_append (plainBreaks_take_drop ht _).1 hc) hdrop

/-! ## batches -/

/-- A text after a change whose positions are decoded against the lines of the analysis; a range
that ends before it starts is empty at its start. -/
def Change.applyDecoded (c : Change) (text : Line) : Line :=
  match c.range with
  | none => c.text
  | some r =>
    let a := decodedOffset text r.start
    let b := max a (decodedOffset text r.stop)
    text.take a ++ c.text ++ text.drop b

/-- the text after several such changes, one after the other -/
def decodedChanges (text : Line) (changes : List Change) : Line :=
  changes.foldl (fun t c => c.applyDecoded t) text

theorem apply_eq_applyDecoded {t : Line} (ht : plainBreaks t = true) (c : Change) :
    c.apply t = c.applyDecoded t := by
  obtain ⟨_ | r, s⟩ := c
  · rfl
  · show t.take (charOffset t r.start) ++ s ++
      t.drop (max (charOffset t r.start) (charOffset t r.stop)) = _
    rw [charOffset_eq_decoded ht, charOffset_eq_decoded ht]
    rfl

theorem applyChanges_eq_decoded (changes : List Change) (t : Line) (ht : plainBreaks t = true)
    (hc : ∀ c ∈ changes, plainBreaks c.text = true) :
    applyChanges t changes = decodedChanges t changes := by
  induction changes generalizing t with
  | nil => rfl
  | cons c changes ih =>
    have hhead := hc c List.mem_cons_self
    show applyChanges (c.apply t) changes = decodedChanges (c.applyDecoded t) changes
    rw [ih (c.apply t) (plainBreaks_apply ht hhead) fun d hd => hc d (List.mem_cons_of_mem _ hd),
      apply_eq_applyDecoded ht]

theorem Store.text_openDocument (s : Store) (uri : String) (text : Line) (version : Int) :
    (s.openDocument uri text version).text uri = text := by
  have h : (s.openDocument uri text version).get? uri = some (.new uri text version) :=
    Store.get?_insert s _
  rw [Store.text, h]
  rfl

/-- **Incremental changes.**  If a text and the texts of some changes hold no break but LF and
CR LF, the stored document after the changes is that of the text with every position decoded as the
analysis decodes it, and so the store is the one that a single full change leaves behind. -/
theorem update_eq_decoded (s : Store) (uri : String) (text : Line) (version newVersion : Int)
    (changes : List Change) (ht : plainBreaks text = true)
    (hc : ∀ c ∈ changes, plainBreaks c.text = true) :
    ((s.openDocument uri text version).update uri changes newVersion).get? uri =
        some (.new uri (decodedChanges text changes) newVersion) ∧
      (s.openDocument uri text version).update uri changes newVersion =
        (s.openDocument uri text version).update uri
          [⟨none, decodedChanges text changes⟩] newVersion := by
  have hupdate : (s.openDocument uri text version).update uri changes newVersion =
      (s.openDocument uri text version).insert
        (.new uri (decodedChanges text changes) newVersion) := by
    rw [Store.update, Store.text_openDocument, applyChanges_eq_decoded changes text ht hc]
  refine ⟨?_, by rw [hupdate]; rfl⟩
  rw [hupdate]
  exact Store.get?_insert _ _

/-- inside a surrogate pair, before CR LF, past the end, and reversed -/
def surrogateChanges : List Change :=
  [⟨some ⟨⟨0, 2⟩, ⟨0, 9⟩⟩, ['x', '\r', '\n']⟩, ⟨some ⟨⟨7, 0⟩, ⟨1, 0⟩⟩, ['y']⟩,
    ⟨some ⟨⟨1, 0⟩, ⟨2, 1⟩⟩, ['z']⟩]

theorem update_surrogateChanges :
    (((Store.empty.openDocument "a" ['a', '😀', 'b', '\r', '\n', 'c'] 1).update "a"
        surrogateChanges 2).get? "a" = some (.new "a" ['a', '😀', 'x', '\r', '\n', 'z', 'y'] 2)) ∧
      decodedChanges ['a', '😀', 'b', '\r', '\n', 'c'] surrogateChanges =
        ['a', '😀', 'x', '\r', '\n', 'z', 'y'] := by
  have hdecoded : decodedChanges ['a', '😀', 'b', '\r', '\n', 'c'] surrogateChanges =
      ['a', '😀', 'x', '\r', '\n', 'z', 'y'] := by decide
  have h := (update_eq_decoded Store.empty "a" ['a', '😀', 'b', '\r', '\n', 'c'] 1 2
    surrogateChanges (by decide) (by decide)).1
  exact ⟨by rw [h, hdecoded], hdecoded⟩

end LanguageService
