import Mathlib.Data.List.Nodup
import LanguageService.Proofs.Editor.Definition
import LanguageService.Proofs.Editor.Usages
import LanguageService.Proofs.Source.TouchedWord

/-!
# Definition, references and highlights of one word

All answers about the word under the cursor come from two searches, one for its occurrences and one
for its declaration.  The declaration is found by a pattern of its own, but what it finds is always
one of the occurrences, and from there the same word is read again.

* `Position.Before`            strict document order
* `occurrences_pairwise`       occurrences stand in document order, none of them twice
* `declarationOf?_mem_occurrences`   the declaration is one of them
* `wordAt_inside`              a word is read from each of its places
* `definitionAt?_inside`       so the definition is found again from each of its places
* `navigation_coherent`        how the answers about a word lie to each other
-/

namespace LanguageService

/-- one position comes before the other in the document -/
def Position.Before (p q : Position) : Prop :=
  p.line < q.line ∨ p.line = q.line ∧ p.character < q.character

theorem Position.Before.ne {p q : Position} (h : p.Before q) : p ≠ q := by
  intro heq
  rw [heq, Position.Before] at h
  omega

/-! ## the occurrences -/

theorem occurrences_pairwise {name : String} (hname : IsWordText name.toList)
    (lines : List Line) :
    (occurrences lines name).Pairwise fun r r' => r.start.Before r'.start := by
  rw [occurrences_eq hname, List.pairwise_flatMap]
  refine ⟨fun k _ => ?_, (numberFrom_pairwise lines 0).imp fun hlt r hr r' hr' => ?_⟩
  · rw [List.pairwise_map]
    refine List.Pairwise.imp_of_mem ?_ ((wordRunsFrom_pairwise k.text 0 false).filter _)
    intro s t hs ht hlt
    have htl := (span_le_of_mem_wordRuns (List.mem_filter.mp ht).1).1
    exact Or.inr ⟨rfl, column_strictMono k.text hlt htl⟩
  · obtain ⟨s, -, rfl⟩ := List.mem_map.mp hr
    obtain ⟨t, -, rfl⟩ := List.mem_map.mp hr'
    exact Or.inl hlt

theorem occurrences_nodup {name : String} (hname : IsWordText name.toList) (lines : List Line) :
    (occurrences lines name).Nodup := by
  refine List.nodup_iff_pairwise_ne.mpr ((occurrences_pairwise hname lines).imp fun h heq => ?_)
  exact h.ne (congrArg Range.start heq)

/-! ## the declaration -/

section
variable {name : String} (hname : IsWordText name.toList)
include hname

/-- The name in a declaration is a whole word: white space stands before it, and behind it white
space, an equals sign or a word edge. -/
theorem mem_wordRuns_of_declaredSpan? {l : Line} {s : Span} (h : declaredSpan? name l = some s) :
    s ∈ wordRuns l ∧ s.text l = name := by
  obtain ⟨m, hm, hgroup⟩ := Option.bind_eq_some_iff.mp h
  obtain ⟨p, b, rfl, hat⟩ := Pattern.exists_matchAt?_of_first? hm
  obtain ⟨x, y, gs, rfl, hf, rfl⟩ := Pattern.fits_of_matchAt? hat
  have hword {keyword gap r : Line} (hne : gap ≠ []) (hgap : AllBlank gap)
      (hr : startsInWord r = false)
      (hline : p ++ (x ++ y) = (p ++ (keyword ++ gap)) ++ (name.toList ++ r))
      (hs : nameSpan keyword p gap name.toList = s) :
      s ∈ wordRuns (p ++ (x ++ y)) ∧ s.text (p ++ (x ++ y)) = name := by
    have hedge : endsInWord (p ++ (keyword ++ gap)) = false := by
      rw [← List.append_assoc, endsInWord_append _ hne, endsInWord_of_blank hgap]
    rw [hline, ← hs, nameSpan]
    exact ⟨(mem_wordRuns_between hname).mpr ⟨hedge, hr⟩,
      Span.text_eq_iff.mpr (Span.chars_between _ _ _)⟩
  rcases hf with hf | hf
  · obtain ⟨-, gap, g, rfl, hne, hgap, hg, rfl⟩ := fits_binding.mp hf
    refine hword hne hgap (startsInWord_append_equals hg y) ?_ (Option.some.inj hgroup)
    simp only [List.append_assoc, List.singleton_append]
  · obtain ⟨-, gap, rfl, hne, hgap, hy, rfl⟩ := (fits_imported hname).mp hf
    refine hword hne hgap hy ?_ (Option.some.inj hgroup)
    simp only [List.append_assoc]

theorem declarationOf?_mem_occurrences {lines : List Line} {r : Range}
    (h : declarationOf? lines name = some r) : r ∈ occurrences lines name := by
  obtain ⟨n, l, s, hl, hs, rfl, -⟩ := exists_of_declarationOf? h
  obtain ⟨hrun, htext⟩ := mem_wordRuns_of_declaredSpan? hname hs
  exact (range_mem_occurrences_iff hl (span_le_of_mem_wordRuns hrun) hname).mpr ⟨hrun, htext⟩

end

/-! ## the word at an occurrence -/

theorem isRun_of_mem_wordRuns {l : Line} {s : Span} (hrun : s ∈ wordRuns l)
    (hname : ∀ c ∈ s.chars l, isNameChar c = true) : IsRun isNameChar l s := by
  obtain ⟨before, w, after, rfl, hbefore, hw, hafter, rfl⟩ := (mem_wordRuns_iff l s).mp hrun
  rw [Span.chars_between] at hname
  have hend {o : Option Char} (h : o.any isWord = false) : o.any isNameChar = false := by
    cases o with
    | none => rfl
    | some c => exact not_isNameChar_of_not_isWord h
  exact ⟨before, w, after, rfl, hend hbefore, hw.ne_nil, hname, hend hafter, rfl⟩

/-- From each place of an occurrence the word is read, both ends included. -/
theorem wordAt_inside {lines : List Line} {n : Nat} {l : Line} {s : Span} {name : String}
    (hl : lines[n]? = some l) (hrun : s ∈ wordRuns l) (htext : s.text l = name)
    (hname : ∀ c ∈ name.toList, isNameChar c = true) {q : Position} (hline : q.line = n)
    (hle : column l s.start ≤ q.character) (hge : q.character ≤ column l s.stop) :
    wordAt lines q = some ⟨name, s.range n l⟩ := by
  subst hline htext
  rw [Span.toList_text] at hname
  exact wordAt_of_run hl (isRun_of_mem_wordRuns hrun hname) hle hge

theorem definitionAt?_inside {lines : List Line} {name : String} (hne : name.toList ≠ [])
    (hname : ∀ c ∈ name.toList, isNameChar c = true) {r : Range}
    (h : declarationOf? lines name = some r) {q : Position} (hle : r.start.le q = true)
    (hge : q.le r.stop = true) : definitionAt? lines q = some r := by
  obtain ⟨n, l, s, hl, hs, rfl, -⟩ := exists_of_declarationOf? h
  obtain ⟨hrun, htext⟩ := mem_wordRuns_of_declaredSpan? (isWordText_of_isNameChar hne hname) hs
  have hlow : n < q.line ∨ n = q.line ∧ column l s.start ≤ q.character := Position.le_iff.mp hle
  have hhigh : q.line < n ∨ q.line = n ∧ q.character ≤ column l s.stop := Position.le_iff.mp hge
  have hword := wordAt_inside hl hrun htext hname (q := q) (by omega) (by omega) (by omega)
  rw [definitionAt?, hword]
  exact h

/-! ## the answers -/

/-- Among ranges without repetitions, one is left out of the uses and written in the highlights. -/
theorem answers_around {before after : List Range} {r : Range}
    (h : (before ++ r :: after).Nodup) :
    ((before ++ r :: after).filter fun x => some x != some r) = before ++ after ∧
    (before ++ r :: after).map (fun x =>
        (⟨x, if some x = some r then .write else .read⟩ : Highlight)) =
      before.map (fun x => ⟨x, .read⟩) ++ ⟨r, .write⟩ :: after.map fun x => ⟨x, .read⟩ := by
  have hnot := (List.nodup_cons.mp (List.nodup_middle.mp h)).1
  have hother (xs : List Range) (hxs : r ∉ xs) :
      (xs.filter fun x => some x != some r) = xs ∧
      xs.map (fun x => (⟨x, if some x = some r then .write else .read⟩ : Highlight)) =
        xs.map fun x => ⟨x, .read⟩ := by
    have hne : ∀ x ∈ xs, some x ≠ some r := fun x hx heq => hxs (Option.some.inj heq ▸ hx)
    refine ⟨List.filter_eq_self.mpr fun x hx => bne_iff_ne.mpr (hne x hx),
      List.map_congr_left fun x hx => ?_⟩
    rw [if_neg (hne x hx)]
  obtain ⟨hbefore, hbefore'⟩ := hother before (mt (List.mem_append_left after) hnot)
  obtain ⟨hafter, hafter'⟩ := hother after (mt (List.mem_append_right before) hnot)
  refine ⟨?_, ?_⟩
  · rw [List.filter_append, List.filter_cons_of_neg (by simp), hbefore, hafter]
  · rw [List.map_append, List.map_cons, hbefore', hafter', if_pos rfl]

section
variable {lines : List Line} {p : Position} {site : WordSite} (h : wordAt lines p = some site)
include h

theorem isNameChar_of_wordAt :
    site.word.toList ≠ [] ∧ ∀ c ∈ site.word.toList, isNameChar c = true := by
  obtain ⟨_, x, _, -, hne, hx, hsite⟩ := wordAt_eq h
  rw [hsite, String.toList_ofList]
  exact ⟨hne, hx⟩

theorem usesAt_eq {declared : Option Range} (hd : declarationOf? lines site.word = declared) :
    usesAt lines p = (occurrences lines site.word).filter fun r => some r != declared := by
  rw [usesAt, h]
  simp only [hd]

theorem highlightsAt_eq {declared : Option Range} (hd : declarationOf? lines site.word = declared) :
    highlightsAt lines p = (occurrences lines site.word).map fun r =>
      ⟨r, if some r = declared then .write else .read⟩ := by
  rw [highlightsAt, h]
  simp only [hd]

end

/-- **Definition, references and highlights.**  For the word under the cursor the references are its
occurrences, in document order and none of them twice, and the definition is its declaration.  If
there is none, then all occurrences are uses, and all of them are read.  If there is one, then it is
one of the occurrences; the uses are the others, only it is written, and from each of its places,
both ends included, the definition is found to be there. -/
theorem navigation_coherent {lines : List Line} {p : Position} {site : WordSite}
    (h : wordAt lines p = some site) :
    let found := occurrences lines site.word
    referencesAt lines p = found ∧
    found.Pairwise (fun r r' => r.start.Before r'.start) ∧
    found.Nodup ∧
    definitionAt? lines p = declarationOf? lines site.word ∧
    (declarationOf? lines site.word = none →
      usesAt lines p = found ∧ highlightsAt lines p = found.map fun r => ⟨r, .read⟩) ∧
    ∀ r, declarationOf? lines site.word = some r →
      (∃ before after, found = before ++ r :: after ∧
        usesAt lines p = before ++ after ∧
        highlightsAt lines p = before.map (fun x => ⟨x, .read⟩) ++
          ⟨r, .write⟩ :: after.map fun x => ⟨x, .read⟩) ∧
      ∀ q, r.start.le q = true → q.le r.stop = true → definitionAt? lines q = some r := by
  obtain ⟨hne, hchars⟩ := isNameChar_of_wordAt h
  have hname : IsWordText site.word.toList := isWordText_of_isNameChar hne hchars
  have hnodup := occurrences_nodup hname lines
  refine ⟨by rw [referencesAt, h], occurrences_pairwise hname lines, hnodup,
    by rw [definitionAt?, h, Option.bind_some], fun hnone => ⟨?_, ?_⟩, fun r hr => ⟨?_, ?_⟩⟩
  · rw [usesAt_eq h hnone]
    exact List.filter_eq_self.mpr fun r _ => rfl
  · rw [highlightsAt_eq h hnone]
    exact List.map_congr_left fun r _ => rfl
  · obtain ⟨before, after, hfound⟩ :=
      List.append_of_mem (declarationOf?_mem_occurrences hname hr)
    rw [hfound] at hnodup
    obtain ⟨huses, hmarked⟩ := answers_around hnodup
    refine ⟨before, after, hfound, ?_, ?_⟩
    · rw [usesAt_eq h hr, hfound, huses]
    · rw [highlightsAt_eq h hr, hfound, hmarked]
  · exact fun q hle hge => definitionAt?_inside hne hchars hr hle hge

/-- two declarations and an import of a word that begins with a digit, which also stands behind an
accented letter and a surrogate pair -/
def digitLines : List Line :=
  ["𝄞 1a let 1a = 1a".toList, "import 1a; let 1a = 2".toList, "é1a".toList]

/-- The cursor is behind the accented letter, where the word is no occurrence. -/
theorem navigation_digitLines :
    wordAt digitLines ⟨2, 2⟩ = some ⟨"1a", ⟨⟨2, 1⟩, ⟨2, 3⟩⟩⟩ ∧
      declarationOf? digitLines "1a" = some ⟨⟨0, 10⟩, ⟨0, 12⟩⟩ ∧
      ((⟨⟨0, 10⟩, ⟨0, 12⟩⟩ : Range).start.le ⟨0, 12⟩ = true ∧
        Position.le ⟨0, 12⟩ ⟨0, 12⟩ = true) ∧
      definitionAt? digitLines ⟨0, 12⟩ = some ⟨⟨0, 10⟩, ⟨0, 12⟩⟩ ∧
      definitionAt? digitLines ⟨2, 2⟩ = some ⟨⟨0, 10⟩, ⟨0, 12⟩⟩ := by
  have hword : wordAt digitLines ⟨2, 2⟩ = some ⟨"1a", ⟨⟨2, 1⟩, ⟨2, 3⟩⟩⟩ := by decide +kernel
  have hdeclared : declarationOf? digitLines "1a" = some ⟨⟨0, 10⟩, ⟨0, 12⟩⟩ := by decide +kernel
  obtain ⟨-, -, -, hdefinition, -, hinside⟩ := navigation_coherent hword
  refine ⟨hword, hdeclared, ⟨by decide, by decide⟩, ?_, hdefinition.trans hdeclared⟩
  exact (hinside _ hdeclared).2 ⟨0, 12⟩ (by decide) (by decide)

end LanguageService
