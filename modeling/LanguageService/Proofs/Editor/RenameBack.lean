import LanguageService.Proofs.Editor.Rename
import LanguageService.Proofs.Editor.Usages

/-!
# Renaming undone

A renaming exchanges two words, one of which does not occur in the text.  Behind it the other one
does not occur any more, and the same exchange, made by replacing every occurrence of the new name,
leads back to the text.

* `length_occurrences`       there are as many occurrences of a name as words that equal it
* `splitAtFeeds_injective`   a text is determined by its pieces
* `length_occurrences_mapWords`   with two names exchanged each occurs as often as the other did
* `applyEdits_renameBack`    the text after the edits back
* `rename_undone`            what a renaming does to the occurrences, and how it is undone
-/

namespace LanguageService

theorem length_occurrences {name : String} (hname : IsWordText name.toList) (lines : List Line) :
    (occurrences lines name).length = (lines.flatMap wordsOf).count name := by
  rw [occurrences_eq hname, numberLines]
  generalize 0 = k
  induction lines generalizing k with
  | nil => rfl
  | cons l lines ih =>
    rw [numberFrom, List.flatMap_cons, List.length_append, ih, List.flatMap_cons,
      List.count_append, List.length_map]
    congr 1
    rw [wordsOf, List.count, List.countP_map, List.countP_eq_length_filter]
    rfl

theorem splitAtFeeds_injective {text text' : Line} (h : splitAtFeeds text = splitAtFeeds text') :
    text = text' := by
  obtain ⟨q, post, hq⟩ := List.exists_cons_of_ne_nil (splitAtFeeds_ne_nil text)
  rw [eq_of_splitAtFeeds hq, eq_of_splitAtFeeds (h.symm.trans hq)]

/-! ## names exchanged -/

theorem swapName_comm (w n x : Line) : swapName n w x = swapName w n x := by
  rcases swapName_cases w n x with rfl | rfl | h
  · rw [swapName_left, swapName_right]
  · rw [swapName_left, swapName_right]
  · by_cases hw : x = w
    · rw [hw, swapName_left, swapName_right]
    · by_cases hn : x = n
      · rw [hn, swapName_left, swapName_right]
      · rw [h, swapName_other hn hw]

theorem exchangeText_injective (w n : Line) : Function.Injective (exchangeText (swapName w n)) :=
  Function.LeftInverse.injective (exchangeText_involutive (swapName_swapName w n))

section
variable {w n : String} (hw : IsWordText w.toList) (hn : IsWordText n.toList)
include hw hn

theorem flatMap_wordsOf_mapWords (lines : List Line) :
    (lines.map (mapWords (swapName w.toList n.toList))).flatMap wordsOf =
      (lines.flatMap wordsOf).map (exchangeText (swapName w.toList n.toList)) := by
  rw [List.flatMap_map, List.map_flatMap]
  apply List.flatMap_congr
  intro l _
  exact wordsOf_mapWords (isWordText_swapName hw hn) l

/-- Each of the two names occurs as often as the other one did. -/
theorem length_occurrences_mapWords (lines : List Line) :
    (occurrences (lines.map (mapWords (swapName w.toList n.toList))) n).length =
      (occurrences lines w).length ∧
    (occurrences (lines.map (mapWords (swapName w.toList n.toList))) w).length =
      (occurrences lines n).length := by
  have hcount (name : String) : ((lines.map (mapWords (swapName w.toList n.toList))).flatMap
      wordsOf).count (exchangeText (swapName w.toList n.toList) name) =
        (lines.flatMap wordsOf).count name := by
    rw [flatMap_wordsOf_mapWords hw hn]
    exact List.count_map_of_injective _ _ (exchangeText_injective _ _) name
  have hleft : exchangeText (swapName w.toList n.toList) w = n := by
    rw [exchangeText, swapName_left, String.ofList_toList]
  have hright : exchangeText (swapName w.toList n.toList) n = w := by
    rw [exchangeText, swapName_right, String.ofList_toList]
  refine ⟨?_, ?_⟩
  · rw [length_occurrences hn, length_occurrences hw, ← hcount w, hleft]
  · rw [length_occurrences hw, length_occurrences hn, ← hcount n, hright]

/-! ## the edits back -/

theorem applyEdits_renameBack {text : Line} (hfresh : occurrences (splitLines text) n = [])
    {text' : Line} (htext' : text' =
      applyEdits text ((occurrences (splitLines text) w).map fun r => ⟨r, n.toList⟩))
    (hold : occurrences (splitLines text') w = []) :
    applyEdits text' ((occurrences (splitLines text') n).map fun r => ⟨r, w.toList⟩) = text := by
  have hnew := not_mem_wordsOf_of_occurrences hn hfresh
  have hback := not_mem_wordsOf_of_occurrences hw hold
  apply splitAtFeeds_injective
  rw [splitAtFeeds_renameEdits hn hw (by rwa [String.ofList_toList]), htext',
    splitAtFeeds_renameEdits hw hn (by rwa [String.ofList_toList]), List.map_map]
  refine (List.map_congr_left fun q _ => ?_).trans (List.map_id _)
  show mapWords (swapName n.toList w.toList) (mapWords (swapName w.toList n.toList) q) = q
  rw [funext (swapName_comm w.toList n.toList)]
  exact mapWords_mapWords (isWordText_swapName hw hn) (swapName_swapName _ _) q

end

/-- **Renaming can be undone.**  Let the word under the cursor be an identifier and not reserved, and
the new name an identifier that does not occur in the text.  Then there are edits; behind them the
new name occurs as often as the word did before, the word does not occur any more, and if the word is
put back at every occurrence of the new name, then the text is the old one. -/
theorem rename_undone (text : Line) (p : Position) (site : WordSite) (newName : String)
    (hword : wordAt (splitLines text) p = some site) (hold : isIdentifier site.word = true)
    (hold' : isReserved site.word = false) (hnew : isIdentifier newName = true)
    (hfresh : occurrences (splitLines text) newName = []) :
    ∃ edits, rename? (splitLines text) p newName = some edits ∧
      let renamed := applyEdits text edits
      (occurrences (splitLines renamed) newName).length =
        (occurrences (splitLines text) site.word).length ∧
      occurrences (splitLines renamed) site.word = [] ∧
      applyEdits renamed ((occurrences (splitLines renamed) newName).map fun r =>
        ⟨r, site.word.toList⟩) = text := by
  have hw := (isName_of_isIdentifier hold).isWordText
  have hn := (isName_of_isIdentifier hnew).isWordText
  refine ⟨_, rename?_eq hword hold' hnew, ?_⟩
  intro renamed
  have hlines : splitLines renamed =
      (splitLines text).map (mapWords (swapName site.word.toList newName.toList)) := by
    have hwords := not_mem_wordsOf_of_occurrences hn hfresh
    exact splitLines_renameEdits hw hn (by rwa [String.ofList_toList])
  obtain ⟨hcount, hgone⟩ := length_occurrences_mapWords hw hn (splitLines text)
  rw [← hlines] at hcount hgone
  rw [hfresh] at hgone
  have hnone := List.length_eq_zero_iff.mp hgone
  exact ⟨hcount, hnone, applyEdits_renameBack hw hn hfresh rfl hnone⟩

/-- Words that begin with the word, stand behind a surrogate pair and an accented letter, and lines
with both terminators. -/
def touchedText : Line :=
  "foo+𝄞foo éfoo\r\nfoo(foo_, foo)\n".toList

/-- The new name may be a keyword. -/
theorem rename_touchedText : ∃ edits,
    rename? (splitLines touchedText) ⟨1, 3⟩ "in" = some edits ∧
      applyEdits touchedText edits = "in+𝄞in éfoo\r\nin(foo_, in)\n".toList ∧
      (occurrences (splitLines (applyEdits touchedText edits)) "in").length = 4 ∧
      occurrences (splitLines (applyEdits touchedText edits)) "foo" = [] ∧
      applyEdits (applyEdits touchedText edits)
        ((occurrences (splitLines (applyEdits touchedText edits)) "in").map fun r =>
          ⟨r, "foo".toList⟩) = touchedText := by
  have hword : wordAt (splitLines touchedText) ⟨1, 3⟩ = some ⟨"foo", ⟨⟨1, 0⟩, ⟨1, 3⟩⟩⟩ := by
    decide +kernel
  obtain ⟨edits, hedits, hcount, hgone, hback⟩ := rename_undone touchedText ⟨1, 3⟩
    ⟨"foo", ⟨⟨1, 0⟩, ⟨1, 3⟩⟩⟩ "in" hword (by decide +kernel) (by decide +kernel)
    (by decide +kernel) (by decide +kernel)
  have hfound : rename? (splitLines touchedText) ⟨1, 3⟩ "in" =
      some [⟨⟨⟨0, 0⟩, ⟨0, 3⟩⟩, ['i', 'n']⟩, ⟨⟨⟨0, 6⟩, ⟨0, 9⟩⟩, ['i', 'n']⟩,
        ⟨⟨⟨1, 0⟩, ⟨1, 3⟩⟩, ['i', 'n']⟩, ⟨⟨⟨1, 10⟩, ⟨1, 13⟩⟩, ['i', 'n']⟩] := by
    decide +kernel
  refine ⟨edits, hedits, ?_, hcount.trans (by decide +kernel), hgone, hback⟩
  rw [← Option.some.inj (hfound.symm.trans hedits)]
  decide +kernel

end LanguageService
