import LanguageService.Source.Word
import LanguageService.Proofs.Text.Cuts
import LanguageService.Proofs.Text.Words

/-!
# The word under the cursor

The run of name characters that touches a place can be found by places or by byte offsets.  Byte
offsets are checked wherever a line is cut, and no check ever fails.

* `wordSpanInBytes? l b`       the run that touches a byte offset
* `wordAtInBytes? lines p`     the word under the cursor, by byte offsets
* `exists_run`                 both scans find the ends of one run of name characters
* `wordAt_eq`                  the word under the cursor is this run
* `wordAtInBytes?_eq`          no cut is impossible, and the words agree
-/

namespace LanguageService

/-- the run of name characters that touches byte offset `b`, from its first to behind its last -/
def wordSpanInBytes? (l : Line) (b : Nat) : Option (Nat × Nat) :=
  (cutAt? l b).map fun parts =>
    ((runIndex? isNameChar parts.1).getD b,
      (((charIndicesFrom b parts.2).find? fun k => !isNameChar k.2).map Prod.fst).getD
        (byteWidth l))

/-- `wordAt`, computed with byte offsets; nothing if a line is cut at an impossible offset -/
def wordAtInBytes? (lines : List Line) (p : Position) : Option (Option WordSite) :=
  match lines[p.line]? with
  | none => some none
  | some l =>
    (wordSpanInBytes? l (byteIndex l p.character)).bind fun s =>
      if s.1 = s.2 then some none
      else (slice? l s.1 s.2).bind fun w => (byteRange? p.line l s.1 s.2).map fun r =>
        some ⟨String.ofList w, r⟩

/-! ## one run -/

theorem wordSpan_append {y z : Line} :
    wordSpan (y ++ z) y.length =
      ⟨y.length - (y.reverse.takeWhile isNameChar).length,
        y.length + (z.takeWhile isNameChar).length⟩ := by
  rw [wordSpan, List.take_left, List.drop_left]

theorem wordSpanInBytes?_append {y z : Line} :
    wordSpanInBytes? (y ++ z) (byteWidth y) =
      some (byteWidth (y.reverse.dropWhile isNameChar).reverse,
        byteWidth y + byteWidth (z.takeWhile isNameChar)) := by
  rw [wordSpanInBytes?, cutAt?_append, Option.map_some, runIndex?_getD, byteWidth_append,
    find?_charIndices]

/-- Both scans find the ends of one run of name characters. -/
theorem exists_run {l : Line} {k : Nat} (hk : k ≤ l.length) : ∃ before x after,
    l = before ++ (x ++ after) ∧ (∀ c ∈ x, isNameChar c = true) ∧
      wordSpan l k = ⟨before.length, before.length + x.length⟩ ∧
      wordSpanInBytes? l (byteOffset l k) =
        some (byteWidth before, byteWidth before + byteWidth x) := by
  obtain ⟨y, z, rfl, rfl⟩ : ∃ y z, l = y ++ z ∧ k = y.length :=
    ⟨l.take k, l.drop k, (List.take_append_drop k l).symm,
      by rw [List.length_take, Nat.min_eq_left hk]⟩
  -- the run ends the text before the place and goes on behind it
  let before := (y.reverse.dropWhile isNameChar).reverse
  let u := (y.reverse.takeWhile isNameChar).reverse
  have hy : before ++ u = y := append_run isNameChar y
  have hlen := congrArg List.length hy
  have hbytes := congrArg byteWidth hy
  rw [List.length_append] at hlen
  rw [byteWidth_append] at hbytes
  have hrun : u.length = (y.reverse.takeWhile isNameChar).length := List.length_reverse
  refine ⟨before, u ++ z.takeWhile isNameChar, z.dropWhile isNameChar, ?_, ?_, ?_, ?_⟩
  · rw [List.append_assoc, List.takeWhile_append_dropWhile, ← List.append_assoc, hy]
  · intro c hc
    rcases List.mem_append.mp hc with hc | hc
    · exact List.all_eq_true.mp List.all_takeWhile c (List.mem_reverse.mp hc)
    · exact List.all_eq_true.mp List.all_takeWhile c hc
  · rw [wordSpan_append, List.length_append, ← hrun]
    congr 1
    · omega
    · omega
  · rw [byteOffset, List.take_left, wordSpanInBytes?_append, byteWidth_append, ← Nat.add_assoc,
      hbytes]

theorem wordAt_eq {lines : List Line} {p : Position} {w : WordSite}
    (h : wordAt lines p = some w) : ∃ before x after,
      lines[p.line]? = some (before ++ (x ++ after)) ∧ x ≠ [] ∧ (∀ c ∈ x, isNameChar c = true) ∧
      w = ⟨String.ofList x,
        Span.range ⟨before.length, before.length + x.length⟩ p.line (before ++ (x ++ after))⟩ := by
  unfold wordAt at h
  split at h
  · cases h
  · next l hl =>
    obtain ⟨before, x, after, rfl, hx, hspan, -⟩ := exists_run (place_le_length l p.character)
    simp only [hspan] at h
    split at h
    · cases h
    · next hne =>
      refine ⟨before, x, after, hl, ?_, hx, ?_⟩
      · rintro rfl
        exact hne rfl
      · rw [← Option.some.inj h, Span.text, Span.chars_between]

/-! ## by byte offsets -/

theorem wordAtInBytes?_eq (lines : List Line) (p : Position) :
    wordAtInBytes? lines p = some (wordAt lines p) := by
  unfold wordAtInBytes? wordAt
  cases lines[p.line]? with
  | none => rfl
  | some l =>
    obtain ⟨before, x, after, hl, -, hspan, hbytes⟩ := exists_run (place_le_length l p.character)
    simp only
    rw [byteIndex, hbytes, hspan, hl, Option.bind_some]
    simp only
    rw [slice?_between, byteRange?_between, Span.text, Span.chars_between]
    have hempty : byteWidth before = byteWidth before + byteWidth x ↔
        before.length = before.length + x.length := by
      rw [Nat.left_eq_add, byteWidth_eq_zero_iff, Nat.left_eq_add, List.length_eq_zero_iff]
    rw [if_congr hempty rfl rfl]
    split
    · rfl
    · rfl

end LanguageService
