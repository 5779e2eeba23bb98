import LanguageService.Editor.Token
import LanguageService.Proofs.Language.Words
import LanguageService.Proofs.Pattern.Scan

/-!
# Quoted texts and comments

A quoted text ends at the first equal quote that no backslash has taken along; a comment ends with
its line.  Both are found by a scanner.

* `closing? q e l`       where the quote `q` is closed
* `stringReach l`        how far a quoted text goes that begins here
* `all_stringText`       the quoted texts of a line are what this scanner takes
* `commentSpan? l`       from the first `//` of a line to its end
* `all_commentText`      the comment of a line, if there is one
-/

namespace LanguageService

/-! ## the closing quote -/

/-- How many characters there are up to the first closing quote, which is counted too; `escaped`
says that a backslash takes the next character along. -/
def closing? (quote : Char) (escaped : Bool) : Line → Option Nat
  | [] => none
  | c :: l =>
    if !escaped && c == quote then some 1
    else (closing? quote (!escaped && c == '\\') l).map (· + 1)

/-- What may stand between two quotes: characters other than the quote and the backslash, and
backslashes with the characters that they take along. -/
inductive IsQuotable (quote : Char) : Line → Prop where
  | nil : IsQuotable quote []
  | plain {c : Char} {x : Line} : c ≠ quote → c ≠ '\\' → IsQuotable quote x →
      IsQuotable quote (c :: x)
  | escape {c : Char} {x : Line} : c ≠ '\n' → IsQuotable quote x →
      IsQuotable quote ('\\' :: c :: x)

section
variable {q : Char}

theorem closing?_quote (l : Line) : closing? q false (q :: l) = some 1 := by
  rw [closing?, beq_self_eq_true]
  rfl

theorem closing?_plain {c : Char} (hq : c ≠ q) (hc : c ≠ '\\') (l : Line) :
    closing? q false (c :: l) = (closing? q false l).map (· + 1) := by
  rw [closing?, beq_eq_false_iff_ne.mpr hq, beq_eq_false_iff_ne.mpr hc]
  rfl

theorem closing?_backslash (hq : q ≠ '\\') (l : Line) :
    closing? q false ('\\' :: l) = (closing? q true l).map (· + 1) := by
  rw [closing?, beq_eq_false_iff_ne.mpr hq.symm]
  rfl

theorem closing?_escaped (c : Char) (l : Line) :
    closing? q true (c :: l) = (closing? q false l).map (· + 1) := rfl

theorem closing?_of_quotable (hq : q ≠ '\\') {v : Line} (hv : IsQuotable q v) (y : Line) :
    closing? q false (v ++ q :: y) = some (v.length + 1) := by
  induction hv with
  | nil => exact closing?_quote y
  | plain hne hc _ ih =>
    rw [List.cons_append, closing?_plain hne hc, ih]
    rfl
  | escape _ _ ih =>
    rw [List.cons_append, List.cons_append, closing?_backslash hq, closing?_escaped, ih]
    rfl

/-- In front of a closing quote stands a quotable text; a backslash that takes its first character
along belongs to it. -/
theorem quotable_of_closing? (hq : q ≠ '\\') {l : Line} (hl : '\n' ∉ l) {escaped : Bool} {n : Nat}
    (h : closing? q escaped l = some n) : ∃ v y, l = v ++ q :: y ∧ n = v.length + 1 ∧
      IsQuotable q (if escaped then '\\' :: v else v) := by
  induction l generalizing escaped n with
  | nil => cases h
  | cons c l ih =>
    obtain ⟨hc, hrest⟩ := not_or.mp (mt List.mem_cons.mpr hl)
    cases escaped with
    | true =>
      rw [closing?_escaped] at h
      obtain ⟨k, hk, rfl⟩ := Option.map_eq_some_iff.mp h
      obtain ⟨v, y, rfl, rfl, hv⟩ := ih hrest hk
      exact ⟨c :: v, y, rfl, rfl, .escape (Ne.symm hc) hv⟩
    | false =>
      by_cases hquote : c = q
      · subst hquote
        rw [closing?_quote] at h
        obtain rfl := Option.some.inj h
        exact ⟨[], l, rfl, rfl, .nil⟩
      · by_cases hback : c = '\\'
        · subst hback
          rw [closing?_backslash hq] at h
          obtain ⟨k, hk, rfl⟩ := Option.map_eq_some_iff.mp h
          obtain ⟨v, y, rfl, rfl, hv⟩ := ih hrest hk
          exact ⟨'\\' :: v, y, rfl, rfl, hv⟩
        · rw [closing?_plain hquote hback] at h
          obtain ⟨k, hk, rfl⟩ := Option.map_eq_some_iff.mp h
          obtain ⟨v, y, rfl, rfl, hv⟩ := ih hrest hk
          exact ⟨c :: v, y, rfl, rfl, .plain hquote hback hv⟩

end

/-! ## quoted texts -/

open Pattern in
/-- the inside of a quoted text is read character by character -/
theorem repeats_quotable {q : Char} {p x y : Line} {gs : List (Nat × Span)} :
    Fits (.star (.alt (.one fun c => c != q && c != '\\')
      (.seq (.literal ['\\']) (.one fun c => c != '\n')))) p x y gs ↔
      IsQuotable q x ∧ gs = [] := by
  constructor
  · intro h
    replace h : Repeats _ p x y gs := h
    induction h with
    | done p y => exact ⟨.nil, rfl⟩
    | more _ hstep _ hx hgs ih =>
      obtain ⟨hrest, rfl⟩ := ih
      subst hx hgs
      rcases hstep with ⟨c, hc, rfl, rfl⟩ | hstep
      · rw [Bool.and_eq_true, bne_iff_ne, bne_iff_ne] at hc
        exact ⟨.plain hc.1 hc.2 hrest, rfl⟩
      · obtain ⟨_, _, _, _, hback, ⟨c, hc, rfl, rfl⟩, rfl, rfl⟩ := fits_seq.mp hstep
        obtain ⟨rfl, rfl⟩ := (fits_literal _).mp hback
        exact ⟨.escape (bne_iff_ne.mp hc) hrest, rfl⟩
  · rintro ⟨hx, rfl⟩
    show Repeats _ p x y []
    induction hx generalizing p with
    | nil => exact .done p y
    | @plain c x hne hc _ ih =>
      refine .more (List.cons_ne_nil c []) (Or.inl ⟨c, ?_, rfl, rfl⟩) ih rfl rfl
      rw [Bool.and_eq_true, bne_iff_ne, bne_iff_ne]
      exact ⟨hne, hc⟩
    | @escape c x hc _ ih =>
      have hpair : ['\\', c] ≠ [] := List.cons_ne_nil _ _
      refine .more hpair (Or.inr ?_) ih rfl rfl
      exact fits_seq.mpr ⟨['\\'], [c], [], [], (fits_literal _).mpr ⟨rfl, rfl⟩,
        ⟨c, bne_iff_ne.mpr hc, rfl, rfl⟩, rfl, rfl⟩

open Pattern in
theorem fits_quoted {q : Char} {p x y : Line} {gs : List (Nat × Span)} :
    (quoted q).Fits p x y gs ↔ (∃ v, IsQuotable q v ∧ x = q :: (v ++ [q])) ∧ gs = [] := by
  show Fits (.seq (.literal [q]) (.seq (.star _) (.literal [q]))) p x y gs ↔ _
  simp only [fits_seq, fits_literal, repeats_quotable]
  constructor
  · rintro ⟨_, _, _, _, ⟨rfl, rfl⟩, ⟨v, _, _, _, ⟨hv, rfl⟩, ⟨rfl, rfl⟩, rfl, rfl⟩, rfl, rfl⟩
    exact ⟨⟨v, hv, rfl⟩, rfl⟩
  · rintro ⟨⟨v, hv, rfl⟩, rfl⟩
    exact ⟨[q], v ++ [q], [], [], ⟨rfl, rfl⟩, ⟨v, [q], [], [], ⟨hv, rfl⟩, ⟨rfl, rfl⟩, rfl, rfl⟩,
      rfl, rfl⟩

/-- the two characters that quote a text -/
def isQuote (c : Char) : Bool :=
  c == '"' || c == '\''

theorem isQuote_iff {c : Char} : isQuote c = true ↔ c = '"' ∨ c = '\'' := by
  rw [isQuote, Bool.or_eq_true, beq_iff_eq, beq_iff_eq]

theorem ne_backslash_of_isQuote {c : Char} (h : isQuote c = true) : c ≠ '\\' := by
  rintro rfl
  exact absurd h (by decide)

/-- How many characters a quoted text takes that begins here: up to the closing quote, and none if
there is no quote or if it is never closed. -/
def stringReach : Line → Nat
  | [] => 0
  | c :: l => if isQuote c then ((closing? c false l).map (· + 1)).getD 0 else 0

theorem fits_stringText {p x y : Line} {gs : List (Nat × Span)} : stringText.Fits p x y gs ↔
    (∃ q v, isQuote q = true ∧ IsQuotable q v ∧ x = q :: (v ++ [q])) ∧ gs = [] := by
  show (quoted '"').Fits p x y gs ∨ (quoted '\'').Fits p x y gs ↔ _
  rw [fits_quoted, fits_quoted]
  constructor
  · rintro (⟨⟨v, hv, rfl⟩, rfl⟩ | ⟨⟨v, hv, rfl⟩, rfl⟩)
    · exact ⟨⟨'"', v, rfl, hv, rfl⟩, rfl⟩
    · exact ⟨⟨'\'', v, rfl, hv, rfl⟩, rfl⟩
  · rintro ⟨⟨q, v, hq, hv, rfl⟩, rfl⟩
    rcases isQuote_iff.mp hq with rfl | rfl
    · exact Or.inl ⟨⟨v, hv, rfl⟩, rfl⟩
    · exact Or.inr ⟨⟨v, hv, rfl⟩, rfl⟩

/-- At each place a quoted text is taken up to the first quote that closes it. -/
theorem takenBy_stringText {l : Line} (hl : '\n' ∉ l) : stringText.TakenBy stringReach l := by
  refine Pattern.takenBy_of_fits rfl ?_ ?_
  · intro p x y gs hf
    obtain ⟨⟨q, v, hq, hv, rfl⟩, rfl⟩ := fits_stringText.mp hf
    have hclosing := closing?_of_quotable (ne_backslash_of_isQuote hq) hv y
    rw [← List.singleton_append, ← List.append_assoc] at hclosing
    refine ⟨?_, rfl⟩
    rw [List.cons_append, stringReach, if_pos hq, hclosing, List.length_cons, List.length_append]
    rfl
  · rintro p b rfl hreach
    obtain ⟨c, b, rfl⟩ : ∃ c r, b = c :: r := by
      refine List.exists_cons_of_ne_nil ?_
      rintro rfl
      exact hreach rfl
    rw [stringReach] at hreach
    by_cases hq : isQuote c = true
    · rw [if_pos hq] at hreach
      cases hclosing : closing? c false b with
      | none =>
        rw [hclosing] at hreach
        exact absurd rfl hreach
      | some n =>
        have hb : '\n' ∉ b := fun h => hl (List.mem_append_right _ (List.mem_cons_of_mem _ h))
        obtain ⟨v, y, rfl, -, hv⟩ :=
          quotable_of_closing? (ne_backslash_of_isQuote hq) hb hclosing
        refine ⟨c :: (v ++ [c]), y, ?_, fits_stringText.mpr ⟨⟨c, v, hq, hv, rfl⟩, rfl⟩⟩
        rw [List.cons_append, List.append_assoc, List.singleton_append]
    · rw [if_neg hq] at hreach
      exact absurd rfl hreach

/-- the quoted texts of a line, from left to right -/
theorem all_stringText {l : Line} (hl : '\n' ∉ l) :
    stringText.all l = (scan stringReach l).map fun s => ⟨s, []⟩ :=
  Pattern.all_eq_scan (Pattern.neverEmpty_of_consumes rfl) (takenBy_stringText hl)

/-! ## comments -/

/-- from the first `//` of a line to its end -/
def commentSpan? (l : Line) : Option Span :=
  (indexOf? lineComment l).map fun i => ⟨i, l.length⟩

/-- a comment that begins here takes all that follows -/
def commentReach (l : Line) : Nat :=
  if lineComment.isPrefixOf l then l.length else 0

open Pattern in
theorem fits_commentText {p x y : Line} {gs : List (Nat × Span)} : commentText.Fits p x y gs ↔
    y = [] ∧ (∃ v, x = lineComment ++ v ∧ '\n' ∉ v) ∧ gs = [] := by
  have hplain (v : Line) : (∀ c ∈ v, (c != '\n') = true) ↔ '\n' ∉ v := by
    refine ⟨fun h hmem => absurd (h _ hmem) (by decide), fun h c hc => ?_⟩
    exact bne_iff_ne.mpr fun heq => h (heq ▸ hc)
  show Fits (.seq (.literal lineComment) (.seq (.many fun c => c != '\n') .lineEnd)) p x y gs ↔ _
  rw [fits_seq]
  constructor
  · rintro ⟨_, _, _, _, hslash, ⟨v, _, _, _, ⟨hv, rfl⟩, ⟨rfl, rfl, rfl⟩, rfl, rfl⟩, rfl, rfl⟩
    obtain ⟨rfl, rfl⟩ := (fits_literal _).mp hslash
    rw [List.append_nil]
    exact ⟨rfl, ⟨v, rfl, (hplain v).mp hv⟩, rfl⟩
  · rintro ⟨rfl, ⟨v, rfl, hv⟩, rfl⟩
    exact ⟨lineComment, v, [], [], (fits_literal _).mpr ⟨rfl, rfl⟩,
      ⟨v, [], [], [], ⟨(hplain v).mpr hv, rfl⟩, ⟨rfl, rfl, rfl⟩, (List.append_nil v).symm, rfl⟩,
      rfl, rfl⟩

theorem takenBy_commentText {l : Line} (hl : '\n' ∉ l) : commentText.TakenBy commentReach l := by
  refine Pattern.takenBy_of_fits rfl ?_ ?_
  · intro p x y gs hf
    obtain ⟨rfl, ⟨v, rfl, -⟩, rfl⟩ := fits_commentText.mp hf
    have hslash : lineComment.isPrefixOf (lineComment ++ v) = true :=
      List.isPrefixOf_iff_prefix.mpr (List.prefix_append _ _)
    rw [List.append_nil, commentReach, if_pos hslash]
    exact ⟨rfl, rfl⟩
  · rintro p b rfl hreach
    by_cases hslash : lineComment.isPrefixOf b = true
    · obtain ⟨v, rfl⟩ := List.isPrefixOf_iff_prefix.mp hslash
      have hv : '\n' ∉ v := fun h => hl (List.mem_append_right _ (List.mem_append_right _ h))
      exact ⟨lineComment ++ v, [], (List.append_nil _).symm,
        fits_commentText.mpr ⟨rfl, ⟨v, rfl, hv⟩, rfl⟩⟩
    · rw [commentReach, if_neg hslash] at hreach
      exact absurd rfl hreach

theorem scanFrom_commentReach (l : Line) (pos : Nat) : scanFrom commentReach pos 0 l =
    ((indexOf? lineComment l).map fun i => ⟨pos + i, pos + l.length⟩).toList := by
  induction l generalizing pos with
  | nil => rfl
  | cons c l ih =>
    by_cases hslash : lineComment.isPrefixOf (c :: l) = true
    · have hreach : commentReach (c :: l ++ []) = (c :: l).length := by
        rw [List.append_nil, commentReach, if_pos hslash]
      have htake := scanFrom_take (List.cons_ne_nil c l) hreach pos
      rw [List.append_nil] at htake
      rw [htake, indexOf?, if_pos hslash]
      rfl
    · have hreach : commentReach (c :: l) = 0 := if_neg hslash
      rw [scanFrom_skip hreach, ih, indexOf?, if_neg hslash, Option.map_map]
      congr 2
      funext i
      show (⟨pos + 1 + i, pos + 1 + l.length⟩ : Span) = ⟨pos + (i + 1), pos + (l.length + 1)⟩
      rw [Nat.add_assoc, Nat.add_assoc, Nat.add_comm 1, Nat.add_comm 1]

/-- the comment of a line, if there is one -/
theorem all_commentText {l : Line} (hl : '\n' ∉ l) :
    commentText.all l = (commentSpan? l).toList.map fun s => ⟨s, []⟩ := by
  rw [Pattern.all_eq_scan (Pattern.neverEmpty_of_consumes rfl) (takenBy_commentText hl), scan,
    scanFrom_commentReach, commentSpan?]
  simp only [Nat.zero_add]

end LanguageService
