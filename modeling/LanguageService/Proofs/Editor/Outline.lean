import Mathlib.Data.List.Basic
import LanguageService.Proofs.Editor.Ranges
import LanguageService.Proofs.Language.NamedDeclarations
import LanguageService.Proofs.Source.Correspondence

/-!
# The outline and the symbol table

The outline lists every declaration on a line, the symbol table takes one of each line.  Both try
the same shapes, in the same order, so the symbols of a document are found again in its outline.

* `declarationShapes`        the shapes of declarations, in the order in which they are tried
* `entriesOn lines n`        the entries of the outline on a line
* `entriesOn_of_line`        they are the declarations on that line
* `onLine_starts_ne`         a variable and an import on one line have different places
* `entries_of_symbol`        each symbol has exactly one entry
* `outline_contains_index`   the symbol table as a part of the outline
-/

namespace LanguageService

/-! ## the shapes of declarations -/

/-- the shapes of declarations with the kinds of what they declare, in the order in which they are
tried -/
def declarationShapes : List (SymbolKind × Pattern) :=
  [(.function, Shape.anyFunction), (.var, Shape.anyVariable), (.imported, Shape.anyImport)]

namespace Declaration

theorem first?_eq_findSome? (l : Line) :
    first? l = declarationShapes.findSome? fun s => ofShape? s.1 s.2 l := by
  simp only [declarationShapes, List.findSome?_cons, List.findSome?_nil, first?, binding?,
    imported?]
  cases ofShape? .function Shape.anyFunction l with
  | some d => rfl
  | none =>
    cases ofShape? .var Shape.anyVariable l with
    | some d => rfl
    | none => cases ofShape? .imported Shape.anyImport l <;> rfl

theorem length_onLine_le (l : Line) : (onLine l).length ≤ 2 := by
  rw [onLine, List.length_append]
  exact Nat.add_le_add Option.length_toList_le Option.length_toList_le

theorem exists_declaredAt_of_binding? {l : Line} {d : Declaration} (h : binding? l = some d) :
    ∃ Tail p gap nm r, DeclaredAt declarationKeyword.toList Tail l p gap nm r ∧
      d.span = nameSpan declarationKeyword.toList p gap nm := by
  rcases Option.or_eq_some_iff.mp h with h | ⟨-, h⟩
  · obtain ⟨p, gap, nm, r, hd, -, rfl⟩ := (shape_function.ofShape?_eq_some_iff _ l d).mp h
    exact ⟨_, p, gap, nm, r, hd, rfl⟩
  · obtain ⟨p, gap, nm, r, hd, -, rfl⟩ := (shape_variable.ofShape?_eq_some_iff _ l d).mp h
    exact ⟨_, p, gap, nm, r, hd, rfl⟩

/-- no name is declared behind `let` and behind `import` -/
theorem start_ne_of_import {l : Line} {d e : Declaration} (hd : binding? l = some d)
    (he : imported? l = some e) : d.span.start ≠ e.span.start := by
  obtain ⟨Tail, p, gap, nm, r, hlet, hdspan⟩ := exists_declaredAt_of_binding? hd
  obtain ⟨p', gap', nm', r', himport, -, rfl⟩ := (shape_import.ofShape?_eq_some_iff _ l e).mp he
  rw [hdspan]
  rcases Nat.lt_trichotomy p.length p'.length with hlt | heq | hgt
  · exact Nat.ne_of_lt (hlet.start_lt himport isWordText_let isWordText_import hlt)
  · obtain ⟨rfl, -⟩ := List.append_inj (hlet.line.symm.trans himport.line) heq
    exact (IntroducedAt.not_both hlet himport).elim
  · exact Nat.ne_of_gt (himport.start_lt hlet isWordText_import isWordText_let hgt)

theorem onLine_starts_ne (l : Line) :
    (onLine l).Pairwise fun d e => d.span.start ≠ e.span.start := by
  rw [onLine, List.pairwise_append]
  refine ⟨Option.pairwise_toList, Option.pairwise_toList, fun d hd e he => ?_⟩
  exact start_ne_of_import (Option.mem_toList.mp hd) (Option.mem_toList.mp he)

end Declaration

/-! ## the entries on a line -/

/-- the entries of the outline on a line -/
def entriesOn (lines : List Line) (n : Nat) : List OutlineEntry :=
  (outline lines).filter fun e => e.range.start.line = n

/-- Lists that are put together from parts with a key of their own are taken apart again by this
key. -/
theorem filter_key_flatMap {α β : Type} {parts : List α} {f : α → List β} {key : β → Nat}
    {number : α → Nat} (hkey : ∀ x ∈ parts, ∀ b ∈ f x, key b = number x)
    (hdistinct : parts.Pairwise fun x y => number x ≠ number y) {x : α} (hx : x ∈ parts) :
    (parts.flatMap f).filter (fun b => key b = number x) = f x := by
  obtain ⟨pre, post, rfl⟩ := List.append_of_mem hx
  obtain ⟨-, hpost, hpre⟩ := List.pairwise_append.mp hdistinct
  have hother : ∀ ys : List α, (∀ y ∈ ys, ∀ b ∈ f y, key b = number y) →
      (∀ y ∈ ys, number y ≠ number x) →
      (ys.flatMap f).filter (fun b => key b = number x) = [] := by
    intro ys hys hne
    refine List.filter_eq_nil_iff.mpr fun b hb => ?_
    obtain ⟨y, hy, hb⟩ := List.mem_flatMap.mp hb
    rw [hys y hy b hb]
    simpa using hne y hy
  have hself : (f x).filter (fun b => key b = number x) = f x :=
    List.filter_eq_self.mpr fun b hb => by simpa using hkey x hx b hb
  rw [List.flatMap_append, List.flatMap_cons, List.filter_append, List.filter_append,
    hother pre (fun y hy => hkey y (List.mem_append_left _ hy))
      (fun y hy => hpre y hy x List.mem_cons_self),
    hother post (fun y hy => hkey y (List.mem_append_right _ (List.mem_cons_of_mem _ hy)))
      (fun y hy => (List.rel_of_pairwise_cons hpost hy).symm),
    hself, List.nil_append, List.append_nil]

theorem line_of_mem_outlineOfLine {k : NumberedLine} {e : OutlineEntry}
    (h : e ∈ outlineOfLine k) : e.range.start.line = k.number := by
  obtain ⟨d, -, rfl⟩ := List.mem_map.mp h
  rfl

theorem entriesOn_of_line {lines : List Line} {k : NumberedLine} (hk : k ∈ numberLines lines) :
    entriesOn lines k.number = outlineOfLine k :=
  filter_key_flatMap (fun _ _ _ he => line_of_mem_outlineOfLine he)
    ((numberFrom_pairwise lines 0).imp Nat.ne_of_lt) hk

theorem length_entriesOn_le (lines : List Line) (n : Nat) : (entriesOn lines n).length ≤ 2 := by
  cases hl : lines[n]? with
  | some l =>
    rw [entriesOn_of_line (k := ⟨n, l⟩) (mem_numberLines_iff.mpr hl), outlineOfLine,
      List.length_map]
    exact Declaration.length_onLine_le l
  | none =>
    have hempty : entriesOn lines n = [] := by
      refine List.filter_eq_nil_iff.mpr fun e he hn => ?_
      obtain ⟨k, hk, he⟩ := List.mem_flatMap.mp he
      rw [line_of_mem_outlineOfLine he] at hn
      have hline := mem_numberLines_iff.mp hk
      rw [of_decide_eq_true hn, hl] at hline
      exact Option.some_ne_none _ hline.symm
    rw [hempty]
    exact Nat.zero_le 2

theorem outline_pairwise (lines : List Line) :
    (outline lines).Pairwise fun d e => d.range.start.line ≤ e.range.start.line := by
  refine List.pairwise_flatMap.mpr ⟨fun k _ => ?_, (numberFrom_pairwise lines 0).imp ?_⟩
  · exact List.pairwise_map.mpr (List.pairwise_of_forall fun _ _ => Nat.le_refl _)
  · intro j k hjk d hd e he
    rw [line_of_mem_outlineOfLine hd, line_of_mem_outlineOfLine he]
    exact Nat.le_of_lt hjk

/-! ## symbols and their entries -/

theorem line_nameRange_of_mem_outline {lines : List Line} {e : OutlineEntry}
    (h : e ∈ outline lines) : e.nameRange.start.line = e.range.start.line := by
  obtain ⟨k, -, he⟩ := List.mem_flatMap.mp h
  obtain ⟨d, -, rfl⟩ := List.mem_map.mp he
  rfl

theorem filter_nameRange_eq (lines : List Line) (r : Range) :
    (outline lines).filter (fun e => e.nameRange = r) =
      (entriesOn lines r.start.line).filter fun e => e.nameRange = r := by
  rw [entriesOn, List.filter_filter]
  refine List.filter_congr fun e he => ?_
  rw [Bool.eq_iff_iff, Bool.and_eq_true, decide_eq_true_eq, decide_eq_true_eq]
  refine (and_iff_left_of_imp fun hr => ?_).symm
  rw [← line_nameRange_of_mem_outline he, hr]

/-- a symbol has exactly one entry at its range -/
theorem entries_of_symbol {lines : List Line} {s : Symbol}
    (hs : s ∈ (indexSymbols lines).symbols) :
    ∃ e, (outline lines).filter (fun e => e.nameRange = s.nameRange) = [e] ∧ e.name = s.name ∧
      e.kind = s.kind := by
  obtain ⟨k, d, hd⟩ := exists_declares hs
  have hfirst := hd.first
  rw [Declaration.first?_eq_head?, List.head?_eq_some_iff] at hfirst
  obtain ⟨rest, hon⟩ := hfirst
  have hentries : entriesOn lines s.nameRange.start.line = outlineOfLine k := by
    rw [line_nameRange hs, hd.line, entriesOn_of_line (mem_numberLines_of_code hd.mem)]
  refine ⟨⟨d.name, d.kind, trim k.text, Range.ofLine k.number k.text,
    d.span.range k.number k.text⟩, ?_, hd.name.symm, hd.kind.symm⟩
  rw [filter_nameRange_eq, hentries, outlineOfLine, hon, List.map_cons,
    List.filter_cons_of_pos (by simpa using hd.range.symm)]
  refine congrArg _ (List.filter_eq_nil_iff.mpr fun e he heq => ?_)
  -- another declaration on the line stands at another place
  obtain ⟨f, hf, rfl⟩ := List.mem_map.mp he
  have hstarts := Declaration.onLine_starts_ne k.text
  rw [hon] at hstarts
  have hdin := Declaration.within_of_mem_onLine (hon ▸ List.mem_cons_self : d ∈ _)
  have hfin := Declaration.within_of_mem_onLine (hon ▸ List.mem_cons_of_mem d hf : f ∈ _)
  have hrange : f.span.range k.number k.text = d.span.range k.number k.text :=
    (of_decide_eq_true heq).trans hd.range
  have hspan : f.span = d.span :=
    Span.range_inj ⟨Nat.le_trans hfin.ordered hfin.inside, hfin.inside⟩
      ⟨Nat.le_trans hdin.ordered hdin.inside, hdin.inside⟩ hrange
  exact List.rel_of_pairwise_cons hstarts hf (congrArg Span.start hspan.symm)

/-- **The outline and the symbol table.**  The declaration on a line is that of the first shape the
line holds, and the first of all declarations on the line.  Every symbol of a document has exactly
one entry of the outline at its range, with its name and kind; the entries stand in the order of
the lines, at most two on each; and the first entry on a code line has the name of a symbol. -/
theorem outline_contains_index (lines : List Line) :
    (∀ l, Declaration.first? l =
        declarationShapes.findSome? (fun s => Declaration.ofShape? s.1 s.2 l) ∧
      Declaration.first? l = (Declaration.onLine l).head?) ∧
    (∀ s ∈ (indexSymbols lines).symbols, ∃ e,
      (outline lines).filter (fun e => e.nameRange = s.nameRange) = [e] ∧
      e.name = s.name ∧ e.kind = s.kind) ∧
    (outline lines).Pairwise (fun d e => d.range.start.line ≤ e.range.start.line) ∧
    (∀ n, (entriesOn lines n).length ≤ 2) ∧
    ∀ k ∈ codeLines lines, ∀ e, (entriesOn lines k.number).head? = some e →
      (indexSymbols lines).contains e.name = true := by
  refine ⟨fun l => ⟨Declaration.first?_eq_findSome? l, Declaration.first?_eq_head? l⟩,
    fun s hs => entries_of_symbol hs, outline_pairwise lines, length_entriesOn_le lines,
    fun k hk e he => ?_⟩
  rw [entriesOn_of_line (mem_numberLines_of_code hk), outlineOfLine, List.head?_map,
    ← Declaration.first?_eq_head?] at he
  obtain ⟨d, hd, rfl⟩ := Option.map_eq_some_iff.mp he
  exact (contains_indexSymbols_iff lines d.name).mpr ⟨k, hk, d, hd, rfl⟩

end LanguageService
