import Lisplet.Proofs.Lexing
import Mathlib.Data.List.Forall2
import Mathlib.Data.Nat.Digits.Defs

namespace Lisplet

namespace Text

def placeValue (ds : List Char) : Nat :=
  Nat.ofDigits 10 (ds.reverse.map fun d => d.toNat - '0'.toNat)

def IsNumeral (ds : List Char) : Prop :=
  (∀ d ∈ ds, '0' ≤ d ∧ d ≤ '9') ∧ placeValue ds ≤ 2 ^ 63 - 1

theorem valueOf_eq_placeValue (ds : List Char) : valueOf ds = placeValue ds := by
  rw [placeValue, Nat.ofDigits_eq_foldr, List.foldr_map, List.foldr_reverse, valueOf,
    Nat.ofDigitChars_eq_foldl]
  simp [Nat.add_comm]

theorem isNumeral_iff {ds : List Char} :
    IsNumeral ds ↔ ds.all Char.isDigit ∧ valueOf ds ≤ largest := by
  rw [valueOf_eq_placeValue, IsNumeral, List.all_eq_true]
  simp [Char.isDigit, largest, Char.le_def]

theorem read?_eq_none_iff {ds : List Char} : read? ds = none ↔ ¬IsNumeral ds := by
  rw [read?, isNumeral_iff, ite_eq_right_iff]
  simp

theorem read?_eq_some_iff {ds : List Char} {v : Int64} :
    read? ds = some v ↔ IsNumeral ds ∧ v.toInt = placeValue ds := by
  rw [read?, isNumeral_iff, Option.ite_none_right_eq_some, Option.some.injEq]
  apply and_congr_right
  intro h
  have hlt : valueOf ds < 2 ^ 63 := Nat.lt_succ_of_le h.2
  rw [← Int64.toInt_inj, Int64.toInt_ofNat_of_lt hlt, valueOf_eq_placeValue, eq_comm]

end Text

/-- The text is cut into the segments, each of which fits before what follows it. -/
inductive Cuts : List Char → List Segment → Prop
  | nil : Cuts [] []
  | cons : g.Fits rest → Cuts rest gs → Cuts (g.text ++ rest) (g :: gs)

theorem cuts_cut (cs : List Char) : Cuts cs (cut cs) := by
  fun_induction cut cs with
  | case1 => exact .nil
  | case2 c cs ih =>
    have h := Cuts.cons (Segment.fits_next c cs) ih
    rwa [Segment.text_next] at h

theorem Cuts.eq_cut (h : Cuts cs gs) : gs = cut cs := by
  induction h with
  | nil => rw [cut]
  | cons hg _ ih =>
    obtain ⟨c, cs, heq, hnext⟩ := hg.exists_next
    rw [heq, cut, hnext, ih]

namespace Segment

inductive StandsFor : Segment → Option Token → Prop
  | blank : StandsFor (.blank c) none
  | number {v : Int64} : Text.IsNumeral ds → v.toInt = Text.placeValue ds →
      StandsFor (.run ds) (some (.number v))
  | noNumber : ¬Text.IsNumeral ds → StandsFor (.run ds) none
  | mark {m : Mark} {t : Token} : (m.char, t) ∈ [('(', .openParen), (')', .closeParen),
      ('[', .openBracket), (']', .closeBracket), ('-', .minus)] → StandsFor (.mark m) (some t)
  | text : StandsFor (.quoted s closed) (some (.text (String.ofList s)))
  | ifKeyword : StandsFor (.word "if".toList) (some .ifKeyword)
  | defnKeyword : StandsFor (.word "defn".toList) (some .defnKeyword)
  | true : StandsFor (.word "true".toList) (some (.boolean true))
  | false : StandsFor (.word "false".toList) (some (.boolean false))
  | name : String.ofList w ∉ ["if", "defn", "true", "false"] →
      StandsFor (.word w) (some (.name (String.ofList w)))

theorem standsFor_token? (g : Segment) : g.StandsFor g.token? := by
  cases g with
  | blank c => exact .blank
  | run ds =>
    cases h : Text.read? ds with
    | none =>
      rw [token?, h]
      exact .noNumber (Text.read?_eq_none_iff.1 h)
    | some v =>
      obtain ⟨hds, hv⟩ := Text.read?_eq_some_iff.1 h
      rw [token?, h]
      exact .number hds hv
  | mark m => exact .mark (by cases m <;> decide)
  | quoted s closed => exact .text
  | word w =>
    by_cases h : String.ofList w ∈ reserved
    · have hw : w = (String.ofList w).toList := String.toList_ofList.symm
      simp only [reserved, List.mem_cons, List.not_mem_nil, or_false] at h
      obtain h | h | h | h := h <;> rw [hw, h]
      · exact .ifKeyword
      · exact .defnKeyword
      · exact .true
      · exact .false
    · rw [token?, Token.ofWord_eq_name h]
      exact .name h

theorem StandsFor.eq_token? (h : StandsFor g o) : o = g.token? := by
  cases h with
  | blank => rfl
  | number hds hv => rw [token?, Text.read?_eq_some_iff.2 ⟨hds, hv⟩, Option.map_some]
  | noNumber hds => rw [token?, Text.read?_eq_none_iff.2 hds, Option.map_none]
  | @mark m t hm => cases m <;> simpa [Mark.char, token?, Mark.token] using hm
  | text => rfl
  | ifKeyword => rfl
  | defnKeyword => rfl
  | true => rfl
  | false => rfl
  | name hw => rw [token?, Token.ofWord_eq_name hw]

theorem forall₂_standsFor_iff {gs : List Segment} {os : List (Option Token)} :
    List.Forall₂ StandsFor gs os ↔ os = gs.map token? := by
  constructor
  · intro h
    induction h with
    | nil => rfl
    | cons hg _ ih => rw [List.map_cons, ← hg.eq_token?, ← ih]
  · rintro rfl
    rw [List.forall₂_map_right_iff, List.forall₂_same]
    exact fun g _ => g.standsFor_token?

end Segment

/-- Every text has one cutting, and its tokens are those that the segments of this cutting stand
for. -/
theorem tokenize_eq_iff_cuts (cs : List Char) :
    (∃! gs, Cuts cs gs) ∧
      ∀ ts, tokenize (String.ofList cs) = ts ↔
        ∃ gs os, Cuts cs gs ∧ List.Forall₂ Segment.StandsFor gs os ∧ os.filterMap id = ts := by
  constructor
  · exact ⟨cut cs, cuts_cut cs, fun gs hgs => hgs.eq_cut⟩
  · intro ts
    have htokens : tokenize (String.ofList cs) = ((cut cs).map Segment.token?).filterMap id := by
      rw [tokenize, String.toList_ofList, List.filterMap_map]
      rfl
    rw [htokens]
    constructor
    · intro h
      exact ⟨_, _, cuts_cut cs, Segment.forall₂_standsFor_iff.2 rfl, h⟩
    · rintro ⟨gs, os, hgs, hos, h⟩
      rw [← h, Segment.forall₂_standsFor_iff.1 hos, hgs.eq_cut]

example : cut "٣2x\"(y -\"".toList =
    [.run ['٣', '2'], .word ['x', '"', '(', 'y'], .blank ' ', .mark .minus, .quoted [] false] := by
  decide +kernel

end Lisplet
