import Lisplet.Proofs.RoundTrip
import Mathlib.Algebra.Ring.Int.Defs

namespace Lisplet

namespace Token

def spell : Token → List Char
  | .openParen => ['(']
  | .closeParen => [')']
  | .openBracket => ['[']
  | .closeBracket => [']']
  | .minus => ['-']
  | .ifKeyword => "if".toList
  | .defnKeyword => "defn".toList
  | .number v => Text.signed v
  | .text s => '"' :: s.toList ++ ['"']
  | .boolean b => (toString b).toList
  | .name s => s.toList
  | .unknown _ => []

def HasSpelling : Token → Prop
  | .number v => 0 ≤ v.toInt ∧ v.toInt ≤ 2 ^ 63 - 1
  | .text s => '"' ∉ s.toList
  | .name s => (∃ c cs, s.toList = c :: cs ∧ ¬Text.isBlank c ∧ ¬Text.isNumeric c ∧
      c ∉ ['(', ')', '[', ']', '-', '"'] ∧ ∀ d ∈ cs, ¬Text.isBlank d ∧ d ≠ ')' ∧ d ≠ ']') ∧
      s ∉ ["if", "defn", "true", "false"]
  | .unknown _ => False
  | _ => True

end Token

theorem isName_iff {s : String} :
    isName s ↔ (∃ c cs, s.toList = c :: cs ∧ startsWord c ∧ cs.all inWord) ∧ s ∉ reserved := by
  unfold isName
  split <;> simp_all [and_assoc]

theorem Token.isLexable_iff {t : Token} : t.isLexable ↔ t.HasSpelling := by
  cases t with
  | number v =>
    have := v.toInt_lt
    simp only [isLexable, HasSpelling, decide_eq_true_eq, Int64.le_iff_toInt_le, Int64.toInt_zero]
    omega
  | text s => exact all_notQuote_iff
  | name s =>
    simp only [isLexable, HasSpelling, isName_iff, startsWord_iff, List.all_eq_true, inWord_iff,
      and_assoc, reserved]
  | unknown code => simp [isLexable, HasSpelling]
  | _ => simp [isLexable, HasSpelling]

instance : DecidablePred Token.HasSpelling := fun _ => decidable_of_iff _ Token.isLexable_iff

theorem tokensOf_spell {t : Token} (h : t.isLexable) {rest : List Char}
    (hrest : Stops inWord rest) : tokensOf (t.spell ++ rest) = t :: tokensOf rest := by
  cases t with
  | openParen => exact tokensOf_mark .openParen rest
  | closeParen => exact tokensOf_mark .closeParen rest
  | openBracket => exact tokensOf_mark .openBracket rest
  | closeBracket => exact tokensOf_mark .closeBracket rest
  | minus => exact tokensOf_mark .minus rest
  | ifKeyword => exact tokensOf_word rfl rfl hrest
  | defnKeyword => exact tokensOf_word rfl rfl hrest
  | boolean b => cases b <;> exact tokensOf_word rfl rfl hrest
  | text s =>
    have := tokensOf_quoted h rest
    simpa [Token.spell] using this
  | name s => exact tokensOf_name h hrest
  | number v =>
    have hv : 0 ≤ v.toInt := (Token.isLexable_iff.1 h).1
    have hne : v ≠ Int64.minValue := by
      rintro rfl
      exact absurd hv (by decide)
    rw [Token.spell, Node.tokensOf_signed hne hrest, Node.numberTokens, if_neg (Int.not_lt.2 hv)]
    rfl
  | unknown code => exact absurd h (by simp [Token.isLexable])

def spelled (ts : List Token) : String :=
  " ".intercalate (ts.map fun t => String.ofList t.spell)

theorem tokenize_spelled {ts : List Token} (h : ∀ t ∈ ts, t.isLexable) :
    tokenize (spelled ts) = ts := by
  have hspace : Text.isBlank ' ' := by decide
  have hchars : (spelled ts).toList = [' '].intercalate (ts.map Token.spell) := by
    simp [spelled, String.toList_intercalate, Function.comp_def]
  have heach : ∀ t ∈ ts, ∀ rest, Stops inWord rest →
      tokensOf (t.spell ++ rest) = [t] ++ tokensOf rest := by
    intro t ht rest hrest
    exact tokensOf_spell (h t ht) hrest
  rw [tokenize_eq, hchars, tokensOf_joined hspace heach, List.flatMap_singleton']

/-- Some text has the tokens if and only if each of them has a spelling, and the spellings with a
space between them are then such a text. -/
theorem exists_tokenize_eq_iff (ts : List Token) :
    ((∃ s, tokenize s = ts) ↔ ∀ t ∈ ts, t.HasSpelling) ∧
      ((∃ s, tokenize s = ts) ↔ tokenize (spelled ts) = ts) := by
  have hspelled : (∀ t ∈ ts, t.HasSpelling) → tokenize (spelled ts) = ts := by
    intro h
    exact tokenize_spelled fun t ht => Token.isLexable_iff.2 (h t ht)
  have hlexable : (∃ s, tokenize s = ts) → ∀ t ∈ ts, t.HasSpelling := by
    rintro ⟨s, rfl⟩ t ht
    exact Token.isLexable_iff.1 (isLexable_of_mem_tokensOf ht)
  refine ⟨⟨hlexable, ?_⟩, ?_, ?_⟩
  · intro h
    exact ⟨spelled ts, hspelled h⟩
  · intro h
    exact hspelled (hlexable h)
  · intro h
    exact ⟨spelled ts, h⟩

theorem exists_tokenize_eq_iff_odd :
    let ts : List Token := [.minus, .minus, .number (2 ^ 63 - 1), .name "if\"(", .text "]\n",
      .closeParen, .boolean true, .defnKeyword]
    ((∀ t ∈ ts, t.HasSpelling) ∧
        spelled ts = "- - 9223372036854775807 if\"( \"]\n\" ) true defn" ∧
        tokenize (spelled ts) = ts) ∧
      (¬∃ s, tokenize s = ts ++ [.name "if"]) ∧ ¬∃ s, tokenize s = ts ++ [.number (-1)] := by
  -- a keyword for a name, or a number with a sign of its own, has no text at all
  intro ts
  have h : ∀ t ∈ ts, t.HasSpelling := by decide +kernel
  have hkeyword : ¬∀ t ∈ ts ++ [.name "if"], t.HasSpelling := by decide +kernel
  have hnegative : ¬∀ t ∈ ts ++ [.number (-1)], t.HasSpelling := by decide +kernel
  refine ⟨⟨h, by decide +kernel, ?_⟩, ?_, ?_⟩
  · exact (exists_tokenize_eq_iff ts).2.1 ((exists_tokenize_eq_iff ts).1.2 h)
  · exact mt (exists_tokenize_eq_iff _).1.1 hkeyword
  · exact mt (exists_tokenize_eq_iff _).1.1 hnegative

end Lisplet
