import Lisplet.Token.Segment

namespace Lisplet

namespace Text

theorem not_numeric_of_blank {c : Char} (h : isBlank c) : isNumeric c = false := by
  have apart : ∀ r ∈ blanks, ∀ r' ∈ numerals, r.2 < r'.1 ∨ r'.2 < r.1 := by decide +kernel
  obtain ⟨r, hr, hlo, hhi⟩ := within_iff.1 h
  rw [Bool.eq_false_iff]
  intro hn
  obtain ⟨r', hr', hlo', hhi'⟩ := within_iff.1 hn
  have := apart r hr r' hr'
  omega

theorem isNumeric_of_isDigit {c : Char} (h : c.isDigit) : isNumeric c := by
  apply within_iff.2
  refine ⟨(0x30, 0x39), List.mem_cons_self, ?_⟩
  simp only [Char.isDigit, Bool.and_eq_true, decide_eq_true_eq, ge_iff_le, UInt32.le_iff_toNat_le]
    at h
  exact h

end Text

def startsWord (c : Char) : Bool :=
  !(Text.isBlank c || Text.isNumeric c || (Mark.ofChar? c).isSome || c == '"')

def reserved : List String := ["if", "defn", "true", "false"]

def isName (s : String) : Bool :=
  match s.toList with
  | [] => false
  | c :: cs => startsWord c && cs.all inWord && !reserved.contains s

def Token.isLexable : Token → Bool
  | .number v => decide (0 ≤ v)
  | .text s => s.toList.all notQuote
  | .name s => isName s
  | .unknown _ => false
  | _ => true

/-- The text is empty, or its first character does not go on with what stands before it. -/
def Stops (p : Char → Bool) : List Char → Prop
  | [] => True
  | c :: _ => p c = false

theorem stops_iff {p : Char → Bool} {cs : List Char} :
    Stops p cs ↔ ∀ c ∈ cs.head?, p c = false := by
  cases cs <;> simp [Stops]

theorem Stops.takeWhile_eq (h : Stops p cs) : cs.takeWhile p = [] := by
  cases cs with
  | nil => rfl
  | cons c cs => exact List.takeWhile_cons_of_neg (by simpa [Stops] using h)

theorem Stops.dropWhile_eq (h : Stops p cs) : cs.dropWhile p = cs := by
  cases cs with
  | nil => rfl
  | cons c cs => exact List.dropWhile_cons_of_neg (by simpa [Stops] using h)

theorem inWord_eq_false_iff {c : Char} :
    inWord c = false ↔ Text.isBlank c ∨ c = ')' ∨ c = ']' := by
  simp only [inWord, Bool.not_eq_false', Bool.or_eq_true, beq_iff_eq, or_assoc]

theorem inWord_iff {c : Char} : inWord c ↔ ¬Text.isBlank c ∧ c ≠ ')' ∧ c ≠ ']' := by
  simp [inWord, and_assoc]

theorem Mark.ofChar?_eq_none_iff {c : Char} :
    Mark.ofChar? c = none ↔ c ∉ ['(', ')', '[', ']', '-'] := by
  unfold Mark.ofChar?
  split <;> simp_all

theorem startsWord_iff {c : Char} :
    startsWord c ↔ ¬Text.isBlank c ∧ ¬Text.isNumeric c ∧ c ∉ ['(', ')', '[', ']', '-', '"'] := by
  simp [startsWord, Mark.ofChar?_eq_none_iff, and_assoc]

theorem all_notQuote_iff {s : List Char} : s.all notQuote ↔ '"' ∉ s := by
  simp [notQuote, List.forall_mem_ne']

theorem stops_inWord_iff {cs : List Char} :
    Stops inWord cs ↔ ∀ c ∈ cs.head?, Text.isBlank c ∨ c = ')' ∨ c = ']' := by
  simp only [stops_iff, inWord_eq_false_iff]

theorem Stops.not_numeric (h : Stops inWord cs) : Stops Text.isNumeric cs := by
  cases cs with
  | nil => trivial
  | cons c cs =>
    obtain hb | rfl | rfl := inWord_eq_false_iff.1 h
    · exact Text.not_numeric_of_blank hb
    · exact (by decide : Text.isNumeric ')' = false)
    · exact (by decide : Text.isNumeric ']' = false)

theorem stops_blank {c : Char} (h : Text.isBlank c) (cs : List Char) : Stops inWord (c :: cs) :=
  inWord_eq_false_iff.2 (.inl h)

theorem stops_dropWhile (p : Char → Bool) (cs : List Char) : Stops p (cs.dropWhile p) := by
  induction cs with
  | nil => trivial
  | cons c cs ih =>
    rw [List.dropWhile_cons]
    split
    · exact ih
    · rename_i h
      exact Bool.eq_false_iff.2 h

namespace Segment

/-- The segment can stand right before the text: it is of its kind throughout, and where it could
go on, the text does not. -/
def Fits : Segment → List Char → Prop
  | .blank c, _ => Text.isBlank c
  | .run ds, rest => ds ≠ [] ∧ ds.all Text.isNumeric ∧ Stops Text.isNumeric rest
  | .mark _, _ => True
  | .quoted s closed, rest => '"' ∉ s ∧ (closed ∨ rest = [])
  | .word w, rest =>
    (∃ c cs, w = c :: cs ∧
      (¬Text.isBlank c ∧ ¬Text.isNumeric c ∧ c ∉ ['(', ')', '[', ']', '-', '"']) ∧
      ∀ d ∈ cs, ¬Text.isBlank d ∧ d ≠ ')' ∧ d ≠ ']') ∧
    ∀ c ∈ rest.head?, Text.isBlank c ∨ c = ')' ∨ c = ']'

theorem fits_quoted_iff : (quoted s closed).Fits rest ↔
    s.all notQuote ∧ (closed ∨ rest = []) := by
  simp only [Fits, all_notQuote_iff]

theorem fits_word_iff : (word w).Fits rest ↔
    (∃ c cs, w = c :: cs ∧ startsWord c ∧ cs.all inWord) ∧ Stops inWord rest := by
  simp only [Fits, startsWord_iff, List.all_eq_true, inWord_iff, stops_inWord_iff]

theorem fits_next (c : Char) (cs : List Char) : (next c cs).1.Fits (next c cs).2 := by
  unfold next
  split
  · rename_i hblank
    exact hblank
  split
  · rename_i hnumeric
    exact ⟨List.cons_ne_nil _ _, by simp [hnumeric], stops_dropWhile _ cs⟩
  split
  · trivial
  split
  · split
    · exact fits_quoted_iff.2 ⟨List.all_takeWhile, .inr rfl⟩
    · exact fits_quoted_iff.2 ⟨List.all_takeWhile, .inl rfl⟩
  · rename_i hblank hnumeric _ hmark hquote
    have hc : startsWord c := by simp [startsWord, hblank, hnumeric, hmark, hquote]
    exact fits_word_iff.2 ⟨⟨c, _, rfl, hc, List.all_takeWhile⟩, stops_dropWhile _ cs⟩

theorem next_quote_closed {s : List Char} (hs : s.all notQuote) (rest : List Char) :
    next '"' (s ++ '"' :: rest) = (.quoted s true, rest) := by
  have hs' : ∀ c ∈ s, notQuote c := List.all_eq_true.1 hs
  have hstop : Stops notQuote ('"' :: rest) := rfl
  have hmark : Mark.ofChar? '"' = none := rfl
  rw [next, if_neg (by decide), if_neg (by decide)]
  simp only [hmark, if_pos, List.takeWhile_append_of_pos hs', List.dropWhile_append_of_pos hs',
    hstop.takeWhile_eq, hstop.dropWhile_eq, List.append_nil]

theorem next_quote_unclosed {s : List Char} (hs : s.all notQuote) :
    next '"' s = (.quoted s false, []) := by
  have hs' : ∀ c ∈ s, notQuote c := List.all_eq_true.1 hs
  have hmark : Mark.ofChar? '"' = none := rfl
  have htake : (s ++ []).takeWhile notQuote = s ++ [] := List.takeWhile_append_of_pos hs'
  have hdrop : (s ++ []).dropWhile notQuote = [] := List.dropWhile_append_of_pos hs'
  rw [List.append_nil] at htake hdrop
  rw [next, if_neg (by decide), if_neg (by decide)]
  simp only [hmark, if_pos, htake, hdrop]

theorem next_run {c : Char} {cs : List Char} (h : (c :: cs).all Text.isNumeric)
    (hrest : Stops Text.isNumeric rest) : next c (cs ++ rest) = (.run (c :: cs), rest) := by
  obtain ⟨hc, hcs⟩ := List.forall_mem_cons.1 (List.all_eq_true.1 h)
  have hblank : ¬Text.isBlank c := fun hb => by simp [Text.not_numeric_of_blank hb] at hc
  rw [next, if_neg hblank, if_pos hc, List.takeWhile_append_of_pos hcs,
    List.dropWhile_append_of_pos hcs, hrest.takeWhile_eq, hrest.dropWhile_eq, List.append_nil]

theorem next_word {c : Char} {cs : List Char} (hc : startsWord c) (hcs : cs.all inWord)
    (hrest : Stops inWord rest) : next c (cs ++ rest) = (.word (c :: cs), rest) := by
  have hcs' : ∀ d ∈ cs, inWord d := List.all_eq_true.1 hcs
  simp only [startsWord, Bool.not_eq_true', Bool.or_eq_false_iff, beq_eq_false_iff_ne,
    Option.isSome_eq_false_iff, Option.isNone_iff_eq_none] at hc
  obtain ⟨⟨⟨hblank, hnumeric⟩, hmark⟩, hquote⟩ := hc
  simp only [next, hblank, hnumeric, hmark, hquote, if_false, Bool.false_eq_true,
    List.takeWhile_append_of_pos hcs', List.dropWhile_append_of_pos hcs',
    hrest.takeWhile_eq, hrest.dropWhile_eq, List.append_nil]

/-- Only one segment fits before the rest of a text, and that is the one that is cut off. -/
theorem Fits.exists_next {g : Segment} (h : g.Fits rest) :
    ∃ c cs, g.text ++ rest = c :: cs ∧ next c cs = (g, rest) := by
  cases g with
  | blank c => exact ⟨c, rest, rfl, if_pos h⟩
  | run ds =>
    obtain ⟨hne, hds, hrest⟩ := h
    obtain ⟨c, cs, rfl⟩ := List.exists_cons_of_ne_nil hne
    exact ⟨c, cs ++ rest, rfl, next_run hds hrest⟩
  | mark m => exact ⟨m.char, rest, rfl, by cases m <;> rfl⟩
  | quoted s closed =>
    obtain ⟨hs, hclosed⟩ := fits_quoted_iff.1 h
    cases closed with
    | true => exact ⟨'"', s ++ '"' :: rest, by simp [text], next_quote_closed hs rest⟩
    | false =>
      obtain rfl : rest = [] := by simpa using hclosed
      exact ⟨'"', s, by simp [text], next_quote_unclosed hs⟩
  | word w =>
    obtain ⟨⟨c, cs, rfl, hc, hcs⟩, hrest⟩ := fits_word_iff.1 h
    exact ⟨c, cs ++ rest, rfl, next_word hc hcs hrest⟩

end Segment

def tokensOf (cs : List Char) : List Token := (cut cs).filterMap Segment.token?

theorem tokenize_eq (s : String) : tokenize s = tokensOf s.toList := rfl

theorem tokensOf_nil : tokensOf [] = [] := by rw [tokensOf, cut]; rfl

theorem tokensOf_cons (c : Char) (cs : List Char) :
    tokensOf (c :: cs) =
      (Segment.next c cs).1.token?.toList ++ tokensOf (Segment.next c cs).2 := by
  rw [tokensOf, cut, List.filterMap_cons]
  cases (Segment.next c cs).1.token? <;> rfl

theorem tokensOf_of_fits {g : Segment} (h : g.Fits rest) :
    tokensOf (g.text ++ rest) = g.token?.toList ++ tokensOf rest := by
  obtain ⟨c, cs, heq, hnext⟩ := h.exists_next
  rw [heq, tokensOf_cons, hnext]

theorem tokensOf_blank {c : Char} (h : Text.isBlank c) (cs : List Char) :
    tokensOf (c :: cs) = tokensOf cs :=
  tokensOf_of_fits (g := .blank c) h

theorem tokensOf_mark (m : Mark) (cs : List Char) :
    tokensOf (m.char :: cs) = m.token :: tokensOf cs :=
  tokensOf_of_fits (g := .mark m) trivial

theorem tokensOf_run {c : Char} {cs : List Char} (h : ∀ d ∈ c :: cs, d.isDigit)
    (hrest : Stops inWord rest) :
    tokensOf (c :: cs ++ rest) =
      ((Text.read? (c :: cs)).map Token.number).toList ++ tokensOf rest := by
  have hnumeric : (c :: cs).all Text.isNumeric :=
    List.all_eq_true.2 fun d hd => Text.isNumeric_of_isDigit (h d hd)
  exact tokensOf_of_fits (g := .run (c :: cs)) ⟨List.cons_ne_nil c cs, hnumeric, hrest.not_numeric⟩

theorem tokensOf_digits {n : Nat} (hn : n ≤ Text.largest) (hrest : Stops inWord rest) :
    tokensOf (Text.digits n ++ rest) = .number (Int64.ofNat n) :: tokensOf rest := by
  have hdigit : ∀ d ∈ Text.digits n, d.isDigit := fun d hd => Text.isDigit_of_mem_digits hd
  have hread := Text.read?_digits hn
  cases hd : Text.digits n with
  | nil => exact absurd hd Nat.toDigits_ne_nil
  | cons c cs =>
    rw [hd] at hdigit hread
    rw [tokensOf_run hdigit hrest, hread]
    rfl

theorem tokensOf_quoted {s : List Char} (hs : s.all notQuote) (rest : List Char) :
    tokensOf ('"' :: (s ++ '"' :: rest)) = .text (String.ofList s) :: tokensOf rest := by
  have h : (Segment.quoted s true).Fits rest := Segment.fits_quoted_iff.2 ⟨hs, .inl rfl⟩
  simpa [Segment.text, Segment.token?] using tokensOf_of_fits h

theorem tokensOf_word {c : Char} {cs : List Char} (hc : startsWord c) (hcs : cs.all inWord)
    (hrest : Stops inWord rest) :
    tokensOf (c :: cs ++ rest) = Token.ofWord (String.ofList (c :: cs)) :: tokensOf rest :=
  tokensOf_of_fits (Segment.fits_word_iff.2 ⟨⟨c, cs, rfl, hc, hcs⟩, hrest⟩)

theorem Token.ofWord_eq_name {s : String} (h : s ∉ reserved) : Token.ofWord s = .name s := by
  unfold Token.ofWord
  split <;> simp_all [reserved]

theorem tokensOf_name {s : String} (h : isName s) (hrest : Stops inWord rest) :
    tokensOf (s.toList ++ rest) = .name s :: tokensOf rest := by
  rw [isName] at h
  split at h
  · contradiction
  · rename_i c cs hs
    simp only [Bool.and_eq_true, Bool.not_eq_true', List.contains_eq_mem, decide_eq_false_iff_not]
      at h
    obtain ⟨⟨hc, hcs⟩, hword⟩ := h
    rw [hs, tokensOf_word hc hcs hrest, ← hs, String.ofList_toList, Token.ofWord_eq_name hword]

theorem tokensOf_joined {spell : α → List Char} {tokens : α → List Token} {c : Char}
    (hc : Text.isBlank c) {as : List α}
    (h : ∀ a ∈ as, ∀ rest, Stops inWord rest →
      tokensOf (spell a ++ rest) = tokens a ++ tokensOf rest) :
    tokensOf ([c].intercalate (as.map spell)) = as.flatMap tokens := by
  induction as with
  | nil => exact tokensOf_nil
  | cons a as ih =>
    obtain ⟨ha, has⟩ := List.forall_mem_cons.1 h
    cases as with
    | nil =>
      have := ha [] trivial
      simpa [tokensOf_nil] using this
    | cons b as =>
      rw [List.map_cons, List.map_cons, List.intercalate_cons_cons, List.append_assoc,
        List.singleton_append, ha _ (stops_blank hc _), tokensOf_blank hc, ← List.map_cons, ih has]
      rfl

theorem isLexable_ofWord {c : Char} {cs : List Char} (hc : startsWord c) (hcs : cs.all inWord) :
    (Token.ofWord (String.ofList (c :: cs))).isLexable := by
  by_cases h : String.ofList (c :: cs) ∈ reserved
  · simp only [reserved, List.mem_cons, List.not_mem_nil, or_false] at h
    obtain h | h | h | h := h <;> rw [h] <;> rfl
  · have hn : reserved.contains (String.ofList (c :: cs)) = false := by
      rw [List.contains_eq_mem]
      exact decide_eq_false h
    rw [Token.ofWord_eq_name h, Token.isLexable, isName, String.toList_ofList]
    simp only [hc, hcs, hn]
    rfl

theorem isLexable_of_read? {ds : List Char} {v : Int64} (h : Text.read? ds = some v) :
    (Token.number v).isLexable := by
  rw [Text.read?] at h
  split at h
  · rename_i hds
    obtain rfl : Int64.ofNat (Text.valueOf ds) = v := by simpa using h
    have hlt : Text.valueOf ds < 2 ^ 63 := Nat.lt_succ_of_le hds.2
    simp only [Token.isLexable, decide_eq_true_eq, Int64.le_iff_toInt_le,
      Int64.toInt_ofNat_of_lt hlt]
    exact Int.natCast_nonneg _
  · simp at h

theorem Segment.Fits.isLexable {g : Segment} (h : g.Fits rest) (ht : g.token? = some t) :
    t.isLexable := by
  cases g with
  | blank c => simp [token?] at ht
  | run ds =>
    obtain ⟨v, hv, rfl⟩ := Option.map_eq_some_iff.1 ht
    exact isLexable_of_read? hv
  | mark m =>
    obtain rfl := Option.some.inj ht
    cases m <;> rfl
  | quoted s closed =>
    obtain rfl := Option.some.inj ht
    simpa [Token.isLexable] using (fits_quoted_iff.1 h).1
  | word w =>
    obtain ⟨⟨c, cs, rfl, hc, hcs⟩, -⟩ := fits_word_iff.1 h
    obtain rfl := Option.some.inj ht
    exact isLexable_ofWord hc hcs

theorem isLexable_of_mem_tokensOf {cs : List Char} {t : Token} (h : t ∈ tokensOf cs) :
    t.isLexable := by
  obtain ⟨g, hg, ht⟩ := List.mem_filterMap.1 h
  clear h
  fun_induction cut cs with
  | case1 => simp at hg
  | case2 c cs ih =>
    obtain rfl | hg := List.mem_cons.1 hg
    · exact (Segment.fits_next c cs).isLexable ht
    · exact ih hg

end Lisplet
