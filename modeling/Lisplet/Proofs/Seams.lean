import Lisplet.Proofs.Lexing
import Mathlib.Data.List.DropRight

namespace Lisplet

theorem Stops.of_append (h : Stops p (cs ++ rest)) : Stops p cs := by
  cases cs with
  | nil => trivial
  | cons c cs => exact h

theorem Stops.append (h : Stops p cs) (hrest : Stops p rest) : Stops p (cs ++ rest) := by
  cases cs with
  | nil => exact hrest
  | cons c cs => exact h

namespace Segment

def isUnclosed : Segment → Bool
  | .quoted _ closed => !closed
  | _ => false

theorem eq_quote_of_isUnclosed {c : Char} {cs : List Char} (h : (next c cs).1.isUnclosed) :
    c = '"' ∧ cs.all notQuote := by
  have hfits := fits_next c cs
  have htext := text_next c cs
  generalize next c cs = r at h hfits htext
  obtain ⟨g, rest⟩ := r
  cases g with
  | quoted s closed =>
    obtain rfl : closed = false := by simpa [isUnclosed] using h
    obtain rfl : rest = [] := by simpa using hfits.2
    obtain ⟨rfl, rfl⟩ : '"' = c ∧ s = cs := by simpa [text] using htext
    exact ⟨rfl, (fits_quoted_iff.1 hfits).1⟩
  | _ => simp [isUnclosed] at h

theorem Fits.append {g : Segment} (h : g.Fits cs) (hclosed : g.isUnclosed = false)
    (hrest : Stops inWord rest) : g.Fits (cs ++ rest) := by
  cases g with
  | blank c => exact h
  | run ds => exact ⟨h.1, h.2.1, h.2.2.append hrest.not_numeric⟩
  | mark m => trivial
  | quoted s closed => exact ⟨h.1, .inl (by simpa [isUnclosed] using hclosed)⟩
  | word w =>
    obtain ⟨hw, hstops⟩ := fits_word_iff.1 h
    exact fits_word_iff.2 ⟨hw, hstops.append hrest⟩

theorem next_append (h : Stops inWord rest) {c : Char} {cs : List Char}
    (hclosed : (next c cs).1.isUnclosed = false) :
    next c (cs ++ rest) = ((next c cs).1, (next c cs).2 ++ rest) := by
  obtain ⟨c', cs', heq, hnext⟩ := ((fits_next c cs).append hclosed h).exists_next
  rw [← List.append_assoc, text_next, List.cons_append] at heq
  obtain ⟨rfl, rfl⟩ := List.cons.inj heq
  exact hnext

end Segment

/-- The text ends inside a quotation. -/
def isOpen (cs : List Char) : Bool := (cut cs).any Segment.isUnclosed

theorem isOpen_cons (c : Char) (cs : List Char) :
    isOpen (c :: cs) = ((Segment.next c cs).1.isUnclosed || isOpen (Segment.next c cs).2) := by
  rw [isOpen, cut, List.any_cons, isOpen]

theorem cut_append (h : Stops inWord rest) {cs : List Char} (hcs : isOpen cs = false) :
    cut (cs ++ rest) = cut cs ++ cut rest := by
  fun_induction cut cs with
  | case1 => rfl
  | case2 c cs ih =>
    rw [isOpen_cons, Bool.or_eq_false_iff] at hcs
    rw [List.cons_append, cut, Segment.next_append h hcs.1, ih hcs.2]
    rfl

theorem tokensOf_append (h : Stops inWord rest) {cs : List Char} (hcs : isOpen cs = false) :
    tokensOf (cs ++ rest) = tokensOf cs ++ tokensOf rest := by
  rw [tokensOf, cut_append h hcs, List.filterMap_append]
  rfl

theorem cut_append_of_isOpen {cs : List Char} (h : isOpen cs) (hstop : Stops inWord rest)
    (hrest : rest.all notQuote) : ∃ gs s, cut cs = gs ++ [.quoted s false] ∧
      cut (cs ++ rest) = gs ++ [.quoted (s ++ rest) false] := by
  fun_induction cut cs with
  | case1 => simp [isOpen, cut] at h
  | case2 c cs ih =>
    cases hseg : (Segment.next c cs).1.isUnclosed with
    | true =>
      -- a quotation without an end goes on to the end of the text, so it is the last segment
      obtain ⟨rfl, hcs⟩ := Segment.eq_quote_of_isUnclosed hseg
      have hall : (cs ++ rest).all notQuote := by simp [hcs, hrest]
      refine ⟨[], cs, ?_, ?_⟩
      · rw [Segment.next_quote_unclosed hcs, cut]
        rfl
      · rw [List.cons_append, cut, Segment.next_quote_unclosed hall, cut]
        rfl
    | false =>
      rw [isOpen_cons, hseg, Bool.false_or] at h
      obtain ⟨gs, s, hgs, hgs'⟩ := ih h
      refine ⟨(Segment.next c cs).1 :: gs, s, ?_, ?_⟩
      · rw [hgs]
        rfl
      · rw [List.cons_append, cut, Segment.next_append hstop hseg, hgs']
        rfl

theorem tokensOf_append_of_isOpen {cs : List Char} (h : isOpen cs) (hstop : Stops inWord rest)
    (hrest : rest.all notQuote) : ∃ ts s, tokensOf cs = ts ++ [.text (String.ofList s)] ∧
      tokensOf (cs ++ rest) = ts ++ [.text (String.ofList (s ++ rest))] := by
  obtain ⟨gs, s, hgs, hgs'⟩ := cut_append_of_isOpen h hstop hrest
  refine ⟨gs.filterMap Segment.token?, s, ?_, ?_⟩
  · rw [tokensOf, hgs, List.filterMap_append]
    rfl
  · rw [tokensOf, hgs', List.filterMap_append]
    rfl

theorem isOpen_append_of_isOpen {cs : List Char} (h : isOpen cs) (hstop : Stops inWord rest)
    (hrest : rest.all notQuote) : isOpen (cs ++ rest) := by
  obtain ⟨gs, s, -, hgs⟩ := cut_append_of_isOpen h hstop hrest
  rw [isOpen, hgs]
  simp [Segment.isUnclosed]

theorem notQuote_of_blank {c : Char} (h : Text.isBlank c) : notQuote c := by
  suffices c ≠ '"' by simpa [notQuote] using this
  rintro rfl
  exact absurd h (by decide)

theorem tokensOf_append_blank_iff {c : Char} (hc : Text.isBlank c) {cs : List Char} :
    tokensOf (cs ++ [c]) = tokensOf cs ↔ isOpen cs = false := by
  have hstop := stops_blank hc []
  constructor
  · intro heq
    rw [Bool.eq_false_iff]
    intro hopen
    have hquote : [c].all notQuote := by simp [notQuote_of_blank hc]
    obtain ⟨ts, s, hts, hts'⟩ := tokensOf_append_of_isOpen hopen hstop hquote
    have hlast : String.ofList (s ++ [c]) = String.ofList s := by
      rw [hts, hts'] at heq
      simpa only [List.append_cancel_left_eq, List.cons.injEq, Token.text.injEq, and_true] using heq
    have hlength := congrArg String.length hlast
    simp at hlength
  · intro hclosed
    rw [tokensOf_append hstop hclosed, tokensOf_blank hc, tokensOf_nil, List.append_nil]

section

variable {bs : List Char} (hbs : bs.all Text.isBlank)
include hbs

theorem stops_blanks : Stops inWord bs := by
  cases bs with
  | nil => trivial
  | cons b bs =>
    rw [List.all_cons, Bool.and_eq_true] at hbs
    exact stops_blank hbs.1 bs

theorem cut_blanks_append (cs : List Char) : cut (bs ++ cs) = bs.map .blank ++ cut cs := by
  induction bs with
  | nil => rfl
  | cons b bs ih =>
    rw [List.all_cons, Bool.and_eq_true] at hbs
    rw [List.cons_append, cut, Segment.next, if_pos hbs.1, ih hbs.2]
    rfl

theorem tokensOf_blanks_append (cs : List Char) : tokensOf (bs ++ cs) = tokensOf cs := by
  have hnone : (bs.map Segment.blank).filterMap Segment.token? = [] := by simp [Segment.token?]
  rw [tokensOf, cut_blanks_append hbs, List.filterMap_append, hnone]
  rfl

theorem isOpen_blanks_append (cs : List Char) : isOpen (bs ++ cs) = isOpen cs := by
  have hnone : (bs.map Segment.blank).any Segment.isUnclosed = false := by
    simp [Segment.isUnclosed]
  rw [isOpen, cut_blanks_append hbs, List.any_append, hnone]
  rfl

theorem tokensOf_append_blanks {cs : List Char} (h : isOpen (cs ++ bs) = false) :
    tokensOf (cs ++ bs) = tokensOf cs := by
  -- blanks behind an open text would be part of it, and the whole would be open too
  have hclosed : isOpen cs = false := by
    rw [Bool.eq_false_iff]
    intro hopen
    have hquote : bs.all notQuote :=
      List.all_eq_true.2 fun b hb => notQuote_of_blank (List.all_eq_true.1 hbs b hb)
    exact Bool.eq_false_iff.1 h (isOpen_append_of_isOpen hopen (stops_blanks hbs) hquote)
  have hnone := tokensOf_blanks_append hbs []
  rw [List.append_nil, tokensOf_nil] at hnone
  rw [tokensOf_append (stops_blanks hbs) hclosed, hnone, List.append_nil]

end

namespace Text

theorem eq_append_trim (cs : List Char) :
    ∃ bs bs' : List Char, bs.all isBlank ∧ bs'.all isBlank ∧ cs = bs ++ (trim cs ++ bs') := by
  refine ⟨cs.takeWhile isBlank, (cs.dropWhile isBlank).rtakeWhile isBlank, ?_, ?_, ?_⟩
  · exact List.all_takeWhile
  · exact List.all_eq_true.2 fun b hb => List.mem_rtakeWhile_imp hb
  · have htrim : trim cs = (cs.dropWhile isBlank).rdropWhile isBlank := rfl
    rw [htrim, List.rdropWhile_append_rtakeWhile, List.takeWhile_append_dropWhile]

theorem stops_trim (cs : List Char) :
    Stops isBlank (trim cs) ∧ Stops isBlank (trim cs).reverse := by
  constructor
  · -- what is cut off behind leaves the first character where it was, unless it is cut off too
    obtain ⟨bs, hbs⟩ : trim cs <+: cs.dropWhile isBlank := List.rdropWhile_prefix isBlank _
    have hfirst := stops_dropWhile isBlank cs
    rw [← hbs] at hfirst
    exact hfirst.of_append
  · rw [trim, List.reverse_reverse]
    exact stops_dropWhile isBlank _

theorem trim_append {bs bs' : List Char} (hbs : bs.all isBlank) (hbs' : bs'.all isBlank)
    {ds : List Char} (hfirst : Stops isBlank ds) (hlast : Stops isBlank ds.reverse) :
    trim (bs ++ (ds ++ bs')) = ds := by
  have hbehind : ∀ c ∈ bs'.reverse, isBlank c := by simpa using List.all_eq_true.1 hbs'
  rw [trim, List.dropWhile_append_of_pos (List.all_eq_true.1 hbs)]
  cases ds with
  | nil =>
    rw [List.nil_append, List.dropWhile_eq_nil_iff.2 (List.all_eq_true.1 hbs')]
    rfl
  | cons d ds =>
    have hstays : Stops isBlank (d :: ds ++ bs') := hfirst
    rw [hstays.dropWhile_eq, List.reverse_append, List.dropWhile_append_of_pos hbehind,
      hlast.dropWhile_eq, List.reverse_reverse]

end Text

theorem tokensOf_trim {cs : List Char} (h : isOpen cs = false) :
    tokensOf (Text.trim cs) = tokensOf cs := by
  obtain ⟨bs, bs', hbs, hbs', heq⟩ := Text.eq_append_trim cs
  rw [heq, isOpen_blanks_append hbs] at h
  conv_rhs => rw [heq]
  rw [tokensOf_blanks_append hbs, tokensOf_append_blanks hbs' h]

theorem tokensOf_separator {c : Char} (h : Text.isBlank c ∨ c = ')' ∨ c = ']') (cs : List Char) :
    tokensOf (c :: cs) = tokensOf [c] ++ tokensOf cs := by
  have hmark : ∀ m : Mark, tokensOf (m.char :: cs) = tokensOf [m.char] ++ tokensOf cs := by
    intro m
    rw [tokensOf_mark, tokensOf_mark, tokensOf_nil]
    rfl
  obtain h | rfl | rfl := h
  · rw [tokensOf_blank h, tokensOf_blank h, tokensOf_nil, List.nil_append]
  · exact hmark .closeParen
  · exact hmark .closeBracket

/-- Trimming takes blanks off the two ends and nothing else, and leaves none there. -/
theorem Text.trim_eq_iff {cs ds : List Char} :
    trim cs = ds ↔
      (∃ bs bs' : List Char, bs.all isBlank ∧ bs'.all isBlank ∧ cs = bs ++ (ds ++ bs')) ∧
        (∀ c ∈ ds.head?, isBlank c = false) ∧ ∀ c ∈ ds.getLast?, isBlank c = false := by
  rw [← stops_iff, ← List.head?_reverse, ← stops_iff]
  constructor
  · rintro rfl
    exact ⟨eq_append_trim cs, stops_trim cs⟩
  · rintro ⟨⟨bs, bs', hbs, hbs', rfl⟩, hfirst, hlast⟩
    exact trim_append hbs hbs' hfirst hlast

/-- The tokens of a text that is not open stay as they are before a separator, whatever follows it;
nor do blanks at the ends of the text matter. -/
theorem tokenize_separated (s : String) :
    (isOpen s.toList ↔ tokenize (s ++ " ") ≠ tokenize s) ∧
      (tokenize (s ++ " ") = tokenize s →
        (∀ (c : Char) (t : String), Text.isBlank c ∨ c = ')' ∨ c = ']' →
          tokenize (s ++ String.singleton c ++ t) =
            tokenize s ++ tokenize (String.singleton c) ++ tokenize t) ∧
        tokenize (String.ofList (Text.trim s.toList)) = tokenize s) := by
  have hspace : tokenize (s ++ " ") = tokenize s ↔ isOpen s.toList = false := by
    rw [tokenize_eq, String.toList_append]
    exact tokensOf_append_blank_iff (by decide)
  refine ⟨?_, ?_⟩
  · rw [ne_eq, hspace, Bool.not_eq_false]
  · intro h
    have hclosed := hspace.1 h
    refine ⟨?_, ?_⟩
    · intro c t hc
      have hstop : Stops inWord (c :: t.toList) := inWord_eq_false_iff.2 hc
      simp only [tokenize_eq, String.toList_append, String.toList_singleton, List.append_assoc,
        List.singleton_append]
      rw [tokensOf_append hstop hclosed, tokensOf_separator hc]
    · rw [tokenize_eq, String.toList_ofList]
      exact tokensOf_trim hclosed

theorem tokenize_separated_odd :
    let s := "\u3000x\"y 1\n"
    let t := "\"z ]"
    tokenize (s ++ " ") = tokenize s ∧
      tokenize (s ++ String.singleton ')' ++ t) =
        [.name "x\"y", .number 1, .closeParen, .text "z ]"] ∧
      tokenize (String.ofList (Text.trim s.toList)) = [.name "x\"y", .number 1] := by
  -- the quote inside the first name opens nothing, so the next quote is the first to open one
  intro s t
  have h : tokenize (s ++ " ") = tokenize s := by decide +kernel
  have hs : tokenize s = [.name "x\"y", .number 1] := by decide +kernel
  have hc : tokenize (String.singleton ')') = [.closeParen] := by decide +kernel
  have ht : tokenize t = [.text "z ]"] := by decide +kernel
  obtain ⟨hseparated, htrim⟩ := (tokenize_separated s).2 h
  refine ⟨h, ?_, htrim.trans hs⟩
  rw [hseparated ')' t (.inr (.inl rfl)), hs, hc, ht]
  rfl

end Lisplet
