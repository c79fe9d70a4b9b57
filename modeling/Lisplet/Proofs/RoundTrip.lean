import Lisplet.Proofs.Grammar
import Lisplet.Proofs.Lexing

/-!
Programs written back. A tree that was read from text is writable: nothing in it needs an escape
that the printer does not have. The text of a writable tree has the tokens of the tree, as long
as no word goes on behind it, and these derive the tree again.
-/

namespace Lisplet

namespace Node

mutual

def isWritable : Node → Bool
  | .missing => false
  | .number v => v != Int64.minValue
  | .boolean _ => true
  | .text s => s.toList.all notQuote
  | .identifier x => isName x
  | .list as => allWritable as
  | .call f as => isName f && f != "list" && allWritable as
  | .cond a b c => isWritable a && isWritable b && isWritable c
  | .defn f ps a => isName f && ps.all isName && isWritable a

def allWritable : List Node → Bool
  | [] => true
  | a :: as => isWritable a && allWritable as

end

theorem isWritable_call {f : String} {as : List Node} :
    (call f as).isWritable ↔ isName f ∧ f ≠ "list" ∧ allWritable as := by
  simp [isWritable, and_assoc]

theorem isWritable_cond {a b c : Node} :
    (cond a b c).isWritable ↔ a.isWritable ∧ b.isWritable ∧ c.isWritable := by
  simp [isWritable, and_assoc]

theorem isWritable_defn {f : String} {ps : List String} {a : Node} :
    (defn f ps a).isWritable ↔ isName f ∧ ps.all isName ∧ a.isWritable := by
  simp [isWritable, and_assoc]

theorem allWritable_cons {a : Node} {as : List Node} :
    allWritable (a :: as) ↔ a.isWritable ∧ allWritable as := by
  simp [allWritable]

/-- A negative number has no token of its own. -/
def numberTokens (v : Int64) : List Token :=
  if v.toInt < 0 then [.minus, .number (-v)] else [.number v]

mutual

def tokens : Node → List Token
  | .missing => []
  | .number v => numberTokens v
  | .boolean b => [.boolean b]
  | .text s => [.text s]
  | .identifier x => [.name x]
  | .list as => .openParen :: .name "list" :: (tokensEach as ++ [.closeParen])
  | .call f as => .openParen :: .name f :: (tokensEach as ++ [.closeParen])
  | .cond a b c =>
    .openParen :: .ifKeyword :: (tokens a ++ (tokens b ++ (tokens c ++ [.closeParen])))
  | .defn f ps a => .openParen :: .defnKeyword :: .name f :: .openBracket ::
      (ps.map .name ++ .closeBracket :: (tokens a ++ [.closeParen]))

def tokensEach : List Node → List Token
  | [] => []
  | a :: as => tokens a ++ tokensEach as

end

mutual

theorem isComplete_of_isWritable : ∀ n : Node, n.isWritable → n.isComplete
  | .missing, h => h
  | .number _, _ => rfl
  | .boolean _, _ => rfl
  | .text _, _ => rfl
  | .identifier _, _ => rfl
  | .list as, h => allComplete_of_allWritable as h
  | .call f as, h => by
    obtain ⟨-, -, has⟩ := isWritable_call.1 h
    exact allComplete_of_allWritable as has
  | .cond a b c, h => by
    obtain ⟨ha, hb, hc⟩ := isWritable_cond.1 h
    simp [isComplete, isComplete_of_isWritable a ha, isComplete_of_isWritable b hb,
      isComplete_of_isWritable c hc]
  | .defn f ps a, h => by
    obtain ⟨-, -, ha⟩ := isWritable_defn.1 h
    exact isComplete_of_isWritable a ha

theorem allComplete_of_allWritable : ∀ as : List Node, allWritable as → allComplete as
  | [], _ => rfl
  | a :: as, h => by
    obtain ⟨ha, has⟩ := allWritable_cons.1 h
    simp [allComplete, isComplete_of_isWritable a ha, allComplete_of_allWritable as has]

end

theorem print?_of_isWritable {n : Node} (h : n.isWritable) : n.print? = some n.render :=
  if_pos (isComplete_of_isWritable n h)

theorem derives_numberTokens (v : Int64) : Derives (numberTokens v) (.number v) := by
  rw [numberTokens]
  split
  · have h : Derives (.minus :: [.number (-v)]) (.number (- -v)) := .negative .number
    rwa [Int64.neg_neg] at h
  · exact .number

mutual

theorem derives_tokens : ∀ n : Node, n.isWritable → Derives n.tokens n
  | .missing, h => absurd h (by simp [isWritable])
  | .number v, _ => derives_numberTokens v
  | .boolean _, _ => .boolean
  | .text _, _ => .text
  | .identifier _, _ => .name
  | .list as, h => by
    obtain ⟨ps, hps, hts, hns⟩ := derivesEach_tokensEach as h
    rw [tokens, ← hts, ← hns]
    exact .list hps
  | .call f as, h => by
    obtain ⟨-, hlist, has⟩ := isWritable_call.1 h
    obtain ⟨ps, hps, hts, hns⟩ := derivesEach_tokensEach as has
    rw [tokens, ← hts, ← hns]
    exact .call hlist hps
  | .cond a b c, h => by
    obtain ⟨ha, hb, hc⟩ := isWritable_cond.1 h
    exact .cond (derives_tokens a ha) (derives_tokens b hb) (derives_tokens c hc)
  | .defn f ps a, h => by
    obtain ⟨-, -, ha⟩ := isWritable_defn.1 h
    exact .defn (derives_tokens a ha)

theorem derivesEach_tokensEach :
    ∀ as : List Node, allWritable as → DerivesEach (tokensEach as) as
  | [], _ => derivesEach_nil
  | a :: as, h => by
    obtain ⟨ha, has⟩ := allWritable_cons.1 h
    exact (derivesEach_tokensEach as has).cons (derives_tokens a ha)

end

theorem stops_space (cs : List Char) : Stops inWord (' ' :: cs) := stops_blank (by decide) cs

theorem stops_close (cs : List Char) : Stops inWord (')' :: cs) := (by decide : inWord ')' = false)

theorem stops_bracket (cs : List Char) : Stops inWord (']' :: cs) :=
  (by decide : inWord ']' = false)

theorem tokensOf_space (cs : List Char) : tokensOf (' ' :: cs) = tokensOf cs :=
  tokensOf_blank (by decide) cs

theorem tokensOf_open (cs : List Char) : tokensOf ('(' :: cs) = .openParen :: tokensOf cs :=
  tokensOf_mark .openParen cs

theorem tokensOf_close (cs : List Char) : tokensOf (')' :: cs) = .closeParen :: tokensOf cs :=
  tokensOf_mark .closeParen cs

theorem tokensOf_openBracket (cs : List Char) :
    tokensOf ('[' :: cs) = .openBracket :: tokensOf cs :=
  tokensOf_mark .openBracket cs

theorem tokensOf_if (cs : List Char) :
    tokensOf ("if".toList ++ ' ' :: cs) = .ifKeyword :: tokensOf cs := by
  rw [← tokensOf_space cs]
  exact tokensOf_word rfl rfl (stops_space cs)

theorem tokensOf_defn (cs : List Char) :
    tokensOf ("defn".toList ++ ' ' :: cs) = .defnKeyword :: tokensOf cs := by
  rw [← tokensOf_space cs]
  exact tokensOf_word rfl rfl (stops_space cs)

theorem stops_spellEach (as : List Node) (rest : List Char) :
    Stops inWord (spellEach as ++ ')' :: rest) := by
  cases as with
  | nil => exact stops_close rest
  | cons a as => exact stops_space _

theorem tokensOf_signed {v : Int64} (hv : v ≠ Int64.minValue) (h : Stops inWord rest) :
    tokensOf (Text.signed v ++ rest) = numberTokens v ++ tokensOf rest := by
  have hne : v.toInt ≠ -2 ^ 63 := fun h => hv (Int64.toInt_inj.1 h)
  have hlo := v.le_toInt
  have hhi := v.toInt_lt
  have hfit : v.toInt.natAbs ≤ Text.largest := by
    simp only [Text.largest]
    omega
  rw [Text.signed, numberTokens]
  split
  · have hneg : Int64.ofNat v.toInt.natAbs = -v := by
      rw [← Int64.ofInt_eq_ofNat, Int.ofNat_natAbs_of_nonpos (by omega), Int64.ofInt_neg,
        Int64.ofInt_toInt]
    rw [List.cons_append]
    exact (tokensOf_mark .minus _).trans (by rw [tokensOf_digits hfit h, hneg]; rfl)
  · have hpos : Int64.ofNat v.toInt.natAbs = v := by
      rw [← Int64.ofInt_eq_ofNat, Int.natAbs_of_nonneg (by omega), Int64.ofInt_toInt]
    rw [tokensOf_digits hfit h, hpos]
    rfl

theorem tokensOf_spaced {ps : List String} (hps : ps.all isName) (rest : List Char) :
    tokensOf (spaced ps ++ ']' :: rest) = ps.map .name ++ .closeBracket :: tokensOf rest := by
  induction ps with
  | nil => exact tokensOf_mark .closeBracket rest
  | cons p ps ih =>
    simp only [List.all_cons, Bool.and_eq_true] at hps
    have hstop : Stops inWord (spaced ps ++ ']' :: rest) := by
      cases ps with
      | nil => exact stops_bracket rest
      | cons q qs => exact stops_space _
    simp only [spaced, List.cons_append, List.append_assoc, List.map_cons]
    rw [tokensOf_space, tokensOf_name hps.1 hstop, ih hps.2]

theorem tokensOf_spread {ps : List String} (hps : ps.all isName) (rest : List Char) :
    tokensOf (spread ps ++ ']' :: rest) = ps.map .name ++ .closeBracket :: tokensOf rest := by
  rw [← tokensOf_spaced hps]
  cases ps with
  | nil => rfl
  | cons p ps => exact (tokensOf_space _).symm

theorem tokensOf_form {f : String} {as : List Node} (hf : isName f) (rest : List Char)
    (has : tokensOf (spellEach as ++ ')' :: rest) =
      tokensEach as ++ .closeParen :: tokensOf rest) :
    tokensOf ('(' :: (f.toList ++ (spellEach as ++ ')' :: rest))) =
      .openParen :: .name f :: (tokensEach as ++ .closeParen :: tokensOf rest) := by
  rw [tokensOf_open, tokensOf_name hf (stops_spellEach as rest), has]

mutual

theorem tokensOf_spell : ∀ (n : Node) (rest : List Char), n.isWritable → Stops inWord rest →
    tokensOf (n.spell ++ rest) = n.tokens ++ tokensOf rest
  | .missing, _, h, _ => absurd h (by simp [isWritable])
  | .number v, rest, h, hrest => tokensOf_signed (by simpa [isWritable] using h) hrest
  | .boolean b, rest, _, hrest => by cases b <;> exact tokensOf_word rfl rfl hrest
  | .text s, rest, h, _ => by
    have := tokensOf_quoted h rest
    simpa [spell, tokens] using this
  | .identifier x, rest, h, hrest => tokensOf_name h hrest
  | .list as, rest, h, _ => by
    have hlist : isName "list" := by decide
    calc
      tokensOf ((Node.list as).spell ++ rest) =
          tokensOf ('(' :: ("list".toList ++ (spellEach as ++ ')' :: rest))) := by simp [spell]
      _ = .openParen :: .name "list" :: (tokensEach as ++ .closeParen :: tokensOf rest) :=
        tokensOf_form hlist rest (tokensOf_spellEach as rest h)
      _ = (Node.list as).tokens ++ tokensOf rest := by simp [tokens]
  | .call f as, rest, h, _ => by
    obtain ⟨hf, -, has⟩ := isWritable_call.1 h
    calc
      tokensOf ((Node.call f as).spell ++ rest) =
          tokensOf ('(' :: (f.toList ++ (spellEach as ++ ')' :: rest))) := by simp [spell]
      _ = .openParen :: .name f :: (tokensEach as ++ .closeParen :: tokensOf rest) :=
        tokensOf_form hf rest (tokensOf_spellEach as rest has)
      _ = (Node.call f as).tokens ++ tokensOf rest := by simp [tokens]
  | .cond a b c, rest, h, _ => by
    obtain ⟨ha, hb, hc⟩ := isWritable_cond.1 h
    calc
      tokensOf ((Node.cond a b c).spell ++ rest) =
          tokensOf ('(' :: ("if".toList ++ ' ' ::
            (a.spell ++ ' ' :: (b.spell ++ ' ' :: (c.spell ++ ')' :: rest))))) := by simp [spell]
      _ = .openParen :: .ifKeyword ::
            (a.tokens ++ (b.tokens ++ (c.tokens ++ .closeParen :: tokensOf rest))) := by
        rw [tokensOf_open, tokensOf_if, tokensOf_spell a _ ha (stops_space _), tokensOf_space,
          tokensOf_spell b _ hb (stops_space _), tokensOf_space,
          tokensOf_spell c _ hc (stops_close _), tokensOf_close]
      _ = (Node.cond a b c).tokens ++ tokensOf rest := by simp [tokens]
  | .defn f ps a, rest, h, _ => by
    obtain ⟨hf, hps, ha⟩ := isWritable_defn.1 h
    calc
      tokensOf ((Node.defn f ps a).spell ++ rest) =
          tokensOf ('(' :: ("defn".toList ++ ' ' :: (f.toList ++ ' ' :: '[' ::
            (spread ps ++ ']' :: ' ' :: (a.spell ++ ')' :: rest))))) := by simp [spell]
      _ = .openParen :: .defnKeyword :: .name f :: .openBracket ::
            (ps.map .name ++ .closeBracket :: (a.tokens ++ .closeParen :: tokensOf rest)) := by
        rw [tokensOf_open, tokensOf_defn, tokensOf_name hf (stops_space _), tokensOf_space,
          tokensOf_openBracket, tokensOf_spread hps, tokensOf_space,
          tokensOf_spell a _ ha (stops_close _), tokensOf_close]
      _ = (Node.defn f ps a).tokens ++ tokensOf rest := by simp [tokens]

theorem tokensOf_spellEach : ∀ (as : List Node) (rest : List Char), allWritable as →
    tokensOf (spellEach as ++ ')' :: rest) = tokensEach as ++ .closeParen :: tokensOf rest
  | [], rest, _ => tokensOf_close rest
  | a :: as, rest, h => by
    obtain ⟨ha, has⟩ := allWritable_cons.1 h
    simp only [spellEach, tokensEach, List.cons_append, List.append_assoc]
    rw [tokensOf_space, tokensOf_spell a _ ha (stops_spellEach as rest),
      tokensOf_spellEach as rest has]

end

theorem allWritable_iff {as : List Node} : allWritable as ↔ ∀ a ∈ as, a.isWritable := by
  induction as with
  | nil => simp [allWritable]
  | cons a as ih => simp [allWritable_cons, ih]

theorem allWritable_of_pieces {ps : List (List Token × Node)}
    (h : ∀ p ∈ ps, (∀ t ∈ p.1, t.isLexable) → p.2.isWritable)
    (hts : ∀ t ∈ ps.flatMap Prod.fst, t.isLexable) : allWritable (ps.map Prod.snd) := by
  apply allWritable_iff.2
  intro a ha
  obtain ⟨p, hp, rfl⟩ := List.mem_map.1 ha
  exact h p hp fun t ht => hts t (List.mem_flatMap.2 ⟨p, hp, ht⟩)

theorem isWritable_of_derives (h : Derives ts n) (hts : ∀ t ∈ ts, t.isLexable) : n.isWritable := by
  induction h with
  | @number v =>
    have hv : 0 ≤ v := of_decide_eq_true (hts (.number v) List.mem_cons_self)
    apply bne_iff_ne.2
    rintro rfl
    exact absurd hv (by decide)
  | boolean => rfl
  | @text s => exact hts (.text s) List.mem_cons_self
  | @name x => exact hts (.name x) List.mem_cons_self
  | @negative us v _ ih =>
    have hv : v ≠ Int64.minValue := bne_iff_ne.1 (ih fun t ht => hts t (List.mem_cons_of_mem _ ht))
    apply bne_iff_ne.2
    intro hneg
    -- the least number is its own opposite
    exact hv (Int64.neg_inj.1 hneg)
  | @call f ps hf _ ih =>
    have hname : isName f := hts (.name f) (by simp)
    have hall := allWritable_of_pieces ih fun t ht => hts t (by simp [ht])
    exact isWritable_call.2 ⟨hname, hf, hall⟩
  | list _ ih => exact allWritable_of_pieces ih fun t ht => hts t (by simp [ht])
  | cond _ _ _ iha ihb ihc =>
    exact isWritable_cond.2 ⟨iha fun t ht => hts t (by simp [ht]),
      ihb fun t ht => hts t (by simp [ht]), ihc fun t ht => hts t (by simp [ht])⟩
  | @defn us a f ps _ ih =>
    have hname : isName f := hts (.name f) (by simp)
    have hps : ps.all isName := List.all_eq_true.2 fun p hp => hts (.name p) (by simp [hp])
    have ha : a.isWritable := ih fun t ht => hts t (by simp [ht])
    exact isWritable_defn.2 ⟨hname, hps, ha⟩

theorem allWritable_of_readAll {s : String} {ns : List Node}
    (h : readAll (tokenize s) = .ok ns) : allWritable ns := by
  obtain ⟨ps, hps, hts, rfl⟩ := derivesEach_of_readAll h
  apply allWritable_of_pieces fun p hp => isWritable_of_derives (hps p hp)
  intro t ht
  rw [hts] at ht
  exact isLexable_of_mem_tokensOf ht

theorem mapM_print? {ns : List Node} (h : allWritable ns) :
    ns.mapM print? = some (ns.map render) := by
  induction ns with
  | nil => rfl
  | cons n ns ih =>
    obtain ⟨hn, hns⟩ := allWritable_cons.1 h
    simp [print?_of_isWritable hn, ih hns]

theorem tokensEach_eq_flatMap (as : List Node) : tokensEach as = as.flatMap tokens := by
  induction as with
  | nil => rfl
  | cons a as ih => rw [tokensEach, ih, List.flatMap_cons]

theorem tokensOf_intercalate {c : Char} (hc : Text.isBlank c) {ns : List Node}
    (h : allWritable ns) : tokensOf ([c].intercalate (ns.map spell)) = tokensEach ns := by
  rw [tokensEach_eq_flatMap]
  apply tokensOf_joined hc
  intro n hn rest hrest
  exact tokensOf_spell n rest (allWritable_iff.1 h n hn) hrest

end Node

theorem readAll_printed {source w : String} {ns : List Node}
    (h : readAll (tokenize source) = .ok ns) (hw : w = " " ∨ w = "\n") :
    ∃ texts, ns.mapM Node.print? = some texts ∧
      readAll (tokenize (w.intercalate texts)) = .ok ns := by
  have hns := Node.allWritable_of_readAll h
  refine ⟨ns.map Node.render, Node.mapM_print? hns, ?_⟩
  obtain ⟨c, hc, hblank⟩ : ∃ c, w.toList = [c] ∧ Text.isBlank c := by
    obtain rfl | rfl := hw
    · exact ⟨' ', rfl, by decide⟩
    · exact ⟨'\n', rfl, by decide⟩
  have hspell : (ns.map Node.render).map String.toList = ns.map Node.spell := by
    simp [Node.render]
  rw [tokenize_eq, String.toList_intercalate, hc, hspell, Node.tokensOf_intercalate hblank hns]
  exact readAll_of_derivesEach (Node.derivesEach_tokensEach ns hns)

theorem readAll_printed_odd :
    let source := "(f(x\u3000a\"b - -5) ٣ (defn g [p p] (if p \"a b\" (list -0)))"
    let ns : List Node :=
      [.call "f(x" [.identifier "a\"b", .number 5],
        .defn "g" ["p", "p"] (.cond (.identifier "p") (.text "a b") (.list [.number 0]))]
    readAll (tokenize source) = .ok ns ∧
      ∃ texts, ns.mapM Node.print? = some texts ∧
        readAll (tokenize ("\n".intercalate texts)) = .ok ns := by
  -- a quote inside a name, signs to spare, and blanks and digits of other scripts
  intro source ns
  have htokens : tokenize source =
      [.openParen, .name "f(x", .name "a\"b", .minus, .minus, .number 5, .closeParen,
        .openParen, .defnKeyword, .name "g", .openBracket, .name "p", .name "p", .closeBracket,
        .openParen, .ifKeyword, .name "p", .text "a b", .openParen, .name "list", .minus,
        .number 0, .closeParen, .closeParen, .closeParen] := by decide +kernel
  have h : readAll (tokenize source) = .ok ns := by
    rw [htokens]
    cbv
  exact ⟨h, readAll_printed h (.inr rfl)⟩

end Lisplet
