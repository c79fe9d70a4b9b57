import Lisplet.Proofs.RoundTrip
import Mathlib.Data.List.Basic

namespace Lisplet

def signsLeft (count : Nat) (v : Int64) : List Token :=
  if count % 2 = 0 ∨ v = 0 then [] else [.minus]

def reduceSignsAfter : Nat → List Token → List Token
  | count, [] => List.replicate count .minus
  | count, .minus :: ts => reduceSignsAfter (count + 1) ts
  | count, .number v :: ts => signsLeft count v ++ .number v :: reduceSignsAfter 0 ts
  | count, t :: ts => List.replicate count .minus ++ t :: reduceSignsAfter 0 ts

/-- Reduces every chain of signs that stands right before a number to one sign or none. -/
def reduceSigns (ts : List Token) : List Token := reduceSignsAfter 0 ts

theorem reduceSigns_of_names (xs : List String) (ts : List Token) :
    reduceSigns (xs.map .name ++ ts) = xs.map .name ++ reduceSigns ts := by
  induction xs with
  | nil => rfl
  | cons x xs ih => exact congrArg (.name x :: ·) ih

theorem reduceSignsAfter_replicate (count more : Nat) (ts : List Token) :
    reduceSignsAfter count (List.replicate more .minus ++ ts) =
      reduceSignsAfter (count + more) ts := by
  induction more generalizing count with
  | zero => rfl
  | succ more ih =>
    rw [List.replicate_succ, List.cons_append, reduceSignsAfter, ih, Nat.add_right_comm,
      Nat.add_assoc]

theorem Derives.exists_signs (h : Derives ts (.number v)) : ∃ count w,
    ts = List.replicate count .minus ++ [.number w] ∧ v = if count % 2 = 0 then w else -w := by
  generalize hn : Node.number v = n at h
  induction h generalizing v with
  | @number w =>
    obtain rfl : v = w := by simpa using hn
    exact ⟨0, v, rfl, rfl⟩
  | @negative us u _ ih =>
    obtain rfl : v = -u := by simpa using hn
    obtain ⟨count, w, rfl, rfl⟩ := ih rfl
    refine ⟨count + 1, w, rfl, ?_⟩
    obtain hmod | hmod := Nat.mod_two_eq_zero_or_one count <;> simp [Nat.add_mod, hmod]
  | _ => simp at hn

theorem numberTokens_of_signs {w : Int64} (hw : 0 ≤ w.toInt) (count : Nat) :
    Node.numberTokens (if count % 2 = 0 then w else -w) = signsLeft count w ++ [.number w] := by
  by_cases hmod : count % 2 = 0
  · simp [Node.numberTokens, signsLeft, hmod, hw]
  · by_cases hzero : w = 0
    · subst hzero
      simp [hmod, Node.numberTokens, signsLeft]
    · have hlt := w.toInt_lt
      have hne : w.toInt ≠ 0 := fun h => hzero (Int64.toInt_inj.1 h)
      have hneg : (-w).toInt = -w.toInt := by
        rw [Int64.toInt_neg, Int.bmod_eq_of_le] <;> omega
      rw [if_neg hmod, Node.numberTokens, if_pos (by omega), Int64.neg_neg, signsLeft,
        if_neg (by simp [hmod, hzero])]
      rfl

/-- Wherever the tokens stand, what is left of them are the tokens of the tree. -/
def ReducesTo (ts : List Token) (n : Node) : Prop :=
  ∀ rest, reduceSigns (ts ++ rest) = n.tokens ++ reduceSigns rest

theorem reducesTo_number (h : Derives ts (.number v)) (hts : ∀ t ∈ ts, t.isLexable) :
    ReducesTo ts (.number v) := by
  intro rest
  obtain ⟨count, w, rfl, rfl⟩ := h.exists_signs
  have hw : 0 ≤ w := of_decide_eq_true (hts (.number w) (by simp))
  rw [Node.tokens, numberTokens_of_signs (Int64.le_iff_toInt_le.1 hw), reduceSigns,
    List.append_assoc, reduceSignsAfter_replicate, Nat.zero_add]
  simp [reduceSignsAfter, reduceSigns]

theorem reduceSigns_of_pieces {ps : List (List Token × Node)}
    (h : ∀ p ∈ ps, (∀ t ∈ p.1, t.isLexable) → ReducesTo p.1 p.2)
    (hts : ∀ t ∈ ps.flatMap Prod.fst, t.isLexable) (rest : List Token) :
    reduceSigns (ps.flatMap Prod.fst ++ rest) =
      Node.tokensEach (ps.map Prod.snd) ++ reduceSigns rest := by
  induction ps with
  | nil => rfl
  | cons p ps ih =>
    obtain ⟨hp, hps⟩ := List.forall_mem_cons.1 h
    simp only [List.flatMap_cons, List.mem_append] at hts
    rw [List.flatMap_cons, List.append_assoc, hp (fun t ht => hts t (.inl ht)) _,
      ih hps fun t ht => hts t (.inr ht), List.map_cons, Node.tokensEach, List.append_assoc]

theorem reducesTo_form {ps : List (List Token × Node)} (f : String)
    (h : ∀ p ∈ ps, (∀ t ∈ p.1, t.isLexable) → ReducesTo p.1 p.2)
    (hts : ∀ t ∈ ps.flatMap Prod.fst, t.isLexable) :
    ReducesTo (.openParen :: .name f :: (ps.flatMap Prod.fst ++ [.closeParen]))
      (.call f (ps.map Prod.snd)) := by
  intro rest
  calc
    _ = .openParen :: .name f :: reduceSigns (ps.flatMap Prod.fst ++ .closeParen :: rest) := by
      simp only [List.cons_append, List.append_assoc]
      rfl
    _ = .openParen :: .name f ::
          (Node.tokensEach (ps.map Prod.snd) ++ .closeParen :: reduceSigns rest) := by
      rw [reduceSigns_of_pieces h hts]
      rfl
    _ = (Node.call f (ps.map Prod.snd)).tokens ++ reduceSigns rest := by simp [Node.tokens]

theorem reducesTo_of_derives (h : Derives ts n) (hts : ∀ t ∈ ts, t.isLexable) :
    ReducesTo ts n := by
  induction h with
  | number => exact reducesTo_number .number hts
  | negative h _ => exact reducesTo_number (.negative h) hts
  | boolean => exact fun rest => rfl
  | text => exact fun rest => rfl
  | name => exact fun rest => rfl
  | @call f ps _ _ ih => exact reducesTo_form f ih fun t ht => hts t (by simp [ht])
  | list _ ih => exact reducesTo_form "list" ih fun t ht => hts t (by simp [ht])
  | @cond ts a us b vs c _ _ _ iha ihb ihc =>
    have ha := iha fun t ht => hts t (by simp [ht])
    have hb := ihb fun t ht => hts t (by simp [ht])
    have hc := ihc fun t ht => hts t (by simp [ht])
    intro rest
    calc
      _ = .openParen :: .ifKeyword :: reduceSigns (ts ++ (us ++ (vs ++ .closeParen :: rest))) := by
        simp only [List.cons_append, List.append_assoc]
        rfl
      _ = .openParen :: .ifKeyword ::
            (a.tokens ++ (b.tokens ++ (c.tokens ++ .closeParen :: reduceSigns rest))) := by
        rw [ha, hb, hc]
        rfl
      _ = (Node.cond a b c).tokens ++ reduceSigns rest := by simp [Node.tokens]
  | @defn us a f ps _ ih =>
    have ha := ih fun t ht => hts t (by simp [ht])
    intro rest
    calc
      _ = .openParen :: .defnKeyword :: .name f :: .openBracket ::
            reduceSigns (ps.map .name ++ .closeBracket :: (us ++ .closeParen :: rest)) := by
        simp only [List.cons_append, List.append_assoc]
        rfl
      _ = .openParen :: .defnKeyword :: .name f :: .openBracket ::
            (ps.map .name ++ .closeBracket :: reduceSigns (us ++ .closeParen :: rest)) := by
        rw [reduceSigns_of_names]
        rfl
      _ = .openParen :: .defnKeyword :: .name f :: .openBracket ::
            (ps.map .name ++ .closeBracket :: (a.tokens ++ .closeParen :: reduceSigns rest)) := by
        rw [ha]
        rfl
      _ = (Node.defn f ps a).tokens ++ reduceSigns rest := by simp [Node.tokens]

theorem reduceSigns_tokenize {s : String} {ns : List Node} (h : readAll (tokenize s) = .ok ns) :
    reduceSigns (tokenize s) = Node.tokensEach ns := by
  obtain ⟨ps, hps, hts, rfl⟩ := derivesEach_of_readAll h
  have hlexable : ∀ t ∈ ps.flatMap Prod.fst, t.isLexable := by
    rw [hts]
    exact fun t ht => isLexable_of_mem_tokensOf ht
  have hpieces := reduceSigns_of_pieces (fun p hp => reducesTo_of_derives (hps p hp)) hlexable []
  rw [List.append_nil, hts] at hpieces
  rw [hpieces]
  exact List.append_nil _

theorem Node.tokensEach_inj {ns ms : List Node} (hns : allWritable ns) (hms : allWritable ms) :
    tokensEach ns = tokensEach ms ↔ ns = ms := by
  constructor
  · intro h
    have hread := readAll_of_derivesEach (derivesEach_tokensEach ns hns)
    rw [h, readAll_of_derivesEach (derivesEach_tokensEach ms hms)] at hread
    exact (Except.ok.inj hread).symm
  · rintro rfl
    rfl

/-- All that reading drops of a text are signs that cancel out and the sign of zero. -/
theorem readAll_same_iff_reduceSigns {source : String} {ns : List Node}
    (h : readAll (tokenize source) = .ok ns) :
    (∀ other ms, readAll (tokenize other) = .ok ms →
      (Node.sameAll ns ms ↔ reduceSigns (tokenize source) = reduceSigns (tokenize other))) ∧
      ∃ texts, ns.mapM Node.print? = some texts ∧
        tokenize (" ".intercalate texts) = reduceSigns (tokenize source) := by
  have hns := Node.allWritable_of_readAll h
  constructor
  · intro other ms hother
    have hms := Node.allWritable_of_readAll hother
    rw [reduceSigns_tokenize h, reduceSigns_tokenize hother, Node.tokensEach_inj hns hms]
    exact Node.sameAll_iff ns ms
  · refine ⟨ns.map Node.render, Node.mapM_print? hns, ?_⟩
    have hchars : (" ".intercalate (ns.map Node.render)).toList =
        [' '].intercalate (ns.map Node.spell) := by
      simp [String.toList_intercalate, Node.render, Function.comp_def]
    rw [tokenize_eq, hchars, Node.tokensOf_intercalate (by decide) hns, reduceSigns_tokenize h]

theorem readAll_same_iff_reduceSigns_at_signs :
    let source := "(f - - -5 (list -0)) --7"
    let same := "(f\t-5(list 0 ))\n- - 7"
    let other := "(f 5 (list 0)) 7"
    let ns : List Node := [.call "f" [.number (-5), .list [.number 0]], .number 7]
    let ms : List Node := [.call "f" [.number 5, .list [.number 0]], .number 7]
    (readAll (tokenize source) = .ok ns ∧ readAll (tokenize same) = .ok ns ∧
        readAll (tokenize other) = .ok ms) ∧
      reduceSigns (tokenize source) = reduceSigns (tokenize same) ∧
      reduceSigns (tokenize source) ≠ reduceSigns (tokenize other) ∧
      ∃ texts, ns.mapM Node.print? = some texts ∧
        tokenize (" ".intercalate texts) = reduceSigns (tokenize source) := by
  -- three signs are one, two are none, and zero has none
  intro source same other ns ms
  have hsource : readAll (tokenize source) = .ok ns := by decide +kernel
  have hsame : readAll (tokenize same) = .ok ns := by decide +kernel
  have hother : readAll (tokenize other) = .ok ms := by decide +kernel
  obtain ⟨hiff, hprinted⟩ := readAll_same_iff_reduceSigns hsource
  refine ⟨⟨hsource, hsame, hother⟩, ?_, ?_, hprinted⟩
  · exact (hiff same ns hsame).1 (by decide)
  · exact mt (hiff other ms hother).2 (by decide)

end Lisplet
