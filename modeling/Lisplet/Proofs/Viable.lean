import Lisplet.Proofs.Extension

/-!
The token that is blamed. As long as no form stands behind a sign, every state of the reader can
still be completed to an expression, so the reader finds no end if and only if the tokens begin an
expression; and the token that it does not expect is the first one after which no expression is
left that the tokens could begin.
-/

namespace Lisplet

def IsExpression (ts : List Token) : Prop := ∃ n, Derives ts n

def IsViable (ts : List Token) : Prop := ∃ us, IsExpression (ts ++ us)

theorem IsViable.of_append (h : IsViable (ts ++ us)) : IsViable ts := by
  obtain ⟨vs, hvs⟩ := h
  exact ⟨us ++ vs, by rwa [← List.append_assoc]⟩

namespace Reader

/-- A sign is waiting only where an expression is about to begin, and only for this one. -/
def Clear : Want → List Frame → Prop
  | .expression, fs => ∃ count gs, fs = List.replicate count .sign ++ gs ∧ .sign ∉ gs
  | _, fs => .sign ∉ fs

theorem clear_of_notMem {fs : List Frame} (h : .sign ∉ fs) (w : Want) : Clear w fs := by
  cases w with
  | expression => exact ⟨0, fs, rfl, h⟩
  | _ => exact h

theorem exists_proceed_finish {fs : List Frame} (h : .sign ∉ fs) (first : Token) (n : Node) :
    ∃ ts m, proceed (finish first n fs) ts = (.ok m, []) := by
  induction fs generalizing first n with
  | nil => exact ⟨[], n, rfl⟩
  | cons f fs ih =>
    have hfs : .sign ∉ fs := List.not_mem_of_not_mem_cons h
    cases f with
    | sign => simp at h
    | item hd ns =>
      obtain ⟨ts, m, hts⟩ := ih hfs .openParen (hd.node (ns ++ [n]))
      exact ⟨.closeParen :: ts, m, (resume_of_step_finish rfl ts).trans hts⟩
    | test =>
      obtain ⟨ts, m, hts⟩ := ih hfs .openParen (.cond n (.number 0) (.number 0))
      exact ⟨.number 0 :: .number 0 :: .closeParen :: ts, m,
        (resume_of_step_finish (w := .close _) rfl ts).trans hts⟩
    | onTrue a =>
      obtain ⟨ts, m, hts⟩ := ih hfs .openParen (.cond a n (.number 0))
      exact ⟨.number 0 :: .closeParen :: ts, m,
        (resume_of_step_finish (w := .close _) rfl ts).trans hts⟩
    | onFalse a b =>
      obtain ⟨ts, m, hts⟩ := ih hfs .openParen (.cond a b n)
      exact ⟨.closeParen :: ts, m, (resume_of_step_finish rfl ts).trans hts⟩
    | body f ps =>
      obtain ⟨ts, m, hts⟩ := ih hfs .openParen (.defn f ps n)
      exact ⟨.closeParen :: ts, m, (resume_of_step_finish rfl ts).trans hts⟩

theorem finish_zero (first : Token) (count : Nat) (fs : List Frame) :
    finish first (.number 0) (List.replicate count .sign ++ fs) = finish first (.number 0) fs := by
  induction count with
  | zero => rfl
  | succ count ih => exact ih

theorem exists_resume {w : Want} {fs : List Frame} (h : Clear w fs) :
    ∃ ts n, resume w fs ts = (.ok n, []) := by
  cases w with
  | expression =>
    obtain ⟨count, gs, rfl, hgs⟩ := h
    obtain ⟨ts, n, hts⟩ := exists_proceed_finish hgs (.number 0) (.number 0)
    refine ⟨.number 0 :: ts, n, ?_⟩
    calc
      _ = proceed (finish (.number 0) (.number 0) (List.replicate count .sign ++ gs)) ts :=
        resume_of_step_finish rfl ts
      _ = (.ok n, []) := by rw [finish_zero, hts]
  | head =>
    obtain ⟨ts, n, hts⟩ := exists_proceed_finish h .openParen (.call "f" [])
    exact ⟨.name "f" :: .closeParen :: ts, n,
      (resume_of_step_finish (w := .item _ _) rfl ts).trans hts⟩
  | item hd ns =>
    obtain ⟨ts, n, hts⟩ := exists_proceed_finish h .openParen (hd.node ns)
    exact ⟨.closeParen :: ts, n, (resume_of_step_finish rfl ts).trans hts⟩
  | close m =>
    obtain ⟨ts, n, hts⟩ := exists_proceed_finish h .openParen m
    exact ⟨.closeParen :: ts, n, (resume_of_step_finish rfl ts).trans hts⟩
  | name =>
    obtain ⟨ts, n, hts⟩ := exists_proceed_finish h .openParen (.defn "f" [] (.number 0))
    exact ⟨.name "f" :: .openBracket :: .closeBracket :: .number 0 :: .closeParen :: ts, n,
      (resume_of_step_finish (w := .close _) rfl ts).trans hts⟩
  | bracket f =>
    obtain ⟨ts, n, hts⟩ := exists_proceed_finish h .openParen (.defn f [] (.number 0))
    exact ⟨.openBracket :: .closeBracket :: .number 0 :: .closeParen :: ts, n,
      (resume_of_step_finish (w := .close _) rfl ts).trans hts⟩
  | parameter f ps =>
    obtain ⟨ts, n, hts⟩ := exists_proceed_finish h .openParen (.defn f ps (.number 0))
    exact ⟨.closeBracket :: .number 0 :: .closeParen :: ts, n,
      (resume_of_step_finish (w := .close _) rfl ts).trans hts⟩

/-- The step leads to a clear state, in which a sign is waiting only if the token was one, or it
blames the token itself. -/
def Step.Fair (t : Token) : Step → Prop
  | .next w fs => Clear w fs ∧ (.sign ∈ fs → t = .minus)
  | .done _ => True
  | .fail e => e = .unexpected t
  | .refuse e => e = .unexpected t

theorem Step.fair_next {fs : List Frame} (h : .sign ∉ fs) (w : Want) (t : Token) :
    (Step.next w fs).Fair t :=
  ⟨clear_of_notMem h w, fun hsign => absurd hsign h⟩

theorem finish_fair {fs : List Frame} (h : .sign ∉ fs) (first t : Token) (n : Node) :
    (finish first n fs).Fair t := by
  cases fs with
  | nil => trivial
  | cons f fs =>
    have hfs : .sign ∉ fs := List.not_mem_of_not_mem_cons h
    cases f with
    | sign => simp at h
    | test => exact Step.fair_next (by simp [hfs]) _ t
    | onTrue a => exact Step.fair_next (by simp [hfs]) _ t
    | _ => exact Step.fair_next hfs _ t

theorem finish_signs_fair {gs : List Frame} (h : .sign ∉ gs) (count : Nat) (t : Token) (n : Node) :
    (finish t n (List.replicate count .sign ++ gs)).Fair t := by
  induction count generalizing n with
  | zero => exact finish_fair h t t n
  | succ count ih =>
    cases n with
    | number v => exact ih (.number (-v))
    | _ => rfl

theorem start_fair {fs : List Frame} (h : Clear .expression fs)
    (hparen : t = .openParen → .sign ∉ fs) : (start fs t).Fair t := by
  obtain ⟨count, gs, rfl, hgs⟩ := h
  cases t with
  | number v => exact finish_signs_fair hgs count _ _
  | boolean b => exact finish_signs_fair hgs count _ _
  | text s => exact finish_signs_fair hgs count _ _
  | name x => exact finish_signs_fair hgs count _ _
  | minus => exact ⟨⟨count + 1, gs, rfl, hgs⟩, fun _ => rfl⟩
  | openParen => exact Step.fair_next (hparen rfl) _ _
  | _ => rfl

theorem step_fair_of_notMem {fs : List Frame} (h : .sign ∉ fs) (w : Want) (t : Token) :
    (step w fs t).Fair t := by
  -- behind the first token of an expression no sign is waiting, so all other wants are alike
  cases w with
  | expression => exact start_fair (clear_of_notMem h .expression) fun _ => h
  | head =>
    cases t with
    | ifKeyword => exact Step.fair_next (by simpa using h) _ _
    | defnKeyword | name f => exact Step.fair_next h _ _
    | _ => rfl
  | item hd ns =>
    have hitem : .sign ∉ Frame.item hd ns :: fs := by simpa using h
    have hstart := start_fair (t := t) (clear_of_notMem hitem .expression) fun _ => hitem
    cases t with
    | closeParen => exact finish_fair h _ _ _
    | _ => exact hstart
  | close n =>
    cases t with
    | closeParen => exact finish_fair h _ _ _
    | _ => rfl
  | name =>
    cases t with
    | name f => exact Step.fair_next h _ _
    | _ => rfl
  | bracket f =>
    cases t with
    | openBracket => exact Step.fair_next h _ _
    | _ => rfl
  | parameter f ps =>
    cases t with
    | closeBracket => exact Step.fair_next (by simpa using h) _ _
    | name p => exact Step.fair_next h _ _
    | _ => rfl

theorem step_fair {w : Want} {fs : List Frame} (h : Clear w fs)
    (hparen : t = .openParen → .sign ∉ fs) : (step w fs t).Fair t := by
  cases w with
  | expression => exact start_fair h hparen
  | _ => exact step_fair_of_notMem h _ t

/-- The state is clear, and it stays so as the tokens are read: no form stands behind a sign. -/
structure Orderly (w : Want) (fs : List Frame) (ts : List Token) : Prop where
  clear : Clear w fs
  apart : ¬[.minus, .openParen] <:+: ts
  paren : ∀ us, ts = .openParen :: us → .sign ∉ fs

theorem Orderly.fair (h : Orderly w fs (t :: ts)) : (step w fs t).Fair t := by
  apply step_fair h.clear
  rintro rfl
  exact h.paren ts rfl

theorem Orderly.next (h : Orderly w fs (t :: ts)) (hs : step w fs t = .next w' fs') :
    Orderly w' fs' ts := by
  have hfair := h.fair
  rw [hs] at hfair
  obtain ⟨hclear, hminus⟩ := hfair
  refine ⟨hclear, fun hts => h.apart (List.infix_cons hts), ?_⟩
  rintro us rfl hsign
  obtain rfl := hminus hsign
  exact h.apart ⟨[], us, rfl⟩

theorem Orderly.exists_completion (h : Orderly w fs ts)
    (hended : resume w fs ts = (.error .ended, rest)) :
    ∃ us n, resume w fs (ts ++ us) = (.ok n, []) := by
  induction ts generalizing w fs with
  | nil => exact exists_resume h.clear
  | cons t ts ih =>
    have hfair := h.fair
    rw [resume] at hended
    cases hs : step w fs t with
    | next w' fs' =>
      rw [hs] at hended
      obtain ⟨us, n, hus⟩ := ih (h.next hs) hended
      refine ⟨us, n, ?_⟩
      rw [List.cons_append, resume, hs]
      exact hus
    | _ => simp_all [Step.Fair]

theorem Orderly.exists_blamed (h : Orderly w fs ts)
    (hblamed : resume w fs ts = (.error (.unexpected t), rest)) :
    ∃ us vs, ts = us ++ t :: vs ∧ resume w fs us = (.error .ended, []) ∧
      (resume w fs (us ++ [t])).1 = .error (.unexpected t) := by
  induction ts generalizing w fs with
  | nil => simp [resume] at hblamed
  | cons u ts ih =>
    have hfair := h.fair
    rw [resume] at hblamed
    cases hs : step w fs u with
    | next w' fs' =>
      rw [hs] at hblamed
      obtain ⟨us, vs, rfl, hus, hut⟩ := ih (h.next hs) hblamed
      refine ⟨u :: us, vs, rfl, ?_, ?_⟩
      · rw [resume, hs]
        exact hus
      · rw [List.cons_append, resume, hs]
        exact hut
    | done n => simp [hs] at hblamed
    | fail e =>
      rw [hs] at hblamed hfair
      obtain ⟨rfl, -⟩ : e = .unexpected t ∧ ts = rest := by simpa using hblamed
      obtain rfl : t = u := by simpa [Step.Fair] using hfair
      exact ⟨[], ts, rfl, rfl, by simp [resume, hs]⟩
    | refuse e =>
      rw [hs] at hblamed hfair
      obtain ⟨rfl, -⟩ : e = .unexpected t ∧ u :: ts = rest := by simpa using hblamed
      obtain rfl : t = u := by simpa [Step.Fair] using hfair
      exact ⟨[], ts, rfl, rfl, by simp [resume, hs]⟩

end Reader

theorem orderly_of_apart (h : ¬[.minus, .openParen] <:+: ts) : Reader.Orderly .expression [] ts :=
  ⟨Reader.clear_of_notMem List.not_mem_nil .expression, h, fun _ _ => List.not_mem_nil⟩

theorem isViable_of_ended (h : ¬[.minus, .openParen] <:+: ts)
    (hended : read ts = (.error .ended, rest)) : IsViable ts := by
  obtain ⟨us, n, hread⟩ := (orderly_of_apart h).exists_completion hended
  obtain ⟨vs, heq, hn⟩ := read_eq_ok_iff.1 hread
  rw [List.append_nil] at heq
  exact ⟨us, n, heq ▸ hn⟩

theorem not_isViable_of_unexpected (h : (read ts).1 = .error (.unexpected t)) : ¬IsViable ts := by
  rintro ⟨us, n, hn⟩
  have hts : read ts = (.error (.unexpected t), (read ts).2) := Prod.ext h rfl
  have hread := read_append hts (by simp) us
  have hwhole := read_of_derives hn []
  rw [List.append_nil, hread] at hwhole
  simp at hwhole

theorem ended_of_isViable (h : IsViable ts) (hts : ¬IsExpression ts) :
    (read ts).1 = .error .ended := by
  obtain ⟨us, n, hn⟩ := h
  rcases hread : read ts with ⟨r, rest⟩
  match r with
  | .error .ended => rfl
  | .error (.unexpected t) =>
    have hblamed : (read ts).1 = .error (.unexpected t) := by rw [hread]
    exact absurd ⟨us, n, hn⟩ (not_isViable_of_unexpected hblamed)
  | .ok m =>
    -- the expression that is read is the whole one, so nothing stands behind it
    obtain ⟨vs, rfl, hm⟩ := read_eq_ok_iff.1 hread
    have hwhole : vs ++ (rest ++ us) = vs ++ rest ++ us ++ [] := by simp
    obtain ⟨heq, -⟩ := hm.unique hn hwhole
    obtain ⟨rfl, rfl⟩ : rest = [] ∧ us = [] := by simpa using heq
    exact absurd ⟨m, by simpa using hm⟩ hts

theorem exists_ok_iff : (∃ n, (read ts).1 = .ok n) ↔ ∃ us, us <+: ts ∧ IsExpression us := by
  constructor
  · rintro ⟨n, hread⟩
    obtain ⟨us, heq, hn⟩ := read_eq_ok_iff.1 (Prod.ext hread rfl : read ts = (.ok n, (read ts).2))
    exact ⟨us, ⟨(read ts).2, heq.symm⟩, n, hn⟩
  · rintro ⟨us, ⟨rest, rfl⟩, n, hn⟩
    exact ⟨n, by rw [read_of_derives hn rest]⟩

theorem ended_iff (h : ¬[.minus, .openParen] <:+: ts) :
    (read ts).1 = .error .ended ↔ IsViable ts ∧ ¬IsExpression ts := by
  constructor
  · intro hread
    refine ⟨isViable_of_ended h (Prod.ext hread rfl), ?_⟩
    intro hts
    obtain ⟨n, hok⟩ := exists_ok_iff.2 ⟨ts, List.prefix_rfl, hts⟩
    simp [hok] at hread
  · rintro ⟨hviable, hts⟩
    exact ended_of_isViable hviable hts

theorem exists_blamed (h : ¬[.minus, .openParen] <:+: ts)
    (hread : (read ts).1 = .error (.unexpected t)) :
    ∃ us vs, ts = us ++ t :: vs ∧ IsViable us ∧ ¬IsViable (us ++ [t]) := by
  obtain ⟨us, vs, rfl, hus, hut⟩ := (orderly_of_apart h).exists_blamed (Prod.ext hread rfl)
  have hapart : ¬[.minus, .openParen] <:+: us :=
    fun hus => h (hus.trans (List.infix_append [] us _))
  exact ⟨us, vs, rfl, isViable_of_ended hapart hus, not_isViable_of_unexpected hut⟩

theorem read_blames_first_unviable {ts : List Token} (h : ¬[.minus, .openParen] <:+: ts) :
    ((∃ n, (read ts).1 = .ok n) ↔ ∃ us, us <+: ts ∧ IsExpression us) ∧
      ((read ts).1 = .error .ended ↔ IsViable ts ∧ ¬IsExpression ts) ∧
      ((¬∃ us, us <+: ts ∧ IsExpression us) → ¬(IsViable ts ∧ ¬IsExpression ts) →
        ∃ i t, ts[i]? = some t ∧ (read ts).1 = .error (.unexpected t) ∧
          ¬IsViable (ts.take (i + 1)) ∧ ∀ j < i, IsViable (ts.take (j + 1))) := by
  refine ⟨exists_ok_iff, ended_iff h, ?_⟩
  intro hnone hviable
  match hread : (read ts).1 with
  | .ok n => exact absurd (exists_ok_iff.1 ⟨n, hread⟩) hnone
  | .error .ended => exact absurd ((ended_iff h).1 hread) hviable
  | .error (.unexpected t) =>
    obtain ⟨us, vs, rfl, hus, hut⟩ := exists_blamed h hread
    have htake : (us ++ t :: vs).take (us.length + 1) = us ++ [t] :=
      List.take_length_add_append 1
    refine ⟨us.length, t, by simp, rfl, htake ▸ hut, ?_⟩
    intro j hj
    rw [List.take_append_of_le_length hj]
    rw [← List.take_append_drop (j + 1) us] at hus
    exact hus.of_append

theorem read_blames_first_unviable_at_signs :
    let unfinished : List Token := [.openParen, .defnKeyword, .name "f", .openBracket, .name "p"]
    let misplaced : List Token := [.openParen, .ifKeyword, .minus, .minus, .name "x", .closeParen]
    ((¬[.minus, .openParen] <:+: unfinished) ∧ IsViable unfinished ∧ ¬IsExpression unfinished) ∧
      (¬[.minus, .openParen] <:+: misplaced) ∧
        (read misplaced).1 = .error (.unexpected (.name "x")) ∧
        ¬IsViable (misplaced.take 5) ∧ ∀ j < 4, IsViable (misplaced.take (j + 1)) := by
  -- the declaration lacks its end; in the other form a name stands behind two signs
  intro unfinished misplaced
  have hunfinished : ¬[.minus, .openParen] <:+: unfinished := by decide
  have hmisplaced : ¬[.minus, .openParen] <:+: misplaced := by decide
  have hread : (read misplaced).1 = .error (.unexpected (.name "x")) := rfl
  obtain ⟨hok, hended, hblamed⟩ := read_blames_first_unviable hmisplaced
  obtain ⟨i, t, hi, ht, hbad, hgood⟩ :=
    hblamed (mt hok.2 (by simp [hread])) (mt hended.2 (by simp [hread]))
  obtain rfl : .name "x" = t := by simpa [hread] using ht
  have hfour : ∀ i < 6, misplaced[i]? = some (.name "x") → i = 4 := by decide
  obtain rfl := hfour i (List.getElem?_eq_some_iff.1 hi).1 hi
  exact ⟨⟨hunfinished, (read_blames_first_unviable hunfinished).2.1.1 rfl⟩, hmisplaced, hread,
    hbad, hgood⟩

end Lisplet
