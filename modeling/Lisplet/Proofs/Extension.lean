import Lisplet.Proofs.Grammar

namespace Lisplet

namespace Reader

/-- The step does not report the end of the tokens, of which it knows nothing. -/
def Step.Blames : Step → Prop
  | .fail e => e ≠ .ended
  | .refuse e => e ≠ .ended
  | _ => True

theorem Step.blames_fail (t : Token) : (Step.fail (.unexpected t)).Blames := nofun

theorem Step.blames_refuse (t : Token) : (Step.refuse (.unexpected t)).Blames := nofun

theorem finish_blames (first : Token) (n : Node) (fs : List Frame) :
    (finish first n fs).Blames := by
  fun_induction finish first n fs with
  | case2 fs v ih => exact ih
  | case3 => exact Step.blames_fail first
  | _ => trivial

theorem start_blames (fs : List Frame) (t : Token) : (start fs t).Blames := by
  cases t with
  | number v => exact finish_blames _ _ fs
  | boolean b => exact finish_blames _ _ fs
  | text s => exact finish_blames _ _ fs
  | name x => exact finish_blames _ _ fs
  | minus | openParen => trivial
  | _ => exact Step.blames_fail _

theorem step_blames (w : Want) (fs : List Frame) (t : Token) : (step w fs t).Blames := by
  cases w with
  | expression => exact start_blames fs t
  | head =>
    cases t with
    | ifKeyword | defnKeyword | name f => trivial
    | _ => exact Step.blames_refuse _
  | item hd ns =>
    have hstart := start_blames (.item hd ns :: fs) t
    cases t with
    | closeParen => exact finish_blames _ _ fs
    | _ => exact hstart
  | close n =>
    cases t with
    | closeParen => exact finish_blames _ _ fs
    | _ => exact Step.blames_fail _
  | name =>
    cases t with
    | name f => trivial
    | _ => exact Step.blames_fail _
  | bracket f =>
    cases t with
    | openBracket => trivial
    | _ => exact Step.blames_fail _
  | parameter f ps =>
    cases t with
    | closeBracket | name p => trivial
    | _ => exact Step.blames_fail _

theorem resume_append (h : resume w fs ts = (r, rest)) (hr : r ≠ .error .ended)
    (us : List Token) : resume w fs (ts ++ us) = (r, rest ++ us) := by
  induction ts generalizing w fs with
  | nil =>
    obtain ⟨rfl, rfl⟩ : .error .ended = r ∧ [] = rest := by simpa [resume] using h
    exact absurd rfl hr
  | cons t ts ih =>
    rw [List.cons_append, resume]
    rw [resume] at h
    cases hs : step w fs t with
    | next w' fs' =>
      rw [hs] at h
      exact ih h
    | _ =>
      obtain ⟨rfl, rfl⟩ := by simpa [hs] using h
      rfl

theorem rest_eq_nil_of_ended (h : resume w fs ts = (.error .ended, rest)) : rest = [] := by
  induction ts generalizing w fs with
  | nil => simpa [resume] using h
  | cons t ts ih =>
    have hblames := step_blames w fs t
    rw [resume] at h
    cases hs : step w fs t with
    | next w' fs' =>
      rw [hs] at h
      exact ih h
    | _ => simp_all [Step.Blames]

end Reader

theorem read_append (h : read ts = (r, rest)) (hr : r ≠ .error .ended) (us : List Token) :
    read (ts ++ us) = (r, rest ++ us) :=
  Reader.resume_append h hr us

theorem readAll_append (h : readAll ts = .ok ns) (us : List Token) :
    readAll (ts ++ us) = (readAll us).map (ns ++ ·) := by
  fun_induction readAll ts generalizing ns with
  | case1 =>
    obtain rfl : [] = ns := by simpa using h
    rw [List.nil_append]
    cases readAll us <;> rfl
  | case2 t ts n rest hread ih =>
    rw [readAll_of_read_ok (read_append hread (by simp) us)]
    cases hrest : readAll rest with
    | error e => simp [hrest, Except.map] at h
    | ok ms =>
      obtain rfl : n :: ms = ns := by simpa [hrest, Except.map] using h
      rw [ih hrest]
      cases readAll us <;> rfl
  | case3 t ts e rest hread => simp at h

namespace Cursor

theorem read_append (h : (Cursor.mk ts p).read = (r, ⟨ts, q⟩)) (hr : r ≠ .error .ended)
    (us : List Token) : (Cursor.mk (ts ++ us) p).read = (r, ⟨ts ++ us, q⟩) := by
  rcases hread : Lisplet.read (ts.drop p) with ⟨r', unread⟩
  obtain ⟨rfl, rfl⟩ : r' = r ∧ ts.length - unread.length = q := by
    simpa [read, rest, hread] using h
  -- behind the last token there is nothing to read
  have hp : p ≤ ts.length := by
    apply Nat.le_of_not_lt
    intro hp
    rw [List.drop_eq_nil_of_le (Nat.le_of_lt hp)] at hread
    exact hr (congrArg Prod.fst hread).symm
  simp only [read, rest, List.drop_append_of_le_length hp, Lisplet.read_append hread hr us,
    List.length_append, Nat.add_sub_add_right]

theorem position_of_ended (h : (Cursor.mk ts p).read = (.error .ended, ⟨ts, q⟩)) :
    q = ts.length := by
  rcases hread : Lisplet.read (ts.drop p) with ⟨r, unread⟩
  obtain ⟨rfl, rfl⟩ : r = .error .ended ∧ ts.length - unread.length = q := by
    simpa [read, rest, hread] using h
  rw [Reader.rest_eq_nil_of_ended hread]
  rfl

theorem exists_position (ts : List Token) (p : Nat) :
    ∃ r q, (Cursor.mk ts p).read = (r, ⟨ts, q⟩) ∧ q ≤ ts.length :=
  ⟨_, _, rfl, Nat.sub_le _ _⟩

theorem read_take (h : (Cursor.mk ts p).read = (.ok n, ⟨ts, ts.length⟩)) (hk : k < ts.length) :
    (Cursor.mk (ts.take k) p).read = (.error .ended, ⟨ts.take k, k⟩) := by
  have hlength : (ts.take k).length = k := List.length_take_of_le (Nat.le_of_lt hk)
  obtain ⟨r, q, hread, hq⟩ := exists_position (ts.take k) p
  by_cases hr : r = .error .ended
  · subst hr
    rw [hread, position_of_ended hread, hlength]
  · -- otherwise the whole would be read no further than its beginning
    have hwhole := read_append hread hr (ts.drop k)
    rw [List.take_append_drop, h] at hwhole
    obtain ⟨-, rfl⟩ : .ok n = r ∧ ts.length = q := by simpa using hwhole
    omega

end Cursor

/-- A tree that is read, or a token that is not expected, stays the same when more tokens follow.
Only a reader that has come to the last token without an end can still end in another way. -/
theorem read_append_stable (ts us : List Token) :
    (∀ p n q, (Cursor.mk ts p).read = (.ok n, ⟨ts, q⟩) →
      (Cursor.mk (ts ++ us) p).read = (.ok n, ⟨ts ++ us, q⟩)) ∧
    (∀ p t q, (Cursor.mk ts p).read = (.error (.unexpected t), ⟨ts, q⟩) →
      (Cursor.mk (ts ++ us) p).read = (.error (.unexpected t), ⟨ts ++ us, q⟩)) ∧
    (∀ p q, (Cursor.mk ts p).read = (.error .ended, ⟨ts, q⟩) → q = ts.length) ∧
    (∀ n, (Cursor.ofTokens ts).read = (.ok n, ⟨ts, ts.length⟩) → ∀ k < ts.length,
      (Cursor.ofTokens (ts.take k)).read = (.error .ended, ⟨ts.take k, k⟩)) ∧
    ∀ ns, readAll ts = .ok ns → readAll (ts ++ us) = (readAll us).map (ns ++ ·) := by
  refine ⟨?_, ?_, ?_, ?_, ?_⟩
  · intro p n q h
    exact Cursor.read_append h (by simp) us
  · intro p t q h
    exact Cursor.read_append h (by simp) us
  · intro p q h
    exact Cursor.position_of_ended h
  · intro n h k hk
    exact Cursor.read_take h hk
  · intro ns h
    exact readAll_append h us

theorem read_append_stable_at_sign :
    let ts : List Token := [.openParen, .name "f", .minus, .number 1, .closeParen]
    let signed : List Token := .minus :: ts
    ((Cursor.ofTokens ts).read = (.ok (.call "f" [.number (-1)]), ⟨ts, 5⟩) ∧
      (Cursor.ofTokens signed).read = (.error (.unexpected .openParen), ⟨signed, 6⟩) ∧
      (Cursor.ofTokens (signed.take 5)).read = (.error .ended, ⟨signed.take 5, 5⟩)) ∧
    (∀ us, (Cursor.ofTokens (ts ++ us)).read =
      (.ok (.call "f" [.number (-1)]), ⟨ts ++ us, 5⟩)) ∧
    (∀ us, (Cursor.ofTokens (signed ++ us)).read =
      (.error (.unexpected .openParen), ⟨signed ++ us, 6⟩)) ∧
    (∀ us, readAll (ts ++ us) = (readAll us).map ([.call "f" [.number (-1)]] ++ ·)) ∧
    ∀ k < 5, (Cursor.ofTokens (ts.take k)).read = (.error .ended, ⟨ts.take k, k⟩) := by
  -- the call behind the sign is read to its end before its first token is blamed
  intro ts signed
  have hread : (Cursor.ofTokens ts).read = (.ok (.call "f" [.number (-1)]), ⟨ts, 5⟩) := rfl
  have hblamed : (Cursor.ofTokens signed).read =
    (.error (.unexpected .openParen), ⟨signed, 6⟩) := rfl
  have hall : readAll ts = .ok [.call "f" [.number (-1)]] := by cbv
  refine ⟨⟨hread, hblamed, rfl⟩, ?_, ?_, ?_, ?_⟩
  · intro us
    exact (read_append_stable ts us).1 0 _ 5 hread
  · intro us
    exact (read_append_stable signed us).2.1 0 _ 6 hblamed
  · intro us
    exact (read_append_stable ts us).2.2.2.2 _ hall
  · exact (read_append_stable ts []).2.2.2.1 _ hread

end Lisplet
