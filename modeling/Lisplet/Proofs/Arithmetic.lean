import Lisplet.Proofs.EvalLaws
import Mathlib.Algebra.BigOperators.Group.List.Basic
import Mathlib.Data.Int.ModEq

namespace Lisplet

theorem eq_ofInt_iff_modEq {r : Int64} {x : Int} :
    r = Int64.ofInt x ↔ r.toInt ≡ x [ZMOD 2 ^ 64] := by
  rw [eq_comm, Int64.ofInt_eq_iff_bmod_eq_toInt, Int.ModEq]
  constructor
  · intro h
    rw [← h]
    exact Int.bmod_emod
  · intro h
    have hbmod : (x % (2 ^ 64 : Nat)).bmod (2 ^ 64) = (r.toInt % (2 ^ 64 : Nat)).bmod (2 ^ 64) :=
      congrArg (Int.bmod · (2 ^ 64)) h.symm
    rw [Int.emod_bmod, Int.emod_bmod] at hbmod
    exact hbmod.trans r.toInt_bmod

namespace Arithmetic

/-- The value in integers that have no bound. -/
def exact : Arithmetic → Int → List Int → Int
  | .add, x, xs => x + xs.sum
  | .subtract, x, xs => x - xs.sum

theorem apply_eq_ofInt (op : Arithmetic) (n : Int64) (ns : List Int64) :
    op.apply n ns = Int64.ofInt (op.exact n.toInt (ns.map Int64.toInt)) := by
  cases op with
  | add =>
    rw [exact, Int64.ofInt_add, Int64.ofInt_toInt]
    induction ns generalizing n with
    | nil => simp [apply]
    | cons m ns ih =>
      change apply .add (n + m) ns = _
      rw [ih, List.map_cons, List.sum_cons, Int64.ofInt_add, Int64.ofInt_toInt, Int64.add_assoc]
  | subtract =>
    rw [exact, Int64.ofInt_sub, Int64.ofInt_toInt]
    induction ns generalizing n with
    | nil => simp [apply]
    | cons m ns ih =>
      change apply .subtract (n - m) ns = _
      rw [ih, List.map_cons, List.sum_cons, Int64.ofInt_add, Int64.ofInt_toInt, Int64.sub_sub]

theorem apply_add_perm {ms ns : List Int64} (h : (m :: ms).Perm (n :: ns)) :
    apply .add m ms = apply .add n ns := by
  have hsum := (h.map Int64.toInt).sum_eq
  simp only [List.map_cons, List.sum_cons] at hsum
  rw [apply_eq_ofInt, apply_eq_ofInt, exact, exact, hsum]

theorem apply_subtract_cons (n m : Int64) (ms : List Int64) :
    apply .subtract n (m :: ms) = apply .subtract n [apply .add m ms] := by
  change _ = n - apply .add m ms
  rw [apply_eq_ofInt, apply_eq_ofInt, exact, exact, Int64.ofInt_sub, Int64.ofInt_toInt,
    List.map_cons, List.sum_cons]

theorem ofName?_name (op : Arithmetic) : Builtin.ofName? op.name = some (.arithmetic op) := by
  cases op <;> rfl

def refusal (op : Arithmetic) : Except Failure Value → Failure
  | .error f => f
  | .ok v =>
    .error (.typeMismatch .number v.kind (op.name ++ " requires all arguments to be Numbers"))

theorem ofExcept_number (op : Arithmetic) {v : Value} (h : ∀ n, v ≠ .number n) :
    Action.ofExcept (op.number v) = Action.fail (op.refusal (.ok v)) := by
  cases v with
  | number n => exact absurd rfl (h n)
  | _ => rfl

end Arithmetic

namespace Eval

variable {call : Procedure → List Value → Action Value} {op : Arithmetic} {ns : List Int64}

theorem evalNumbers_cons (call : Procedure → List Value → Action Value) (op : Arithmetic)
    (a : Node) (as : List Node) :
    evalNumbers call op (a :: as) = evalWith call a >>= fun v => Action.ofExcept (op.number v) >>=
      fun n => evalNumbers call op as >>= fun ns => pure (n :: ns) := rfl

theorem evalNumbers_cons_number (h : (evalWith call a outlet s).result = .ok (.number n))
    (as : List Node) :
    evalNumbers call op (a :: as) outlet s =
      ((evalNumbers call op as outlet (evalWith call a outlet s).scopes).map (n :: ·)).behind
        (evalWith call a outlet s).trace := by
  rw [evalNumbers_cons, Action.bind_ok h, Action.bind_ok (a := n) rfl, Action.bind_pure]
  rfl

theorem evalNumbers_cons_refused (h : ∀ n, (evalWith call a outlet s).result ≠ .ok (.number n))
    (as : List Node) :
    evalNumbers call op (a :: as) outlet s =
      ⟨.error (op.refusal (evalWith call a outlet s).result), (evalWith call a outlet s).scopes,
        (evalWith call a outlet s).trace⟩ := by
  rw [evalNumbers_cons]
  cases hr : (evalWith call a outlet s).result with
  | error f => rw [Action.bind_error hr, Arithmetic.refusal]
  | ok v =>
    have hv : ∀ n, v ≠ .number n := by
      rintro n rfl
      exact h n hr
    rw [Action.bind_ok hr, op.ofExcept_number hv, Action.bind_error rfl]
    simp [Action.fail]

theorem evalNumbers_append (op : Arithmetic)
    (h : (evalAll call as outlet s).result = .ok (ns.map .number)) (bs : List Node) :
    evalNumbers call op (as ++ bs) outlet s =
      ((evalNumbers call op bs outlet (evalAll call as outlet s).scopes).map (ns ++ ·)).behind
        (evalAll call as outlet s).trace := by
  induction as generalizing s ns with
  | nil =>
    obtain rfl : ns = [] := by
      have hnil : [] = ns.map Value.number := Except.ok.inj h
      simpa using hnil.symm
    exact (Effect.map_id _).symm
  | cons a as ih =>
    obtain ⟨v, vs, heq, hfirst, hothers⟩ := exists_of_evalAll_cons h
    obtain ⟨n, ms, rfl, rfl, rfl⟩ := List.map_eq_cons_iff.1 heq
    rw [List.cons_append, evalNumbers_cons_number hfirst, ih hothers, evalAll_cons_ok hfirst,
      Effect.map_behind, Effect.map_map, Effect.behind_behind]
    rfl

theorem evalWith_arithmetic_numbers
    (h : (evalAll call as outlet s).result = .ok ((n :: ns).map .number)) :
    evalWith call (.call op.name as) outlet s =
      ⟨.ok (.number (op.apply n ns)), (evalAll call as outlet s).scopes,
        (evalAll call as outlet s).trace⟩ := by
  have hall : evalNumbers call op as outlet s =
      ⟨.ok (n :: ns), (evalAll call as outlet s).scopes, (evalAll call as outlet s).trace⟩ := by
    have happend := evalNumbers_append op h []
    rw [List.append_nil] at happend
    rw [happend]
    simp [evalNumbers, Action.pure_def, Action.pure, Effect.map, Effect.behind, Except.map]
  rw [evalWith_arithmetic op.ofName?_name, Action.bind_ok (by rw [hall]), hall]
  simp [Action.pure_def, Action.pure]

/-- The first argument that fails or is not a number comes behind those given. -/
def Refused (call : Procedure → List Value → Action Value) (outlet : Outlet) (s : Scopes)
    (before : List Node) (a : Node) : Prop :=
  (∃ ns : List Int64, (evalAll call before outlet s).result = .ok (ns.map .number)) ∧
    ∀ n, (evalWith call a outlet (evalAll call before outlet s).scopes).result ≠ .ok (.number n)

theorem numbers_or_refused (call : Procedure → List Value → Action Value) (as : List Node)
    (outlet : Outlet) (s : Scopes) :
    (∃ ns : List Int64, (evalAll call as outlet s).result = .ok (ns.map .number)) ∨
      ∃ before a after, as = before ++ a :: after ∧ Refused call outlet s before a := by
  induction as generalizing s with
  | nil => exact .inl ⟨[], rfl⟩
  | cons a as ih =>
    by_cases hfirst : ∃ n, (evalWith call a outlet s).result = .ok (.number n)
    · obtain ⟨n, hn⟩ := hfirst
      have hcons : ∀ {bs} {ns : List Int64},
          (evalAll call bs outlet (evalWith call a outlet s).scopes).result = .ok (ns.map .number) →
          (evalAll call (a :: bs) outlet s).result = .ok ((n :: ns).map .number) := by
        intro bs ns hns
        rw [evalAll_cons_ok hn]
        simp [Effect.behind, Effect.map, hns, Except.map]
      obtain ⟨ns, hns⟩ | ⟨before, b, after, rfl, ⟨ns, hns⟩, hb⟩ :=
        ih (evalWith call a outlet s).scopes
      · exact .inl ⟨n :: ns, hcons hns⟩
      · refine .inr ⟨a :: before, b, after, rfl, ⟨n :: ns, hcons hns⟩, ?_⟩
        rw [evalAll_cons_ok hn]
        exact hb
    · exact .inr ⟨[], a, as, rfl, ⟨[], rfl⟩, not_exists.1 hfirst⟩

theorem evalWith_arithmetic_refused (h : Refused call outlet s before a) (after : List Node) :
    evalWith call (.call op.name (before ++ a :: after)) outlet s =
      let passed := evalAll call before outlet s
      let last := evalWith call a outlet passed.scopes
      ⟨.error (op.refusal last.result), last.scopes, passed.trace ++ last.trace⟩ := by
  obtain ⟨⟨ns, hns⟩, hlast⟩ := h
  have hall := evalNumbers_append op hns (a :: after)
  rw [evalNumbers_cons_refused hlast] at hall
  rw [evalWith_arithmetic op.ofName?_name, Action.bind_error (by rw [hall]; rfl), hall]
  rfl

end Eval

section

variable {limit : Nat} {outlet : Outlet} {s : Scopes} {ns : List Int64}

theorem eval_arithmetic (op : Arithmetic)
    (h : (Eval.evalAll (Eval.apply limit) as outlet s).result = .ok ((n :: ns).map .number)) :
    eval limit (.call op.name as) outlet s =
      ⟨.ok (.number (op.apply n ns)), (Eval.evalAll (Eval.apply limit) as outlet s).scopes,
        (Eval.evalAll (Eval.apply limit) as outlet s).trace⟩ :=
  Eval.evalWith_arithmetic_numbers h

theorem result_add_perm {ms : List Int64}
    (h : (Eval.evalAll (Eval.apply limit) as outlet s).result = .ok ((n :: ns).map .number))
    (h' : (Eval.evalAll (Eval.apply limit') as' outlet' s').result = .ok (ms.map .number))
    (hperm : ms.Perm (n :: ns)) :
    (eval limit' (.call "add" as') outlet' s').result =
      (eval limit (.call "add" as) outlet s).result := by
  cases ms with
  | nil => exact absurd hperm.symm.eq_nil (List.cons_ne_nil n ns)
  | cons m ms =>
    have hadd := eval_arithmetic .add h
    have hadd' := eval_arithmetic .add h'
    rw [Arithmetic.apply_add_perm hperm] at hadd'
    exact (congrArg Effect.result hadd').trans (congrArg Effect.result hadd).symm

theorem eval_subtract_add {m : Int64}
    (h : (Eval.evalAll (Eval.apply limit) (a :: as) outlet s).result =
      .ok ((n :: m :: ns).map .number)) :
    eval limit (.call "subtract" (a :: as)) outlet s =
      eval limit (.call "subtract" [a, .call "add" as]) outlet s := by
  obtain ⟨v, vs, heq, hfirst, hothers⟩ := Eval.exists_of_evalAll_cons h
  obtain ⟨rfl, rfl⟩ := List.cons.inj heq
  have hadd : Eval.evalWith (Eval.apply limit) (.call "add" as) outlet
      (Eval.evalWith (Eval.apply limit) a outlet s).scopes = _ := eval_arithmetic .add hothers
  have hpair : Eval.evalAll (Eval.apply limit) [a, .call "add" as] outlet s =
      ⟨.ok ([n, Arithmetic.apply .add m ns].map .number),
        (Eval.evalAll (Eval.apply limit) (a :: as) outlet s).scopes,
        (Eval.evalAll (Eval.apply limit) (a :: as) outlet s).trace⟩ := by
    rw [Eval.evalAll_cons_ok hfirst, Eval.evalAll_cons_ok hfirst,
      Eval.evalAll_cons_ok (congrArg Effect.result hadd), hadd]
    simp [Eval.evalAll, Action.pure_def, Action.pure, Effect.behind, Effect.map, Except.map]
  have hwhole := eval_arithmetic .subtract h
  have hsplit := eval_arithmetic .subtract (congrArg Effect.result hpair)
  rw [← Arithmetic.apply_subtract_cons, hpair] at hsplit
  exact hwhole.trans hsplit.symm

end

/-- A call whose arguments are all numbers comes to the exact sum or difference, wrapped around once
at the end. The first argument that fails or is not a number fails the call, and none behind it is
evaluated. -/
theorem arithmetic_call_wraps (limit : Nat) (as : List Node) (outlet : Outlet) (s : Scopes) :
    let arguments := Eval.evalAll (Eval.apply limit) as outlet s
    (∀ n, ∀ ns : List Int64, arguments.result = .ok ((n :: ns).map .number) →
      (∀ op : Arithmetic, ∃ r : Int64,
        let x := op.exact n.toInt (ns.map Int64.toInt)
        eval limit (.call op.name as) outlet s =
            ⟨.ok (.number r), arguments.scopes, arguments.trace⟩ ∧
          (∀ m : Int64, m = r ↔ m.toInt ≡ x [ZMOD 2 ^ 64]) ∧
          (-2 ^ 63 ≤ x → x < 2 ^ 63 → r.toInt = x)) ∧
      (∀ limit' as' outlet' s', ∀ ms : List Int64,
        (Eval.evalAll (Eval.apply limit') as' outlet' s').result = .ok (ms.map .number) →
        ms.Perm (n :: ns) →
        (eval limit' (.call "add" as') outlet' s').result =
          (eval limit (.call "add" as) outlet s).result) ∧
      ∀ b bs, as = b :: bs → bs ≠ [] →
        eval limit (.call "subtract" (b :: bs)) outlet s =
          eval limit (.call "subtract" [b, .call "add" bs]) outlet s) ∧
    (∀ before a after, as = before ++ a :: after →
      Eval.Refused (Eval.apply limit) outlet s before a →
      let passed := Eval.evalAll (Eval.apply limit) before outlet s
      let last := eval limit a outlet passed.scopes
      ∀ op : Arithmetic, eval limit (.call op.name as) outlet s =
        ⟨.error (op.refusal last.result), last.scopes, passed.trace ++ last.trace⟩) ∧
    ((∃ ns : List Int64, arguments.result = .ok (ns.map .number)) ∨
      ∃ before a after, as = before ++ a :: after ∧
        Eval.Refused (Eval.apply limit) outlet s before a) := by
  intro arguments
  refine ⟨?_, ?_, Eval.numbers_or_refused (Eval.apply limit) as outlet s⟩
  · intro n ns h
    refine ⟨?_, ?_, ?_⟩
    · intro op
      have happly := op.apply_eq_ofInt n ns
      refine ⟨op.apply n ns, eval_arithmetic op h, ?_, ?_⟩
      · intro m
        rw [happly, eq_ofInt_iff_modEq]
      · intro hlo hhi
        rw [happly, Int64.toInt_ofInt_of_le hlo hhi]
    · intro limit' as' outlet' s' ms h' hperm
      exact result_add_perm h h' hperm
    · rintro b bs rfl hbs
      obtain ⟨c, cs, rfl⟩ := List.exists_cons_of_ne_nil hbs
      obtain ⟨_, ws, heq, -, hothers⟩ := Eval.exists_of_evalAll_cons h
      obtain ⟨_, _, rfl, -, -⟩ := Eval.exists_of_evalAll_cons hothers
      obtain ⟨m, ms, rfl, -, -⟩ := List.map_eq_cons_iff.1 (List.cons.inj heq).2
      exact eval_subtract_add h
  · rintro before a after rfl hrefused passed last op
    exact Eval.evalWith_arithmetic_refused hrefused after

theorem arithmetic_call_wraps_overflowing :
    let define (x : String) (n : Int64) : Node := .call "define" [.identifier x, .number n]
    let as : List Node := [.number Int64.maxValue, define "x" 1, .number (-5)]
    let arguments := Eval.evalAll (Eval.apply 0) as .working .fresh
    let before : List Node := [.number 1, define "x" 2]
    let a : Node := .call "println" [.number 3]
    (arguments.result = .ok ([Int64.maxValue, 1, -5].map .number) ∧
      ∃ r : Int64, eval 0 (.call "add" as) .working .fresh =
        ⟨.ok (.number r), arguments.scopes, arguments.trace⟩ ∧ r.toInt = 9223372036854775803) ∧
      eval 0 (.call "subtract" as) .working .fresh =
        eval 0 (.call "subtract" [.number Int64.maxValue, .call "add" [define "x" 1, .number (-5)]])
          .working .fresh ∧
      Eval.Refused (Eval.apply 0) .working .fresh before a ∧
      eval 0 (.call "add" (before ++ a :: [define "y" 4])) .working .fresh =
        ⟨.error (.error (.typeMismatch .number .list "add requires all arguments to be Numbers")),
          Scopes.fresh.set "x" (.number 2), [.defined "x" (.number 2) 0, .printed "3"]⟩ := by
  -- the sum leaves the range and comes back; the refused argument prints before it is refused
  intro define as arguments before a
  have h : arguments.result = .ok ([Int64.maxValue, 1, -5].map .number) := rfl
  have hrefused : Eval.Refused (Eval.apply 0) .working .fresh before a := ⟨⟨[1, 2], rfl⟩, nofun⟩
  obtain ⟨hnumbers, -, -⟩ := arithmetic_call_wraps 0 as .working .fresh
  obtain ⟨-, hrefusal, -⟩ := arithmetic_call_wraps 0 (before ++ a :: [define "y" 4]) .working .fresh
  obtain ⟨hvalue, -, hsubtract⟩ := hnumbers _ _ h
  obtain ⟨r, hr, -, hexact⟩ := hvalue .add
  refine ⟨⟨h, r, hr, ?_⟩, hsubtract _ _ rfl (by simp), hrefused, ?_⟩
  · exact hexact (by decide) (by decide)
  · exact hrefusal before a _ rfl hrefused .add

end Lisplet
