import Lisplet.Eval

namespace Lisplet

namespace Builtin

theorem ofName?_eq_define {f : String} (h : ofName? f = some .define) : f = "define" := by
  unfold ofName? at h
  split at h <;> simp_all

theorem ofName?_eq_println {f : String} (h : ofName? f = some .println) : f = "println" := by
  unfold ofName? at h
  split at h <;> simp_all

end Builtin

namespace Effect

def map (g : α → β) (e : Effect α) : Effect β := ⟨e.result.map g, e.scopes, e.trace⟩

def behind (trace : List Event) (e : Effect α) : Effect α := { e with trace := trace ++ e.trace }

theorem map_id (e : Effect α) : e.map id = e := by
  rw [map, Except.map_id]
  rfl

theorem map_map (g : α → β) (h : β → γ) (e : Effect α) : (e.map g).map h = e.map (h ∘ g) := by
  cases e with
  | mk result scopes trace => cases result <;> rfl

theorem map_behind (g : α → β) (t : List Event) (e : Effect α) :
    (e.behind t).map g = (e.map g).behind t := rfl

theorem behind_behind (t t' : List Event) (e : Effect α) :
    (e.behind t).behind t' = e.behind (t' ++ t) := by
  simp [behind]

end Effect

namespace Action

theorem bind_ok {x : Action α} {f : α → Action β} (h : (x outlet s).result = .ok a) :
    (x >>= f) outlet s =
      { f a outlet (x outlet s).scopes with
        trace := (x outlet s).trace ++ (f a outlet (x outlet s).scopes).trace } := by
  rw [bind_def, bind]
  simp only [h]

theorem bind_error {x : Action α} {f : α → Action β} (h : (x outlet s).result = .error e) :
    (x >>= f) outlet s = ⟨.error e, (x outlet s).scopes, (x outlet s).trace⟩ := by
  rw [bind_def, bind]
  simp only [h]

theorem bind_pure (x : Action α) (g : α → β) :
    (x >>= fun a => Pure.pure (g a)) outlet s = (x outlet s).map g := by
  rw [Effect.map]
  cases h : (x outlet s).result with
  | ok a =>
    rw [bind_ok h]
    simp [pure_def, pure, Except.map]
  | error e => rw [bind_error h, Except.map]

/-- A relation between actions that every basic action has to itself and that sequences keep. -/
structure Congruence (R : ∀ {α : Type}, Action α → Action α → Prop) : Prop where
  pure : ∀ {α} (a : α), R (Pure.pure a) (Pure.pure a)
  fail : ∀ {α} (f : Failure), R (fail f : Action α) (fail f)
  lookup : ∀ x, R (lookup x) (lookup x)
  define : ∀ x v, R (define x v) (define x v)
  declare : ∀ f, R (declare f) (declare f)
  print : ∀ line, R (print line) (print line)
  bind : ∀ {α β} {x y : Action α} {f g : α → Action β}, R x y → (∀ a, R (f a) (g a)) →
    R (x >>= f) (y >>= g)

theorem Congruence.ofExcept {R : ∀ {α : Type}, Action α → Action α → Prop} (hR : Congruence R)
    (r : Except Error α) : R (ofExcept r) (ofExcept r) := by
  cases r with
  | ok a => exact hR.pure a
  | error e => exact hR.fail (.error e)

end Action

namespace Eval

theorem badTarget_ne_tooDeep (target : Node) : badTarget target ≠ .tooDeep := by
  unfold badTarget
  split <;> simp

section

variable {call : Procedure → List Value → Action Value} {f : String} {as : List Node}

theorem evalWith_arithmetic (h : Builtin.ofName? f = some (.arithmetic op)) :
    evalWith call (.call f as) = evalNumbers call op as >>= fun
      | [] => Action.raise op.noArguments
      | n :: ns => pure (.number (op.apply n ns)) := by
  have heq := evalWith.eq_def call (.call f as)
  simp only [h] at heq
  exact heq

theorem evalWith_primitive (h : Builtin.ofName? f = some (.primitive op)) :
    evalWith call (.call f as) =
      if as.length = op.arity then evalAll call as >>= fun vs => Action.ofExcept (op.apply vs)
      else Action.raise (op.wrongCount as.length) := by
  rw [evalWith.eq_def]
  simp only [h]

theorem evalWith_define (h : Builtin.ofName? f = some .define) :
    evalWith call (.call f as) = match as with
      | [.identifier x, a] => evalWith call a >>= fun v => Action.define x v
      | [target, _] => Action.fail (badTarget target)
      | _ => Action.raise (defineCount as.length) := by
  have heq := evalWith.eq_def call (.call f as)
  simp only [h] at heq
  exact heq

theorem evalWith_define_identifier (x : String) (a : Node) :
    evalWith call (.call "define" [.identifier x, a]) =
      evalWith call a >>= fun v => Action.define x v :=
  evalWith_define rfl

theorem evalWith_define_target (h : ∀ x, a ≠ .identifier x) (b : Node) :
    evalWith call (.call "define" [a, b]) = Action.fail (badTarget a) := by
  rw [evalWith_define rfl]
  cases a with
  | identifier x => exact absurd rfl (h x)
  | _ => rfl

theorem evalWith_define_count (h : as.length ≠ 2) :
    evalWith call (.call "define" as) = Action.raise (defineCount as.length) := by
  rw [evalWith_define rfl]
  split
  · simp at h
  · simp at h
  · rfl

theorem evalWith_println (h : Builtin.ofName? f = some .println) :
    evalWith call (.call f as) = evalAll call as >>= printLine := by
  rw [evalWith.eq_def]
  simp only [h]

theorem evalWith_user (h : Builtin.ofName? f = none) :
    evalWith call (.call f as) =
      resolve f as.length >>= fun g => evalAll call as >>= fun vs => call g vs := by
  rw [evalWith.eq_def]
  simp only [h]

end

section

variable {call : Procedure → List Value → Action Value}

theorem evalAll_cons (call : Procedure → List Value → Action Value) (a : Node) (as : List Node) :
    evalAll call (a :: as) =
      evalWith call a >>= fun v => evalAll call as >>= fun vs => pure (v :: vs) := rfl

theorem evalAll_cons_ok (h : (evalWith call a outlet s).result = .ok v) (as : List Node) :
    evalAll call (a :: as) outlet s =
      ((evalAll call as outlet (evalWith call a outlet s).scopes).map (v :: ·)).behind
        (evalWith call a outlet s).trace := by
  rw [evalAll_cons, Action.bind_ok h, Action.bind_pure]
  rfl

theorem evalAll_cons_error (h : (evalWith call a outlet s).result = .error e) (as : List Node) :
    evalAll call (a :: as) outlet s =
      ⟨.error e, (evalWith call a outlet s).scopes, (evalWith call a outlet s).trace⟩ := by
  rw [evalAll_cons, Action.bind_error h]

theorem exists_of_evalAll_cons (h : (evalAll call (a :: as) outlet s).result = .ok ws) :
    ∃ v vs, ws = v :: vs ∧ (evalWith call a outlet s).result = .ok v ∧
      (evalAll call as outlet (evalWith call a outlet s).scopes).result = .ok vs := by
  cases hfirst : (evalWith call a outlet s).result with
  | error e => simp [evalAll_cons_error hfirst] at h
  | ok v =>
    rw [evalAll_cons_ok hfirst] at h
    cases hothers : (evalAll call as outlet (evalWith call a outlet s).scopes).result with
    | error e => simp [hothers, Effect.behind, Effect.map, Except.map] at h
    | ok vs =>
      simp only [hothers, Effect.behind, Effect.map, Except.map, Except.ok.injEq] at h
      exact ⟨v, vs, h.symm, rfl, rfl⟩

end

section

variable {R : ∀ {α : Type}, Action α → Action α → Prop} (hR : Action.Congruence R)
include hR

theorem resolve_congr (f : String) (count : Nat) : R (resolve f count) (resolve f count) := by
  apply hR.bind (hR.lookup f)
  intro found
  split
  · exact hR.fail _
  · split
    · exact hR.pure _
    · exact hR.fail _
  · exact hR.fail _

theorem printLine_congr (vs : List Value) : R (printLine vs) (printLine vs) :=
  hR.bind (hR.print _) fun _ => hR.pure _

variable {call call' : Procedure → List Value → Action Value}

mutual

theorem evalWith_congr (hcall : ∀ f vs, R (call f vs) (call' f vs)) :
    ∀ n : Node, R (evalWith call n) (evalWith call' n)
  | .missing => hR.fail _
  | .number _ => hR.pure _
  | .boolean _ => hR.pure _
  | .text _ => hR.pure _
  | .identifier x => hR.bind (hR.lookup x) fun _ => hR.pure _
  | .list as => hR.bind (evalAll_congr hcall as) fun _ => hR.pure _
  | .cond a b c => by
    rw [evalWith, evalWith]
    apply hR.bind (evalWith_congr hcall a)
    intro v
    split
    · exact evalWith_congr hcall b
    · exact evalWith_congr hcall c
  | .defn f ps a => hR.declare _
  | .call f as => by
    cases hf : Builtin.ofName? f with
    | none =>
      rw [evalWith_user hf, evalWith_user hf]
      apply hR.bind (resolve_congr hR f as.length)
      intro g
      exact hR.bind (evalAll_congr hcall as) (hcall g)
    | some b =>
      cases b with
      | arithmetic op =>
        rw [evalWith_arithmetic hf, evalWith_arithmetic hf]
        apply hR.bind (evalNumbers_congr hcall op as)
        intro ns
        cases ns with
        | nil => exact hR.fail _
        | cons n ns => exact hR.pure _
      | primitive op =>
        rw [evalWith_primitive hf, evalWith_primitive hf]
        split
        · exact hR.bind (evalAll_congr hcall as) fun vs => hR.ofExcept _
        · exact hR.fail _
      | define =>
        rw [evalWith_define hf, evalWith_define hf]
        split
        · rename_i x a
          exact hR.bind (evalWith_congr hcall a) (hR.define x)
        · exact hR.fail _
        · exact hR.fail _
      | println =>
        rw [evalWith_println hf, evalWith_println hf]
        exact hR.bind (evalAll_congr hcall as) (printLine_congr hR)

theorem evalAll_congr (hcall : ∀ f vs, R (call f vs) (call' f vs)) :
    ∀ as : List Node, R (evalAll call as) (evalAll call' as)
  | [] => hR.pure _
  | a :: as => by
    apply hR.bind (evalWith_congr hcall a)
    intro v
    exact hR.bind (evalAll_congr hcall as) fun vs => hR.pure _

theorem evalNumbers_congr (hcall : ∀ f vs, R (call f vs) (call' f vs)) (op : Arithmetic) :
    ∀ as : List Node, R (evalNumbers call op as) (evalNumbers call' op as)
  | [] => hR.pure _
  | a :: as => by
    apply hR.bind (evalWith_congr hcall a)
    intro v
    apply hR.bind (hR.ofExcept _)
    intro n
    exact hR.bind (evalNumbers_congr hcall op as) fun ns => hR.pure _

end

end

end Eval

end Lisplet
