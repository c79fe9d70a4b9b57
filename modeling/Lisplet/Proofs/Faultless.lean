import Lisplet.Proofs.Checked
import Lisplet.Proofs.Functions
import Lisplet.Proofs.Legible
import Mathlib.Data.List.Basic

/-!
Programs given as text have no fault. What is read from text is writable, so the declarations of
all functions are; and from scopes whose functions have writable declarations, a checked evaluation
of a writable tree is the evaluation itself, fails for a cause that evaluation has, and leaves such
scopes again. So it goes on from run to run.
-/

namespace Lisplet

def Cause.IsEvaluation : Cause → Prop
  | .undefinedFunction f | .notAFunction f => Builtin.ofName? f = none ∧ f ≠ "list"
  | .argument | .tooFewArguments => True
  | .typeMismatch x y => (x = .number ∨ x = .list) ∧ y ≠ x
  | _ => False

theorem Cause.isEvaluation_iff {c : Cause} :
    c.IsEvaluation ↔
      c.kind ∈ [.undefinedFunction, .notAFunction, .argument, .tooFewArguments, .typeMismatch] ∧
      (∀ x y, c = .typeMismatch x y → (x = .number ∨ x = .list) ∧ y ≠ x) ∧
      ∀ f, c = .undefinedFunction f ∨ c = .notAFunction f →
        Builtin.ofName? f = none ∧ f ≠ "list" := by
  cases c <;> simp [IsEvaluation, kind]

theorem Arithmetic.cause_of_number {op : Arithmetic} {v : Value} {e : Error}
    (h : op.number v = .error e) : e.cause.IsEvaluation := by
  cases v with
  | number n => cases h
  | _ =>
    obtain rfl := Except.error.inj h
    exact ⟨.inl rfl, nofun⟩

namespace Primitive

theorem cause_of_bind_items {op : Primitive} {v : Value} {f : List Value → Value} {e : Error}
    (h : (do return f (← op.items v)) = Except.error e) : e.cause.IsEvaluation := by
  cases v with
  | list vs => cases h
  | _ =>
    obtain rfl := Except.error.inj h
    exact ⟨.inr rfl, nofun⟩

theorem cause_of_apply {op : Primitive} {vs : List Value} {e : Error}
    (h : op.apply vs = .error e) : e.cause.IsEvaluation := by
  unfold apply at h
  split at h
  · exact cause_of_bind_items h
  · exact cause_of_bind_items h
  · exact cause_of_bind_items h
  · cases h
  · exact cause_of_bind_items h
  · exact cause_of_bind_items h
  · obtain rfl := Except.error.inj h
    exact trivial

end Primitive

def Procedure.IsWritable (f : Procedure) : Prop :=
  (Node.defn f.name f.parameters f.body).isWritable

theorem Procedure.IsWritable.body {f : Procedure} (h : f.IsWritable) : f.body.isWritable :=
  (Node.isWritable_defn.1 h).2.2

def Scopes.IsWritable (s : Scopes) : Prop := s.Carries Set.univ Procedure.IsWritable

/-- A program given as text can come to this result and these scopes. -/
structure Regular (Q : α → Prop) (r : Except Failure α) (s : Scopes) : Prop where
  value : ∀ a, r = .ok a → Q a
  cause : ∀ err, r = .error (.error err) → err.cause.IsEvaluation
  complete : r ≠ .error .missingNode
  scopes : s.IsWritable

namespace Regular

variable {Q : α → Prop} {s : Scopes}

theorem ok {a : α} (h : Q a) (hs : s.IsWritable) : Regular Q (.ok a) s :=
  ⟨fun _ hb => Except.ok.inj hb ▸ h, fun _ he => (nomatch he), nofun, hs⟩

theorem error {e : Error} (h : e.cause.IsEvaluation) (hs : s.IsWritable) :
    Regular Q (.error (.error e)) s :=
  ⟨nofun, fun _ he => Failure.error.inj (Except.error.inj he) ▸ h, nofun, hs⟩

theorem tooDeep (hs : s.IsWritable) : Regular Q (.error .tooDeep) s :=
  ⟨nofun, fun _ he => (nomatch he), nofun, hs⟩

theorem of_error {P : α → Prop} {f : Failure} (h : Regular P (.error f) s) (Q : β → Prop) :
    Regular Q (.error f) s :=
  ⟨nofun, fun err herr => h.cause err (Except.error.inj herr ▸ rfl),
    fun hf => h.complete (Except.error.inj hf ▸ rfl), h.scopes⟩

end Regular

namespace Checked

/-- With writable functions within reach, the checked action is the action itself and comes to a
regular end. -/
def Meets (y : Checked α) (x : Action α) (Q : α → Prop) : Prop :=
  ∀ outlet s, s.IsWritable →
    y outlet s = .ok (x outlet s) ∧ Regular Q (x outlet s).result (x outlet s).scopes

section

variable {P : α → Prop} {Q : β → Prop}

theorem meets_pure {a : α} (h : P a) : Meets (pure a) (pure a) P := by
  intro outlet s hs
  exact ⟨rfl, .ok h hs⟩

theorem meets_raise {e : Error} (h : e.cause.IsEvaluation) :
    Meets (raise e) (Action.raise e) P := by
  intro outlet s hs
  exact ⟨rfl, .error h hs⟩

theorem meets_ofExcept {r : Except Error α} (hok : ∀ a, r = .ok a → P a)
    (herror : ∀ e, r = .error e → e.cause.IsEvaluation) :
    Meets (of (Action.ofExcept r)) (Action.ofExcept r) P := by
  cases r with
  | ok a => exact meets_pure (hok a rfl)
  | error e => exact meets_raise (herror e rfl)

theorem Meets.bind {y : Checked α} {x : Action α} {g : α → Checked β} {f : α → Action β}
    (hx : Meets y x P) (hf : ∀ a, P a → Meets (g a) (f a) Q) : Meets (y >>= g) (x >>= f) Q := by
  intro outlet s hs
  obtain ⟨heq, hregular⟩ := hx outlet s hs
  cases hr : (x outlet s).result with
  | error e =>
    rw [bind_error heq hr, Action.bind_error hr]
    rw [hr] at hregular
    exact ⟨rfl, hregular.of_error Q⟩
  | ok a =>
    obtain ⟨heq', hregular'⟩ := hf a (hregular.value a hr) outlet _ hregular.scopes
    rw [bind_ok heq hr heq', Action.bind_ok hr]
    exact ⟨rfl, hregular'⟩

end

theorem meets_lookup (x : String) :
    Meets (of (Action.lookup x)) (Action.lookup x)
      fun found => ∀ v, found = some v → v.Carries Procedure.IsWritable := by
  intro outlet s hs
  exact ⟨rfl, .ok (hs x trivial) hs⟩

theorem meets_define (x : String) {v : Value} (h : v.Carries Procedure.IsWritable) :
    Meets (of (Action.define x v)) (Action.define x v) (Value.Carries Procedure.IsWritable) := by
  intro outlet s hs
  have hs' : (s.update [(x, v)]).IsWritable := hs.update (by simpa using h)
  exact ⟨rfl, .ok h hs'⟩

theorem meets_declare {f : Procedure} (h : f.IsWritable) :
    Meets (of (Action.declare f)) (Action.declare f) (Value.Carries Procedure.IsWritable) := by
  intro outlet s hs
  have hs' : (s.update [(f.name, .function f)]).IsWritable := hs.update (by simpa using h)
  exact ⟨rfl, .ok (Value.carries_function.2 h) hs'⟩

theorem meets_printLine {vs : List Value} (h : ∀ v ∈ vs, v.Carries Procedure.IsWritable) :
    Meets (of (Eval.printLine vs)) (Eval.printLine vs) (Value.Carries Procedure.IsWritable) := by
  intro outlet s hs
  cases outlet <;> exact ⟨rfl, .ok (Value.carries_list.2 h) hs⟩

theorem meets_resolve {f : String} (hf : Builtin.ofName? f = none) (hlist : f ≠ "list")
    (count : Nat) :
    Meets (resolve f count) (Eval.resolve f count) fun g => g.IsWritable ∧ g.arity = count := by
  apply (meets_lookup f).bind
  intro found hfound
  cases found with
  | none => exact meets_raise ⟨hf, hlist⟩
  | some v =>
    rw [if_neg (by simp), demand, pure_bind]
    cases v with
    | function g =>
      simp only
      split
      · rename_i hcount
        exact meets_pure ⟨Value.carries_function.1 (hfound _ rfl), hcount⟩
      · exact meets_raise trivial
    | _ => exact meets_raise ⟨hf, hlist⟩

theorem operate_eq {op : Primitive} {vs : List Value} (h : vs.length = op.arity) :
    operate op vs = of (Action.ofExcept (op.apply vs)) := by
  cases op with
  | car | cdr =>
    obtain ⟨v, rfl⟩ := List.length_eq_one_iff.1 h
    cases v with
    | list ws => cases ws <;> rfl
    | _ => rfl
  | isEmpty | isNil =>
    obtain ⟨v, rfl⟩ := List.length_eq_one_iff.1 h
    cases v <;> rfl
  | append | prepend =>
    obtain ⟨v, w, rfl⟩ := List.length_eq_two.1 h
    cases v <;> rfl

theorem meets_operate {op : Primitive} {vs : List Value} (h : vs.length = op.arity)
    (hvs : ∀ v ∈ vs, v.Carries Procedure.IsWritable) :
    Meets (operate op vs) (Action.ofExcept (op.apply vs)) (Value.Carries Procedure.IsWritable) := by
  rw [operate_eq h]
  exact meets_ofExcept (fun _ hv => Primitive.carries_apply hvs hv)
    fun _ he => Primitive.cause_of_apply he

theorem meets_refuseTarget {target : Node} {P : Value → Prop} (h : target.isWritable) :
    Meets (refuseTarget target) (Action.fail (Eval.badTarget target)) P := by
  rw [refuseTarget, Eval.badTarget, Node.print?_of_isWritable h]
  exact meets_raise trivial

section

variable {call : Procedure → List Value → Checked Value} {f : String} {as : List Node}

theorem evalWith_arithmetic (h : Builtin.ofName? f = some (.arithmetic op)) :
    evalWith call (.call f as) = evalNumbers call op as >>= total op := by
  rw [evalWith.eq_def]
  simp only [h]

theorem evalWith_primitive (h : Builtin.ofName? f = some (.primitive op)) :
    evalWith call (.call f as) =
      if as.length = op.arity then evalAll call as >>= operate op
      else raise (op.wrongCount as.length) := by
  rw [evalWith.eq_def]
  simp only [h]

theorem evalWith_define (h : Builtin.ofName? f = some .define) :
    evalWith call (.call f as) = match as with
      | [.identifier x, a] => evalWith call a >>= fun v => of (Action.define x v)
      | [target, _] => refuseTarget target
      | _ => raise (Eval.defineCount as.length) := by
  have heq := evalWith.eq_def call (.call f as)
  simp only [h] at heq
  exact heq

theorem evalWith_define_count (h : as.length ≠ 2) :
    evalWith call (.call "define" as) = raise (Eval.defineCount as.length) := by
  rw [evalWith_define rfl]
  split
  · simp at h
  · simp at h
  · rfl

theorem evalWith_println (h : Builtin.ofName? f = some .println) :
    evalWith call (.call f as) = evalAll call as >>= fun vs => of (Eval.printLine vs) := by
  rw [evalWith.eq_def]
  simp only [h]

theorem evalWith_user (h : Builtin.ofName? f = none) :
    evalWith call (.call f as) =
      resolve f as.length >>= fun g => evalArguments call g.parameters as >>= call g := by
  rw [evalWith.eq_def]
  simp only [h]

end

def CallMeets (call : Procedure → List Value → Checked Value)
    (call' : Procedure → List Value → Action Value) : Prop :=
  ∀ f vs, f.IsWritable → (∀ v ∈ vs, v.Carries Procedure.IsWritable) →
    Meets (call f vs) (call' f vs) (Value.Carries Procedure.IsWritable)

variable {call : Procedure → List Value → Checked Value}
  {call' : Procedure → List Value → Action Value}

mutual

theorem evalWith_meets (hcall : CallMeets call call') : ∀ n : Node, n.isWritable →
    Meets (evalWith call n) (Eval.evalWith call' n) (Value.Carries Procedure.IsWritable)
  | .missing, h => absurd h (by simp [Node.isWritable])
  | .number _, _ => meets_pure (Value.carries_number _)
  | .boolean _, _ => meets_pure (Value.carries_boolean _)
  | .text _, _ => meets_pure (Value.carries_text _)
  | .identifier x, _ => by
    apply (meets_lookup x).bind
    intro found hfound
    apply meets_pure
    cases found with
    | none => exact Value.carries_nil
    | some v => exact hfound v rfl
  | .list as, h => by
    apply (evalAll_meets hcall as h).bind
    intro vs hvs
    exact meets_pure (Value.carries_list.2 hvs.1)
  | .cond a b c, h => by
    obtain ⟨ha, hb, hc⟩ := Node.isWritable_cond.1 h
    rw [evalWith, Eval.evalWith]
    apply (evalWith_meets hcall a ha).bind
    intro v _
    split
    · exact evalWith_meets hcall b hb
    · exact evalWith_meets hcall c hc
  | .defn f ps a, h => meets_declare h
  | .call f as, h => by
    obtain ⟨-, hlist, has⟩ := Node.isWritable_call.1 h
    cases hf : Builtin.ofName? f with
    | none =>
      rw [evalWith_user hf, Eval.evalWith_user hf]
      apply (meets_resolve hf hlist as.length).bind
      intro g ⟨hg, hcount⟩
      -- a function that is resolved has as many parameters as there are arguments
      apply (evalArguments_meets hcall as g.parameters has hcount).bind
      intro vs hvs
      exact hcall g vs hg hvs
    | some b =>
      cases b with
      | arithmetic op =>
        rw [evalWith_arithmetic hf, Eval.evalWith_arithmetic hf]
        apply (evalNumbers_meets hcall op as has).bind
        intro ns _
        cases ns with
        | nil => exact meets_raise trivial
        | cons n ns => exact meets_pure (Value.carries_number _)
      | primitive op =>
        rw [evalWith_primitive hf, Eval.evalWith_primitive hf]
        split
        · rename_i hcount
          apply (evalAll_meets hcall as has).bind
          intro vs ⟨hvs, hlength⟩
          exact meets_operate (hlength.trans hcount) hvs
        · exact meets_raise trivial
      | define =>
        obtain rfl := Builtin.ofName?_eq_define hf
        by_cases hcount : as.length = 2
        · match as, has with
          | [target, a], has =>
            obtain ⟨htarget, has⟩ := Node.allWritable_cons.1 has
            obtain ⟨ha, -⟩ := Node.allWritable_cons.1 has
            rw [evalWith_define hf, Eval.evalWith_define hf]
            cases target with
            | identifier x =>
              apply (evalWith_meets hcall a ha).bind
              intro v hv
              exact meets_define x hv
            | _ => exact meets_refuseTarget htarget
        · rw [evalWith_define_count hcount, Eval.evalWith_define_count hcount]
          exact meets_raise trivial
      | println =>
        rw [evalWith_println hf, Eval.evalWith_println hf]
        apply (evalAll_meets hcall as has).bind
        intro vs hvs
        exact meets_printLine hvs.1

theorem evalAll_meets (hcall : CallMeets call call') : ∀ as : List Node, Node.allWritable as →
    Meets (evalAll call as) (Eval.evalAll call' as) fun vs =>
      (∀ v ∈ vs, v.Carries Procedure.IsWritable) ∧ vs.length = as.length
  | [], _ => meets_pure ⟨by simp, rfl⟩
  | a :: as, h => by
    obtain ⟨ha, has⟩ := Node.allWritable_cons.1 h
    apply (evalWith_meets hcall a ha).bind
    intro v hv
    apply (evalAll_meets hcall as has).bind
    intro vs ⟨hvs, hlength⟩
    exact meets_pure ⟨List.forall_mem_cons.2 ⟨hv, hvs⟩, by simp [hlength]⟩

theorem evalArguments_meets (hcall : CallMeets call call') : ∀ (as : List Node) (ps : List String),
    Node.allWritable as → ps.length = as.length →
      Meets (evalArguments call ps as) (Eval.evalAll call' as)
        fun vs => ∀ v ∈ vs, v.Carries Procedure.IsWritable
  | [], _, _, _ => meets_pure (by simp)
  | _ :: _, [], _, hlength => absurd hlength (by simp)
  | a :: as, p :: ps, h, hlength => by
    obtain ⟨ha, has⟩ := Node.allWritable_cons.1 h
    apply (evalWith_meets hcall a ha).bind
    intro v hv
    apply (evalArguments_meets hcall as ps has (Nat.succ.inj hlength)).bind
    intro vs hvs
    exact meets_pure (List.forall_mem_cons.2 ⟨hv, hvs⟩)

theorem evalNumbers_meets (hcall : CallMeets call call') (op : Arithmetic) :
    ∀ as : List Node, Node.allWritable as →
      Meets (evalNumbers call op as) (Eval.evalNumbers call' op as) fun _ => True
  | [], _ => meets_pure trivial
  | a :: as, h => by
    obtain ⟨ha, has⟩ := Node.allWritable_cons.1 h
    apply (evalWith_meets hcall a ha).bind
    intro v _
    apply (meets_ofExcept (P := fun _ => True) (fun _ _ => trivial)
      fun _ he => Arithmetic.cause_of_number he).bind
    intro n _
    apply (evalNumbers_meets hcall op as has).bind
    intro ns _
    exact meets_pure trivial

end

theorem within_eq {y : Checked Value} {x : Action Value} {f : Procedure} {vs : List Value}
    {outlet : Outlet} {s : Scopes}
    (heq : y outlet (s.push (.ofList (f.parameters.zip vs))) =
      .ok (x outlet (s.push (.ofList (f.parameters.zip vs)))))
    (hx : x.BindsOnly xs) : within f vs y outlet s = .ok (Action.within f vs x outlet s) := by
  simp only [within, Action.within, heq, hx.pop_scopes]
  rfl

theorem apply_meets (limit : Nat) : CallMeets (apply limit) (Eval.apply limit) := by
  induction limit with
  | zero =>
    intro f vs _ _ outlet s hs
    exact ⟨rfl, .tooDeep hs⟩
  | succ limit ih =>
    intro f vs hf hvs outlet s hs
    have hscopes : (s.push (.ofList (f.parameters.zip vs))).IsWritable :=
      hs.push (carries_of_mem_zip f.parameters hvs)
    obtain ⟨heq, hregular⟩ := evalWith_meets ih f.body hf.body outlet _ hscopes
    -- the body binds in its own scope only, so there is one to drop at the end
    have hbinds : (Eval.evalWith (Eval.apply limit) f.body).BindsOnly f.body.targets :=
      bindsOnly_eval limit f.body
    refine ⟨within_eq heq hbinds, ?_⟩
    rw [Eval.scopes_apply]
    exact { hregular with scopes := hs }

theorem eval_meets (limit : Nat) {n : Node} (h : n.isWritable) :
    Meets (eval limit n) (Lisplet.eval limit n) (Value.Carries Procedure.IsWritable) :=
  evalWith_meets (apply_meets limit) n h

example : eval 1 (.call "f" []) .working (Scopes.fresh.set "f" (.function ⟨"f", [], .missing⟩)) =
    .error .missingNode := rfl

variable {e : Engine}

theorem evaluate_eq {n : Node} (he : e.scopes.IsWritable) (hn : n.isWritable) :
    evaluate e n = .ok (e.evaluate n) ∧
      Regular (Value.Carries Procedure.IsWritable) (e.evaluate n).result
        (e.evaluate n).engine.scopes := by
  obtain ⟨heq, hregular⟩ := eval_meets e.callLimit hn e.outlet e.scopes he
  simp only [evaluate, Engine.evaluate, heq, Node.print?_of_isWritable hn]
  generalize (Lisplet.eval e.callLimit n e.outlet e.scopes).result = r at hregular ⊢
  obtain (_ | _ | _) | _ := r <;> exact ⟨rfl, hregular⟩

theorem evaluateAll_eq {ns : List Node} {last : Value} (he : e.scopes.IsWritable)
    (hlast : last.Carries Procedure.IsWritable) (hns : Node.allWritable ns) :
    evaluateAll e last ns = .ok (e.evaluateAll last ns) ∧
      Regular (Value.Carries Procedure.IsWritable) (e.evaluateAll last ns).result
        (e.evaluateAll last ns).engine.scopes := by
  induction ns generalizing e last with
  | nil => exact ⟨rfl, .ok hlast he⟩
  | cons n ns ih =>
    obtain ⟨hn, hns⟩ := Node.allWritable_cons.1 hns
    obtain ⟨heq, hregular⟩ := evaluate_eq he hn
    cases hr : (e.evaluate n).result with
    | error f =>
      have hwhole : e.evaluateAll last (n :: ns) = e.evaluate n := by
        simp only [Engine.evaluateAll, hr]
      rw [hwhole]
      exact ⟨by simp only [evaluateAll, heq, hr], hregular⟩
    | ok v =>
      obtain ⟨heq', hregular'⟩ := ih hregular.scopes (hregular.value v hr) hns
      simp only [evaluateAll, Engine.evaluateAll, heq, hr, heq']
      exact ⟨rfl, hregular'⟩

theorem run_eq_of_readAll {source : String} {ns : List Node} (he : e.scopes.IsWritable)
    (h : readAll (tokenize source) = .ok ns) :
    run e source = .ok (e.run source) ∧
      Regular (Value.Carries Procedure.IsWritable) (e.run source).result
        (e.run source).engine.scopes := by
  obtain ⟨heq, hregular⟩ := evaluateAll_eq he Value.carries_nil (Node.allWritable_of_readAll h)
  simp only [run, Engine.run, h, heq]
  exact ⟨rfl, hregular⟩

end Checked

/-- The engines that there are after any number of runs that end, one after the other, from a fresh
engine. -/
inductive Engine.Reachable : Engine → Prop
  | fresh (outlet : Outlet) (callLimit : Nat) : Reachable (.fresh outlet callLimit)
  | run (source : String) : Reachable e → (e.run source).result ≠ .error .tooDeep →
    Reachable (e.run source).engine

theorem Engine.Reachable.isWritable {e : Engine} (h : e.Reachable) : e.scopes.IsWritable := by
  induction h with
  | fresh outlet callLimit => exact Scopes.carries_fresh _ _
  | @run e source _ _ ih =>
    cases hread : readAll (tokenize source) with
    | error err =>
      rw [Engine.run, hread]
      exact ih
    | ok ns => exact (Checked.run_eq_of_readAll ih hread).2.scopes

theorem Error.kind_ofSyntax (err : SyntaxError) :
    (Error.ofSyntax err).kind ∈ [.unexpectedToken, .missingToken] := by
  cases err <;> simp [ofSyntax, kind, Cause.kind, unexpectedToken, missingToken]

/-- No run of a text, after any number of runs, comes to a tree that is missing, an index out of
range, an absent binding or a scope that is gone. -/
theorem run_faultless {e : Engine} (he : e.Reachable) {source : String}
    (hend : (e.run source).result ≠ .error .tooDeep) :
    Checked.run e source = .ok (e.run source) ∧
      ((∃ v, (e.run source).result = .ok v) ∨ ∃ err, (e.run source).result = .error (.error err)) ∧
      match readAll (tokenize source) with
      | .error _ => ∃ err, (e.run source).result = .error (.error err) ∧
          err.kind ∈ [.unexpectedToken, .missingToken]
      | .ok _ => ∀ err, (e.run source).result = .error (.error err) →
          err.kind ∈ [.undefinedFunction, .notAFunction, .argument, .tooFewArguments,
            .typeMismatch] ∧
          (∀ x y, err.cause = .typeMismatch x y → (x = .number ∨ x = .list) ∧ y ≠ x) ∧
          ∀ f, err.cause = .undefinedFunction f ∨ err.cause = .notAFunction f →
            Builtin.ofName? f = none ∧ f ≠ "list" := by
  cases hread : readAll (tokenize source) with
  | error err =>
    have hrun : (e.run source).result = .error (.error (.ofSyntax err)) := by
      rw [Engine.run, hread]
    refine ⟨?_, .inr ⟨_, hrun⟩, _, hrun, Error.kind_ofSyntax err⟩
    simp only [Checked.run, Engine.run, hread]
  | ok ns =>
    obtain ⟨heq, hregular⟩ := Checked.run_eq_of_readAll he.isWritable hread
    refine ⟨heq, ?_, ?_⟩
    · generalize (e.run source).result = r at hend hregular
      match r with
      | .ok v => exact .inl ⟨v, rfl⟩
      | .error (.error err) => exact .inr ⟨err, rfl⟩
      | .error .missingNode => exact absurd rfl hregular.complete
      | .error .tooDeep => exact absurd rfl hend
    · intro err herr
      exact Cause.isEvaluation_iff.1 (hregular.cause err herr)

theorem run_faultless_after_failures :
    let e := ((Engine.fresh .working 2).run "(defn f [x] (car x)) (define n 3) (m)").engine
    let second := e.run "(println (f (list n))) (f n)"
    let third := second.engine.run "(f n"
    (e.Reachable ∧ second.result ≠ .error .tooDeep ∧ third.result ≠ .error .tooDeep) ∧
      (Checked.run e "(println (f (list n))) (f n)" = .ok second ∧ output second.trace = "3\n" ∧
        ∃ err, second.result = .error (.error err) ∧
          ∀ x y, err.cause = .typeMismatch x y → (x = .number ∨ x = .list) ∧ y ≠ x) ∧
      Checked.run second.engine "(f n" = .ok third ∧
        ∃ err, third.result = .error (.error err) ∧
          err.kind ∈ [.unexpectedToken, .missingToken] := by
  -- what the first text binds before it fails is there for the second
  intro e second third
  have he : e.Reachable := .run _ (.fresh .working 2) (by decide +kernel)
  have hend : second.result ≠ .error .tooDeep := by decide +kernel
  have hend' : third.result ≠ .error .tooDeep := by decide +kernel
  have hread : readAll (tokenize "(println (f (list n))) (f n)") = .ok [.call "println"
      [.call "f" [.list [.identifier "n"]]], .call "f" [.identifier "n"]] := by decide +kernel
  have hunread : readAll (tokenize "(f n") = .error .ended := by decide +kernel
  have hfailed : second.result =
    .error (.error (.typeMismatch .list .number "car requires a List")) := by decide +kernel
  obtain ⟨heq, -, hcause⟩ := run_faultless he hend
  obtain ⟨heq', -, hkind⟩ := run_faultless (he.run _ hend) hend'
  rw [hread] at hcause
  rw [hunread] at hkind
  refine ⟨⟨he, hend, hend'⟩, ⟨heq, by decide +kernel, _, hfailed, ?_⟩, heq', hkind⟩
  exact (hcause _ hfailed).2.1

end Lisplet
