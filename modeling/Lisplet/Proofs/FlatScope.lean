import Lisplet.Proofs.CallLimit
import Lisplet.Proofs.ScopeLaws

/-!
Dynamic scope without a stack. The rules below evaluate a tree against one map from names to
values: a call evaluates its body in the map with the parameters put over it, and goes on with
the map from before. Evaluation against a stack of scopes follows exactly these rules.
-/

namespace Lisplet

def Outlet.shown : Outlet → String → String
  | .working, line => line ++ "\n"
  | .broken _, _ => ""

namespace Flat

def total (op : Arithmetic) : List Int64 → Except Failure Value
  | [] => .error (.error op.noArguments)
  | n :: ns => .ok (.number (op.apply n ns))

def callee (name : String) (count : Nat) : Option Value → Except Failure Procedure
  | none => .error (.error (.undefinedFunction name))
  | some (.function f) =>
    if f.arity = count then .ok f
    else .error (.error (.tooFewArguments (f.name ++ " expects " ++ Text.natural f.arity ++
      " arguments, got " ++ Text.natural count)))
  | some _ => .error (.error (.notAFunction name))

mutual

/-- From the first map, the tree has the outcome and the output and leaves the second map. -/
inductive Evaluates (outlet : Outlet) :
    Scope → Node → Except Failure Value → Scope → String → Prop
  | missing : Evaluates outlet m .missing (.error .missingNode) m ""
  | number : Evaluates outlet m (.number v) (.ok (.number v)) m ""
  | boolean : Evaluates outlet m (.boolean b) (.ok (.boolean b)) m ""
  | text : Evaluates outlet m (.text s) (.ok (.text s)) m ""
  | identifier : Evaluates outlet m (.identifier x) (.ok ((m.get? x).getD .nil)) m ""
  | list : EvaluatesAll outlet m as r m' out → Evaluates outlet m (.list as) (r.map .list) m' out
  | testFails : Evaluates outlet m a (.error e) m' out →
      Evaluates outlet m (.cond a b c) (.error e) m' out
  | onTrue : Evaluates outlet m a (.ok v) m₁ out₁ → v.isTruthy = true →
      Evaluates outlet m₁ b r m₂ out₂ → Evaluates outlet m (.cond a b c) r m₂ (out₁ ++ out₂)
  | onFalse : Evaluates outlet m a (.ok v) m₁ out₁ → v.isTruthy = false →
      Evaluates outlet m₁ c r m₂ out₂ → Evaluates outlet m (.cond a b c) r m₂ (out₁ ++ out₂)
  | defn : Evaluates outlet m (.defn f ps a) (.ok (.function ⟨f, ps, a⟩))
      (m.set f (.function ⟨f, ps, a⟩)) ""
  | arithmetic : Builtin.ofName? f = some (.arithmetic op) →
      EvaluatesNumbers outlet op m as r m' out →
      Evaluates outlet m (.call f as) (r.bind (total op)) m' out
  | primitiveCount : Builtin.ofName? f = some (.primitive op) → as.length ≠ op.arity →
      Evaluates outlet m (.call f as) (.error (.error (op.wrongCount as.length))) m ""
  | primitive : Builtin.ofName? f = some (.primitive op) → as.length = op.arity →
      EvaluatesAll outlet m as r m' out →
      Evaluates outlet m (.call f as) (r.bind fun vs => (op.apply vs).mapError .error) m' out
  | defineCount : as.length ≠ 2 →
      Evaluates outlet m (.call "define" as) (.error (.error (Eval.defineCount as.length))) m ""
  | defineTarget : (∀ x, a ≠ .identifier x) →
      Evaluates outlet m (.call "define" [a, b]) (.error (Eval.badTarget a)) m ""
  | defineFails : Evaluates outlet m a (.error e) m' out →
      Evaluates outlet m (.call "define" [.identifier x, a]) (.error e) m' out
  | define : Evaluates outlet m a (.ok v) m' out →
      Evaluates outlet m (.call "define" [.identifier x, a]) (.ok v) (m'.set x v) out
  | printlnFails : EvaluatesAll outlet m as (.error e) m' out →
      Evaluates outlet m (.call "println" as) (.error e) m' out
  | println : EvaluatesAll outlet m as (.ok vs) m' out →
      Evaluates outlet m (.call "println" as) (.ok (.list vs)) m'
        (out ++ outlet.shown (String.ofList (Value.displayLine vs)))
  | refused : Builtin.ofName? f = none → callee f as.length (m.get? f) = .error e →
      Evaluates outlet m (.call f as) (.error e) m ""
  | argumentFails : Builtin.ofName? f = none → callee f as.length (m.get? f) = .ok g →
      EvaluatesAll outlet m as (.error e) m' out →
      Evaluates outlet m (.call f as) (.error e) m' out
  /- The map that the body leaves behind is dropped, whatever the outcome of the body. -/
  | call : Builtin.ofName? f = none → callee f as.length (m.get? f) = .ok g →
      EvaluatesAll outlet m as (.ok vs) m₁ out₁ →
      Evaluates outlet (m₁.update (g.parameters.zip vs)) g.body r m₂ out₂ →
      Evaluates outlet m (.call f as) r m₁ (out₁ ++ out₂)

inductive EvaluatesAll (outlet : Outlet) :
    Scope → List Node → Except Failure (List Value) → Scope → String → Prop
  | nil : EvaluatesAll outlet m [] (.ok []) m ""
  | fails : Evaluates outlet m a (.error e) m' out →
      EvaluatesAll outlet m (a :: as) (.error e) m' out
  | cons : Evaluates outlet m a (.ok v) m₁ out₁ → EvaluatesAll outlet m₁ as r m₂ out₂ →
      EvaluatesAll outlet m (a :: as) (r.map (v :: ·)) m₂ (out₁ ++ out₂)

inductive EvaluatesNumbers (outlet : Outlet) :
    Arithmetic → Scope → List Node → Except Failure (List Int64) → Scope → String → Prop
  | nil : EvaluatesNumbers outlet op m [] (.ok []) m ""
  | fails : Evaluates outlet m a (.error e) m' out →
      EvaluatesNumbers outlet op m (a :: as) (.error e) m' out
  | refused : Evaluates outlet m a (.ok v) m' out → op.number v = .error e →
      EvaluatesNumbers outlet op m (a :: as) (.error (.error e)) m' out
  | cons : Evaluates outlet m a (.ok v) m₁ out₁ → op.number v = .ok n →
      EvaluatesNumbers outlet op m₁ as r m₂ out₂ →
      EvaluatesNumbers outlet op m (a :: as) (r.map (n :: ·)) m₂ (out₁ ++ out₂)

end

def Agrees (m : Scope) (s : Scopes) : Prop := ∀ x, m.get? x = s.get? x

theorem Agrees.set (h : Agrees m s) (x : String) (v : Value) :
    Agrees (m.set x v) (s.set x v) := by
  intro y
  rw [Scope.get?_set, Scopes.get?_set, h y]

theorem Agrees.push (h : Agrees m s) (bs : List (String × Value)) :
    Agrees (m.update bs) (s.push (.ofList bs)) := by
  intro x
  rw [Scopes.get?_push, Scope.get?_update, h x]

theorem output_append (t t' : List Event) : output (t ++ t') = output t ++ output t' := by
  simp [output]

theorem resolve_eq (f : String) (count : Nat) (outlet : Outlet) (s : Scopes) :
    Eval.resolve f count outlet s = ⟨callee f count (s.get? f), s, []⟩ := by
  rw [Eval.resolve, Action.bind_ok (a := s.get? f) rfl]
  cases s.get? f with
  | none => rfl
  | some v =>
    cases v with
    | function g =>
      simp only [callee]
      split <;> rfl
    | _ => rfl

theorem printLine_eq (vs : List Value) (outlet : Outlet) (s : Scopes) :
    ∃ trace, Eval.printLine vs outlet s = ⟨.ok (.list vs), s, trace⟩ ∧
      output trace = outlet.shown (String.ofList (Value.displayLine vs)) := by
  cases outlet with
  | working =>
    refine ⟨[.printed (String.ofList (Value.displayLine vs))], rfl, ?_⟩
    simp [output, Event.output, Outlet.shown]
  | broken reason => exact ⟨[.unprinted reason], rfl, rfl⟩

theorem output_apply (limit : Nat) (f : Procedure) (vs : List Value) (outlet : Outlet)
    (s : Scopes) :
    output (Eval.apply (limit + 1) f vs outlet s).trace =
      output (Eval.evalWith (Eval.apply limit) f.body outlet
        (s.push (.ofList (f.parameters.zip vs)))).trace := by
  simp [Eval.apply, Action.within, output, Event.output]

abbrev Rule (α : Type) := Scope → Except Failure α → Scope → String → Prop

/-- What the action does, unless it was cut short, the rule allows. -/
def Follows (outlet : Outlet) (x : Action α) (R : Rule α) : Prop :=
  ∀ s m, Agrees m s → (x outlet s).result ≠ .error .tooDeep →
    ∃ m', R m (x outlet s).result m' (output (x outlet s).trace) ∧ Agrees m' (x outlet s).scopes

theorem Follows.bind {P : Rule α} {Q : α → Rule β} {R : Rule β} {x : Action α}
    {f : α → Action β} (hx : Follows outlet x P)
    (hf : ∀ a, Follows outlet (f a) (Q a))
    (herror : ∀ m e m' out, P m (.error e) m' out → R m (.error e) m' out)
    (hok : ∀ m a m₁ out₁ r m₂ out₂, P m (.ok a) m₁ out₁ → Q a m₁ r m₂ out₂ →
      R m r m₂ (out₁ ++ out₂)) : Follows outlet (x >>= f) R := by
  intro s m hm hne
  cases hr : (x outlet s).result with
  | error e =>
    rw [Action.bind_error hr] at hne ⊢
    obtain ⟨m', hP, hm'⟩ := hx s m hm (by rw [hr]; simpa using hne)
    rw [hr] at hP
    exact ⟨m', herror m e m' _ hP, hm'⟩
  | ok a =>
    rw [Action.bind_ok hr] at hne ⊢
    obtain ⟨m₁, hP, hm₁⟩ := hx s m hm (by simp [hr])
    obtain ⟨m₂, hQ, hm₂⟩ := hf a _ m₁ hm₁ hne
    rw [hr] at hP
    refine ⟨m₂, ?_, hm₂⟩
    rw [output_append]
    exact hok m a m₁ _ _ m₂ _ hP hQ

theorem Follows.pure {R : Rule α} (h : ∀ m, R m (.ok a) m "") :
    Follows outlet (Pure.pure a) R :=
  fun _ m hm _ => ⟨m, h m, hm⟩

theorem Follows.fail {R : Rule α} (h : ∀ m, R m (.error e) m "") :
    Follows outlet (Action.fail e) R :=
  fun _ m hm _ => ⟨m, h m, hm⟩

theorem Follows.andThen {P : Rule α} {R : Rule β} {x : Action α} {f : α → Action β}
    (g : α → Except Failure β) (hf : ∀ a s, f a outlet s = ⟨g a, s, []⟩)
    (hx : Follows outlet x P) (h : ∀ m r m' out, P m r m' out → R m (r.bind g) m' out) :
    Follows outlet (x >>= f) R := by
  apply hx.bind (Q := fun a m r m' out => r = g a ∧ m' = m ∧ out = "")
  · intro a s m hm _
    rw [hf a s]
    exact ⟨m, ⟨rfl, rfl, rfl⟩, hm⟩
  · intro m e m' out hP
    exact h m _ m' out hP
  · rintro m a m₁ out₁ _ _ _ hP ⟨rfl, rfl, rfl⟩
    rw [String.append_empty]
    exact h m _ _ out₁ hP

theorem bind_ok_eq_map (r : Except Failure α) (f : α → β) :
    (r.bind fun a => .ok (f a)) = r.map f := by
  cases r <;> rfl

theorem ofExcept_eq (r : Except Error α) (outlet : Outlet) (s : Scopes) :
    Action.ofExcept r outlet s = ⟨r.mapError .error, s, []⟩ := by
  cases r <;> rfl

def Calls (outlet : Outlet) (f : Procedure) (vs : List Value) : Rule Value :=
  fun m r m' out => m' = m ∧
    ∃ m'', Evaluates outlet (m.update (f.parameters.zip vs)) f.body r m'' out

section

variable {call : Procedure → List Value → Action Value}

theorem evalWith_user_follows {f : String} {as : List Node} (hf : Builtin.ofName? f = none)
    (hcall : ∀ f vs, Follows outlet (call f vs) (Calls outlet f vs))
    (hall : Follows outlet (Eval.evalAll call as) (EvaluatesAll outlet · as)) :
    Follows outlet (Eval.evalWith call (.call f as)) (Evaluates outlet · (.call f as)) := by
  rw [Eval.evalWith_user hf]
  apply Follows.bind (P := fun m r m' out => r = callee f as.length (m.get? f) ∧ m' = m ∧ out = "")
    (Q := fun g m r m' out => callee f as.length (m.get? f) = .ok g →
      Evaluates outlet m (.call f as) r m' out)
  · intro s m hm _
    rw [resolve_eq]
    exact ⟨m, ⟨by rw [hm f], rfl, rfl⟩, hm⟩
  · intro g
    apply hall.bind (hcall g)
    · intro m e m' out h hg
      exact .argumentFails hf hg h
    · rintro m vs m₁ out₁ r _ out₂ h ⟨rfl, m₂, hbody⟩ hg
      exact .call hf hg h hbody
  · rintro m e _ _ ⟨he, rfl, rfl⟩
    exact .refused hf he.symm
  · rintro m g _ _ r m₂ out₂ ⟨hg, rfl, rfl⟩ h
    rw [String.empty_append]
    exact h hg.symm

mutual

theorem evalWith_follows (hcall : ∀ f vs, Follows outlet (call f vs) (Calls outlet f vs)) :
    ∀ n : Node, Follows outlet (Eval.evalWith call n) (Evaluates outlet · n)
  | .missing => .fail fun _ => .missing
  | .number _ => .pure fun _ => .number
  | .boolean _ => .pure fun _ => .boolean
  | .text _ => .pure fun _ => .text
  | .identifier x => by
    intro s m hm _
    have h : Evaluates outlet m (.identifier x) (.ok ((m.get? x).getD .nil)) m "" := .identifier
    rw [hm x] at h
    exact ⟨m, h, hm⟩
  | .list as => by
    apply (evalAll_follows hcall as).andThen (fun vs => .ok (.list vs)) fun _ _ => rfl
    intro m r m' out h
    rw [bind_ok_eq_map]
    exact .list h
  | .cond a b c => by
    rw [Eval.evalWith]
    apply (evalWith_follows hcall a).bind
      (Q := fun v m r m' out => Evaluates outlet m (if v.isTruthy then b else c) r m' out)
    · intro v
      split
      · exact evalWith_follows hcall b
      · exact evalWith_follows hcall c
    · intro m e m' out h
      exact .testFails h
    · intro m v m₁ out₁ r m₂ out₂ h hbranch
      cases hv : v.isTruthy with
      | true =>
        rw [hv] at hbranch
        exact .onTrue h hv hbranch
      | false =>
        rw [hv] at hbranch
        exact .onFalse h hv hbranch
  | .defn f ps a => by
    intro s m hm _
    exact ⟨_, .defn, hm.set f _⟩
  | .call f as => by
    have hall := evalAll_follows hcall as
    cases hf : Builtin.ofName? f with
    | none => exact evalWith_user_follows hf hcall hall
    | some b =>
      cases b with
      | arithmetic op =>
        rw [Eval.evalWith_arithmetic hf]
        apply (evalNumbers_follows hcall op as).andThen (total op)
        · intro ns s
          cases ns <;> rfl
        · intro m r m' out h
          exact .arithmetic hf h
      | primitive op =>
        rw [Eval.evalWith_primitive hf]
        split
        · rename_i hlen
          apply hall.andThen (fun vs => (op.apply vs).mapError .error)
          · intro vs s
            exact ofExcept_eq _ outlet s
          · intro m r m' out h
            exact .primitive hf hlen h
        · rename_i hlen
          exact .fail fun _ => .primitiveCount hf hlen
      | define =>
        obtain rfl := Builtin.ofName?_eq_define hf
        rw [Eval.evalWith_define hf]
        split
        · rename_i x a
          apply (evalWith_follows hcall a).bind
            (Q := fun v m r m' out => r = .ok v ∧ m' = m.set x v ∧ out = "")
          · intro v s m hm _
            exact ⟨_, ⟨rfl, rfl, rfl⟩, hm.set x v⟩
          · intro m e m' out h
            exact .defineFails h
          · rintro m v m₁ out₁ _ _ _ h ⟨rfl, rfl, rfl⟩
            rw [String.append_empty]
            exact .define h
        · rename_i target b htarget
          exact .fail fun _ => .defineTarget fun x hx => htarget x (by rw [hx])
        · rename_i hpair htwo
          apply Follows.fail
          intro m
          apply Evaluates.defineCount
          intro hlen
          match as, hlen with
          | [a, b], _ => exact htwo a b rfl
      | println =>
        obtain rfl := Builtin.ofName?_eq_println hf
        rw [Eval.evalWith_println hf]
        apply hall.bind (Q := fun vs m r m' out => r = .ok (.list vs) ∧ m' = m ∧
          out = outlet.shown (String.ofList (Value.displayLine vs)))
        · intro vs s m hm _
          obtain ⟨trace, heq, hout⟩ := printLine_eq vs outlet s
          rw [heq]
          exact ⟨m, ⟨rfl, rfl, hout⟩, hm⟩
        · intro m e m' out h
          exact .printlnFails h
        · rintro m vs m₁ out₁ _ _ _ h ⟨rfl, rfl, rfl⟩
          exact .println h

theorem evalAll_follows (hcall : ∀ f vs, Follows outlet (call f vs) (Calls outlet f vs)) :
    ∀ as : List Node, Follows outlet (Eval.evalAll call as) (EvaluatesAll outlet · as)
  | [] => .pure fun _ => .nil
  | a :: as => by
    rw [Eval.evalAll]
    apply (evalWith_follows hcall a).bind
      (Q := fun v m r m' out => ∃ r', EvaluatesAll outlet m as r' m' out ∧ r = r'.map (v :: ·))
    · intro v
      apply (evalAll_follows hcall as).andThen (fun vs => .ok (v :: vs)) fun _ _ => rfl
      intro m r m' out h
      exact ⟨r, h, bind_ok_eq_map r _⟩
    · intro m e m' out h
      exact .fails h
    · rintro m v m₁ out₁ _ m₂ out₂ h ⟨r, hs, rfl⟩
      exact .cons h hs

theorem evalNumbers_follows (hcall : ∀ f vs, Follows outlet (call f vs) (Calls outlet f vs))
    (op : Arithmetic) : ∀ as : List Node,
      Follows outlet (Eval.evalNumbers call op as) (EvaluatesNumbers outlet op · as)
  | [] => .pure fun _ => .nil
  | a :: as => by
    rw [Eval.evalNumbers]
    apply (evalWith_follows hcall a).bind
      (Q := fun v m r m' out => match op.number v with
        | .error e => r = .error (.error e) ∧ m' = m ∧ out = ""
        | .ok n => ∃ r', EvaluatesNumbers outlet op m as r' m' out ∧ r = r'.map (n :: ·))
    · intro v
      cases op.number v with
      | error e => exact .fail fun _ => ⟨rfl, rfl, rfl⟩
      | ok n =>
        apply (evalNumbers_follows hcall op as).andThen (fun ns => .ok (n :: ns)) fun _ _ => rfl
        intro m r m' out h
        exact ⟨r, h, bind_ok_eq_map r _⟩
    · intro m e m' out h
      exact .fails h
    · intro m v m₁ out₁ r m₂ out₂ h hQ
      cases hv : op.number v with
      | error e =>
        simp only [hv] at hQ
        obtain ⟨rfl, rfl, rfl⟩ := hQ
        rw [String.append_empty]
        exact .refused h hv
      | ok n =>
        simp only [hv] at hQ
        obtain ⟨r', hs, rfl⟩ := hQ
        exact .cons h hv hs

end

end

theorem apply_follows (limit : Nat) (f : Procedure) (vs : List Value) :
    Follows outlet (Eval.apply limit f vs) (Calls outlet f vs) := by
  induction limit generalizing f vs with
  | zero => exact fun _ _ _ hne => absurd rfl hne
  | succ limit ih =>
    intro s m hm hne
    obtain ⟨m'', hbody, -⟩ := evalWith_follows ih f.body _ _ (hm.push (f.parameters.zip vs)) hne
    refine ⟨m, ⟨rfl, m'', ?_⟩, ?_⟩
    · rw [output_apply]
      exact hbody
    · rw [Eval.scopes_apply]
      exact hm

/-- From scopes that agree with the map, the actions have the outcome and the output and leave
scopes that agree with the second map, as soon as the limit is high enough. -/
def Reaches (outlet : Outlet) (x : Nat → Action α) (m : Scope) (r : Except Failure α) (m' : Scope)
    (out : String) : Prop :=
  r ≠ .error .tooDeep ∧ ∀ s, Agrees m s → ∃ e : Effect α, e.result = r ∧ Agrees m' e.scopes ∧
    output e.trace = out ∧ ∃ least, ∀ limit, least ≤ limit → x limit outlet s = e

theorem Reaches.const {x : Action α} (hne : r ≠ .error .tooDeep)
    (h : ∀ s, Agrees m s → (x outlet s).result = r ∧ Agrees m' (x outlet s).scopes ∧
      output (x outlet s).trace = out) : Reaches outlet (fun _ => x) m r m' out := by
  refine ⟨hne, fun s hm => ?_⟩
  obtain ⟨hr, hm', hout⟩ := h s hm
  exact ⟨x outlet s, hr, hm', hout, 0, fun _ _ => rfl⟩

theorem Reaches.pure : Reaches outlet (fun _ => Pure.pure a) m (.ok a) m "" :=
  .const (by simp) fun _ hm => ⟨rfl, hm, rfl⟩

theorem Reaches.fail (hne : e ≠ .tooDeep) :
    Reaches outlet (fun _ => (Action.fail e : Action α)) m (.error e) m "" :=
  .const (by simpa using hne) fun _ hm => ⟨rfl, hm, rfl⟩

theorem Reaches.bind_error {x : Nat → Action α} {f : Nat → α → Action β}
    (hx : Reaches outlet x m (.error e) m' out) :
    Reaches outlet (fun limit => x limit >>= f limit) m (.error e) m' out := by
  refine ⟨by simpa using hx.1, fun s hm => ?_⟩
  obtain ⟨e', hr, hm', hout, least, hleast⟩ := hx.2 s hm
  refine ⟨⟨.error e, e'.scopes, e'.trace⟩, rfl, hm', hout, least, ?_⟩
  intro limit hlimit
  have heq := hleast limit hlimit
  change (x limit >>= f limit) outlet s = _
  rw [Action.bind_error (by rw [heq, hr]), heq]

theorem Reaches.bind {x : Nat → Action α} {f : Nat → α → Action β}
    (hx : Reaches outlet x m (.ok a) m₁ out₁)
    (hf : Reaches outlet (fun limit => f limit a) m₁ r m₂ out₂) :
    Reaches outlet (fun limit => x limit >>= f limit) m r m₂ (out₁ ++ out₂) := by
  refine ⟨hf.1, fun s hm => ?_⟩
  obtain ⟨e₁, hr₁, hm₁, hout₁, least₁, hleast₁⟩ := hx.2 s hm
  obtain ⟨e₂, hr₂, hm₂, hout₂, least₂, hleast₂⟩ := hf.2 e₁.scopes hm₁
  refine ⟨{ e₂ with trace := e₁.trace ++ e₂.trace }, hr₂, hm₂, ?_, max least₁ least₂, ?_⟩
  · rw [output_append, hout₁, hout₂]
  · intro limit hlimit
    have heq₁ := hleast₁ limit (by omega)
    have heq₂ : f limit a outlet e₁.scopes = e₂ := hleast₂ limit (by omega)
    change (x limit >>= f limit) outlet s = _
    rw [Action.bind_ok (by rw [heq₁, hr₁]), heq₁, heq₂]

theorem Reaches.bind_silent {x : Nat → Action α} {f : Nat → α → Action β}
    (hx : Reaches outlet x m (.ok a) m₁ out)
    (hf : Reaches outlet (fun limit => f limit a) m₁ r m₂ "") :
    Reaches outlet (fun limit => x limit >>= f limit) m r m₂ out := by
  simpa using hx.bind hf

theorem Reaches.silent_bind {x : Nat → Action α} {f : Nat → α → Action β}
    (hx : Reaches outlet x m (.ok a) m₁ "")
    (hf : Reaches outlet (fun limit => f limit a) m₁ r m₂ out) :
    Reaches outlet (fun limit => x limit >>= f limit) m r m₂ out := by
  simpa using hx.bind hf

theorem Reaches.andThen {x : Nat → Action α} {f : Nat → α → Action β} {r : Except Failure α}
    (g : α → Except Failure β) (hf : ∀ limit a s, f limit a outlet s = ⟨g a, s, []⟩)
    (hg : ∀ a, g a ≠ .error .tooDeep) (hx : Reaches outlet x m r m' out) :
    Reaches outlet (fun limit => x limit >>= f limit) m (r.bind g) m' out := by
  cases r with
  | error e => exact hx.bind_error
  | ok a =>
    have hlast : Reaches outlet (fun limit => f limit a) m' (g a) m' "" := by
      refine ⟨hg a, fun s hm => ⟨⟨g a, s, []⟩, rfl, hm, rfl, 0, fun limit _ => ?_⟩⟩
      exact hf limit a s
    exact hx.bind_silent hlast

theorem Reaches.apply
    (h : Reaches outlet (fun limit => Eval.evalWith (Eval.apply limit) f.body)
      (m.update (f.parameters.zip vs)) r m' out) :
    Reaches outlet (fun limit => Eval.apply limit f vs) m r m out := by
  refine ⟨h.1, fun s hm => ?_⟩
  obtain ⟨e, hr, -, hout, least, hleast⟩ := h.2 _ (hm.push (f.parameters.zip vs))
  let entered := s.push (.ofList (f.parameters.zip vs))
  refine ⟨⟨e.result, s, .entered f.name entered.depth :: e.trace ++ [.left f.name s.depth]⟩,
    hr, hm, ?_, least + 1, ?_⟩
  · rw [← hout]
    simp [output, Event.output]
  · intro limit hlimit
    obtain ⟨k, rfl⟩ : ∃ k, limit = k + 1 := ⟨limit - 1, by omega⟩
    have heq : Eval.evalWith (Eval.apply k) f.body outlet entered = e := hleast k (by omega)
    have hs := Eval.scopes_apply (k + 1) f vs outlet s
    simp only [Eval.apply, Action.within, heq, entered] at hs ⊢
    rw [hs]

theorem total_ne_tooDeep (op : Arithmetic) (ns : List Int64) : total op ns ≠ .error .tooDeep := by
  cases ns <;> simp [total]

theorem mapError_ne_tooDeep (r : Except Error α) : r.mapError Failure.error ≠ .error .tooDeep := by
  cases r <;> nofun

theorem callee_ne_tooDeep (name : String) (count : Nat) (found : Option Value) :
    callee name count found ≠ .error .tooDeep := by
  unfold callee
  split
  · simp
  · split <;> simp
  · simp

theorem reaches_resolve (h : callee name count (m.get? name) = r) :
    Reaches outlet (fun _ => Eval.resolve name count) m r m "" := by
  subst r
  refine .const (callee_ne_tooDeep name count (m.get? name)) fun s hm => ?_
  rw [resolve_eq, hm name]
  exact ⟨rfl, hm, rfl⟩

theorem reaches_printLine (vs : List Value) (m : Scope) :
    Reaches outlet (fun _ => Eval.printLine vs) m (.ok (.list vs)) m
      (outlet.shown (String.ofList (Value.displayLine vs))) := by
  refine .const (by simp) fun s hm => ?_
  obtain ⟨trace, heq, hout⟩ := printLine_eq vs outlet s
  rw [heq]
  exact ⟨rfl, hm, hout⟩

mutual

theorem Evaluates.reaches : Evaluates outlet m n r m' out →
    Reaches outlet (fun limit => Eval.evalWith (Eval.apply limit) n) m r m' out
  | .missing => .fail (by simp)
  | .number => .pure
  | .boolean => .pure
  | .text => .pure
  | .identifier => by
    simp only [Eval.evalWith]
    refine .const (by simp) fun s hm => ?_
    rw [hm]
    exact ⟨rfl, hm, rfl⟩
  | .list h => by
    rw [← bind_ok_eq_map]
    exact h.reaches.andThen _ (fun _ _ _ => rfl) (by simp)
  | .testFails h => by
    simp only [Eval.evalWith]
    exact h.reaches.bind_error
  | .onTrue h hv hb => by
    simp only [Eval.evalWith]
    apply h.reaches.bind
    simp only [hv]
    exact hb.reaches
  | .onFalse h hv hc => by
    simp only [Eval.evalWith]
    apply h.reaches.bind
    simp only [hv]
    exact hc.reaches
  | .defn => .const (by simp) fun s hm => ⟨rfl, hm.set _ _, rfl⟩
  | .arithmetic hf h => by
    simp only [Eval.evalWith_arithmetic hf]
    apply h.reaches.andThen _ _ (total_ne_tooDeep _)
    intro limit ns s
    cases ns <;> rfl
  | .primitiveCount hf hlen => by
    simp only [Eval.evalWith_primitive hf, if_neg hlen]
    exact .fail (by simp)
  | .primitive hf hlen h => by
    simp only [Eval.evalWith_primitive hf, if_pos hlen]
    exact h.reaches.andThen _ (fun _ _ s => ofExcept_eq _ _ s) fun _ => mapError_ne_tooDeep _
  | .defineCount hlen => by
    simp only [Eval.evalWith_define_count hlen]
    exact .fail (by simp)
  | .defineTarget ha => by
    simp only [Eval.evalWith_define_target ha]
    exact .fail (Eval.badTarget_ne_tooDeep _)
  | .defineFails h => by
    simp only [Eval.evalWith_define_identifier]
    exact h.reaches.bind_error
  | .define h => by
    simp only [Eval.evalWith_define_identifier]
    apply h.reaches.bind_silent
    exact .const (by simp) fun s hm => ⟨rfl, hm.set _ _, rfl⟩
  | .printlnFails h => by
    simp only [Eval.evalWith_println (f := "println") rfl]
    exact h.reaches.bind_error
  | .println h => by
    simp only [Eval.evalWith_println (f := "println") rfl]
    exact h.reaches.bind (reaches_printLine _ _)
  | .refused hf he => by
    simp only [Eval.evalWith_user hf]
    exact (reaches_resolve he).bind_error
  | .argumentFails hf hg h => by
    simp only [Eval.evalWith_user hf]
    exact (reaches_resolve hg).silent_bind h.reaches.bind_error
  | .call hf hg h hbody => by
    simp only [Eval.evalWith_user hf]
    exact (reaches_resolve hg).silent_bind (h.reaches.bind hbody.reaches.apply)

theorem EvaluatesAll.reaches : EvaluatesAll outlet m as r m' out →
    Reaches outlet (fun limit => Eval.evalAll (Eval.apply limit) as) m r m' out
  | .nil => .pure
  | .fails h => by
    simp only [Eval.evalAll]
    exact h.reaches.bind_error
  | .cons h hs => by
    simp only [Eval.evalAll]
    apply h.reaches.bind
    rw [← bind_ok_eq_map]
    exact hs.reaches.andThen _ (fun _ _ _ => rfl) (by simp)

theorem EvaluatesNumbers.reaches : EvaluatesNumbers outlet op m as r m' out →
    Reaches outlet (fun limit => Eval.evalNumbers (Eval.apply limit) op as) m r m' out
  | .nil => .pure
  | .fails h => by
    simp only [Eval.evalNumbers]
    exact h.reaches.bind_error
  | .refused h hv => by
    simp only [Eval.evalNumbers]
    apply h.reaches.bind_silent
    simp only [hv]
    exact .fail (by simp)
  | .cons h hv hs => by
    simp only [Eval.evalNumbers]
    apply h.reaches.bind
    simp only [hv]
    rw [← bind_ok_eq_map]
    exact hs.reaches.andThen _ (fun _ _ _ => rfl) (by simp)

end

theorem evaluates_of_ends (hm : Agrees m s) (h : Ends n outlet s e) :
    ∃ m', Evaluates outlet m n e.result m' (output e.trace) ∧ Agrees m' e.scopes := by
  obtain ⟨limit, rfl, hne⟩ := h
  exact evalWith_follows (apply_follows limit) n s m hm hne

theorem Evaluates.ends (h : Evaluates outlet m n r m' out) (hm : Agrees m s) :
    ∃ e, Ends n outlet s e ∧ e.result = r ∧ output e.trace = out ∧ Agrees m' e.scopes := by
  obtain ⟨hne, hreach⟩ := h.reaches
  obtain ⟨e, hr, hm', hout, least, hleast⟩ := hreach s hm
  exact ⟨e, ⟨least, hleast least (Nat.le_refl least), by rwa [hr]⟩, hr, hout, hm'⟩

theorem agrees_global (m : Scope) : Agrees m ⟨m, .empty⟩ := by
  intro x
  simp [Scopes.get?]

end Flat

theorem eval_agrees_with_flat (n : Node) (outlet : Outlet) (s : Scopes) (m : Scope)
    (hm : ∀ x, m.get? x = s.get? x) :
    ((∃ e, Ends n outlet s e) ↔ ∃ r m' out, Flat.Evaluates outlet m n r m' out) ∧
      ∀ e r m' out, Ends n outlet s e → Flat.Evaluates outlet m n r m' out →
        e.result = r ∧ output e.trace = out ∧ ∀ x, m'.get? x = e.scopes.get? x := by
  refine ⟨⟨?_, ?_⟩, ?_⟩
  · rintro ⟨e, he⟩
    obtain ⟨m', h, -⟩ := Flat.evaluates_of_ends hm he
    exact ⟨e.result, m', output e.trace, h⟩
  · rintro ⟨r, m', out, h⟩
    obtain ⟨e, he, -⟩ := h.ends hm
    exact ⟨e, he⟩
  · intro e r m' out he h
    obtain ⟨e', he', hr, hout, hm'⟩ := h.ends hm
    obtain rfl := he.unique he'
    exact ⟨hr, hout, hm'⟩

theorem eval_agrees_with_flat_of_failing_call :
    let body : Node := .list [.call "println" [.identifier "p"], .call "car" [.identifier "p"]]
    let globals := Scope.ofList [("f", .function ⟨"f", ["p", "p"], body⟩)]
    let s : Scopes := Scopes.push ⟨globals, .empty⟩ (.ofList [("p", .number 7)])
    let m : Scope := globals.update [("p", .number 7)]
    let n : Node := .call "f" [.defn "f" [] (.number 1), .number 2]
    (∀ x, m.get? x = s.get? x) ∧
      ∃ m', Flat.Evaluates .working m n
        (.error (.error (.typeMismatch .list .number "car requires a List"))) m' "2\n" ∧
        m'.get? "f" = some (.function ⟨"f", [], .number 1⟩) ∧ m'.get? "p" = some (.number 7) := by
  -- an argument declares anew the function that is called; both parameters have one name
  intro body globals s m n
  have hm : ∀ x, m.get? x = s.get? x := (Flat.agrees_global globals).push [("p", .number 7)]
  have hresult : (eval 1 n .working s).result =
      .error (.error (.typeMismatch .list .number "car requires a List")) := rfl
  have houtput : output (eval 1 n .working s).trace = "2\n" := by decide +kernel
  have he : Ends n .working s (eval 1 n .working s) := ⟨1, rfl, by simp [hresult]⟩
  obtain ⟨hends, hsame⟩ := eval_agrees_with_flat n .working s m hm
  obtain ⟨r, m', out, h⟩ := hends.1 ⟨_, he⟩
  obtain ⟨rfl, rfl, hm'⟩ := hsame _ r m' out he h
  rw [hresult, houtput] at h
  exact ⟨hm, m', h, hm' "f", hm' "p"⟩

end Lisplet
