import Lisplet.Proofs.FlatScope
import Lisplet.Proofs.Functions

/-!
What an evaluation depends on. A tree looks up the names that it reads, and those that the bodies
of the functions within their reach read. From scopes in which these names mean the same, it ends
in the same way, prints the same and makes the same bindings, whatever else is bound there.
-/

namespace Lisplet

namespace Node

mutual

/-- The names that a tree looks up, those in the bodies it declares included. Neither the target of
a definition nor the name of a builtin operation is looked up. -/
def reads : Node → List String
  | .identifier x => [x]
  | .list as => readsAll as
  | .call f as =>
    (if (Builtin.ofName? f).isSome then [] else [f]) ++
      (if f = "define" then readsBehindTarget as else readsAll as)
  | .cond a b c => reads a ++ reads b ++ reads c
  | .defn _ _ a => reads a
  | _ => []

def readsAll : List Node → List String
  | [] => []
  | a :: as => reads a ++ readsAll as

def readsBehindTarget : List Node → List String
  | [] => []
  | .identifier _ :: as => readsAll as
  | a :: as => reads a ++ readsAll as

end

theorem readsAll_subset_of_builtin {f : String} (h : f ≠ "define") (as : List Node) :
    readsAll as ⊆ (call f as).reads := by
  rw [reads, if_neg h]
  exact List.subset_append_right _ _

theorem mem_reads_of_user {f : String} (h : Builtin.ofName? f = none) (as : List Node) :
    f ∈ (call f as).reads := by
  simp [reads, h]

end Node

def Procedure.ReadsOnly (N : Set String) (f : Procedure) : Prop := ∀ x ∈ f.body.reads, x ∈ N

/-- The names mean the same in both scopes, and no function within their reach reads another. -/
structure Scopes.Agree (N : Set String) (s t : Scopes) : Prop where
  same : ∀ x ∈ N, s.get? x = t.get? x
  closed : s.Carries N (Procedure.ReadsOnly N)

namespace Scopes

variable {N : Set String} {s t : Scopes} {bs : List (String × Value)}

theorem Agree.update (h : Agree N s t) (hbs : ∀ b ∈ bs, b.2.Carries (Procedure.ReadsOnly N)) :
    Agree N (s.update bs) (t.update bs) where
  same x hx := by rw [get?_update, get?_update, h.same x hx]
  closed := h.closed.update hbs

theorem Agree.push (h : Agree N s t) (hbs : ∀ b ∈ bs, b.2.Carries (Procedure.ReadsOnly N)) :
    Agree N (s.push (.ofList bs)) (t.push (.ofList bs)) where
  same x hx := by rw [get?_push, get?_push, h.same x hx]
  closed := h.closed.push hbs

end Scopes

/-- Two effects, from two states of the scopes, that no one can tell apart who knows only the
names. -/
structure Effect.Twins (N : Set String) (Q : α → Prop) (s t : Scopes) (a b : Effect α) : Prop where
  result : b.result = a.result
  output : output b.trace = output a.trace
  value : ∀ v, a.result = .ok v → Q v
  bindings : ∃ bs, (∀ b ∈ bs, b.2.Carries (Procedure.ReadsOnly N)) ∧
    a.scopes = s.update bs ∧ b.scopes = t.update bs

namespace Action

/-- The action looks up no other names, and if it has a value, the value is as stated. -/
def Coincides (N : Set String) (x : Action α) (Q : α → Prop) : Prop :=
  ∀ outlet s t, Scopes.Agree N s t → Effect.Twins N Q s t (x outlet s) (x outlet t)

variable {N : Set String}

theorem coincides_pure {Q : α → Prop} {a : α} (h : Q a) : Coincides N (Pure.pure a) Q := by
  intro outlet s t _
  exact ⟨rfl, rfl, fun v hv => Except.ok.inj hv ▸ h, [], by simp, rfl, rfl⟩

theorem coincides_fail (f : Failure) (Q : α → Prop) : Coincides N (fail f : Action α) Q := by
  intro outlet s t _
  exact ⟨rfl, rfl, nofun, [], by simp, rfl, rfl⟩

theorem coincides_ofExcept {Q : α → Prop} {r : Except Error α} (h : ∀ a, r = .ok a → Q a) :
    Coincides N (ofExcept r) Q := by
  cases r with
  | ok a => exact coincides_pure (h a rfl)
  | error e => exact coincides_fail (.error e) Q

theorem coincides_lookup {x : String} (h : x ∈ N) :
    Coincides N (lookup x)
      fun found => ∀ v, found = some v → v.Carries (Procedure.ReadsOnly N) := by
  intro outlet s t hst
  refine ⟨?_, rfl, ?_, [], by simp, rfl, rfl⟩
  · exact congrArg Except.ok (hst.same x h).symm
  · rintro found hfound v rfl
    exact hst.closed x h v (Except.ok.inj hfound)

theorem coincides_define (x : String) {v : Value} (h : v.Carries (Procedure.ReadsOnly N)) :
    Coincides N (define x v) (Value.Carries (Procedure.ReadsOnly N)) := by
  intro outlet s t _
  exact ⟨rfl, rfl, fun w hw => Except.ok.inj hw ▸ h, [(x, v)], by simpa using h, rfl, rfl⟩

theorem coincides_declare {f : Procedure} (h : f.ReadsOnly N) :
    Coincides N (declare f) (Value.Carries (Procedure.ReadsOnly N)) := by
  have hf : (Value.function f).Carries (Procedure.ReadsOnly N) := Value.carries_function.2 h
  intro outlet s t _
  exact ⟨rfl, rfl, fun w hw => Except.ok.inj hw ▸ hf, [(f.name, .function f)], by simpa using h,
    rfl, rfl⟩

theorem coincides_print (line : String) : Coincides N (print line) fun _ => True := by
  intro outlet s t _
  cases outlet <;> exact ⟨rfl, rfl, fun _ _ => trivial, [], by simp, rfl, rfl⟩

theorem Coincides.bind {x : Action α} {f : α → Action β} {P : α → Prop} {Q : β → Prop}
    (hx : Coincides N x P) (hf : ∀ a, P a → Coincides N (f a) Q) : Coincides N (x >>= f) Q := by
  intro outlet s t hst
  obtain ⟨hresult, houtput, hvalue, bs, hbs, hs, ht⟩ := hx outlet s t hst
  cases hr : (x outlet s).result with
  | error e =>
    rw [bind_error hr, bind_error (hresult.trans hr)]
    exact ⟨rfl, houtput, nofun, bs, hbs, hs, ht⟩
  | ok a =>
    have hst' : Scopes.Agree N (x outlet s).scopes (x outlet t).scopes := by
      rw [hs, ht]
      exact hst.update hbs
    obtain ⟨hresult', houtput', hvalue', cs, hcs, hs', ht'⟩ := hf a (hvalue a hr) outlet _ _ hst'
    rw [bind_ok hr, bind_ok (hresult.trans hr)]
    refine ⟨hresult', ?_, hvalue', bs ++ cs, ?_, ?_, ?_⟩
    · rw [Flat.output_append, Flat.output_append, houtput, houtput']
    · intro b hb
      exact (List.mem_append.1 hb).elim (hbs b) (hcs b)
    · rw [Scopes.update_append, ← hs]
      exact hs'
    · rw [Scopes.update_append, ← ht]
      exact ht'

end Action

namespace Eval

open Lisplet.Action

variable {N : Set String}

theorem coincides_resolve {f : String} (h : f ∈ N) (count : Nat) :
    Coincides N (resolve f count) (Procedure.ReadsOnly N) := by
  apply (coincides_lookup h).bind
  intro found hfound
  split
  · exact coincides_fail _ _
  · split
    · exact coincides_pure (Value.carries_function.1 (hfound _ rfl))
    · exact coincides_fail _ _
  · exact coincides_fail _ _

theorem coincides_printLine {vs : List Value} (h : ∀ v ∈ vs, v.Carries (Procedure.ReadsOnly N)) :
    Coincides N (printLine vs) (Value.Carries (Procedure.ReadsOnly N)) :=
  (coincides_print _).bind fun _ _ => coincides_pure (Value.carries_list.2 h)

def CallCoincides (N : Set String) (call : Procedure → List Value → Action Value) : Prop :=
  ∀ f vs, f.ReadsOnly N → (∀ v ∈ vs, v.Carries (Procedure.ReadsOnly N)) →
    Coincides N (call f vs) (Value.Carries (Procedure.ReadsOnly N))

variable {call : Procedure → List Value → Action Value}

mutual

theorem evalWith_coincides (hcall : CallCoincides N call) : ∀ n : Node, (∀ x ∈ n.reads, x ∈ N) →
    Coincides N (evalWith call n) (Value.Carries (Procedure.ReadsOnly N))
  | .missing, _ => coincides_fail _ _
  | .number _, _ => coincides_pure (Value.carries_number _)
  | .boolean _, _ => coincides_pure (Value.carries_boolean _)
  | .text _, _ => coincides_pure (Value.carries_text _)
  | .identifier x, h => by
    apply (coincides_lookup (h x (by simp [Node.reads]))).bind
    intro found hfound
    apply coincides_pure
    cases found with
    | none => exact Value.carries_nil
    | some v => exact hfound v rfl
  | .list as, h =>
    (evalAll_coincides hcall as h).bind fun _ hvs => coincides_pure (Value.carries_list.2 hvs)
  | .cond a b c, h => by
    rw [evalWith]
    apply (evalWith_coincides hcall a fun x hx => h x (by simp [Node.reads, hx])).bind
    intro v _
    split
    · exact evalWith_coincides hcall b fun x hx => h x (by simp [Node.reads, hx])
    · exact evalWith_coincides hcall c fun x hx => h x (by simp [Node.reads, hx])
  | .defn f ps a, h => coincides_declare h
  | .call f as, h => by
    by_cases hdefine : f = "define"
    · subst hdefine
      rw [evalWith_define rfl]
      split
      · rename_i x a
        apply (evalWith_coincides hcall a fun y hy => h y ?_).bind
        · intro v hv
          exact coincides_define x hv
        · simp [Node.reads, Node.readsBehindTarget, Node.readsAll, hy]
      · exact coincides_fail _ _
      · exact coincides_fail _ _
    · have has : ∀ x ∈ Node.readsAll as, x ∈ N :=
        fun x hx => h x (Node.readsAll_subset_of_builtin hdefine as hx)
      have hall := evalAll_coincides hcall as has
      cases hf : Builtin.ofName? f with
      | none =>
        rw [evalWith_user hf]
        apply (coincides_resolve (h f (Node.mem_reads_of_user hf as)) as.length).bind
        intro g hg
        apply hall.bind
        intro vs hvs
        exact hcall g vs hg hvs
      | some b =>
        cases b with
        | arithmetic op =>
          rw [evalWith_arithmetic hf]
          apply (evalNumbers_coincides hcall op as has).bind
          intro ns _
          cases ns with
          | nil => exact coincides_fail _ _
          | cons n ns => exact coincides_pure (Value.carries_number _)
        | primitive op =>
          rw [evalWith_primitive hf]
          split
          · apply hall.bind
            intro vs hvs
            exact coincides_ofExcept fun v hv => Primitive.carries_apply hvs hv
          · exact coincides_fail _ _
        | define => exact absurd (Builtin.ofName?_eq_define hf) hdefine
        | println =>
          rw [evalWith_println hf]
          exact hall.bind fun vs hvs => coincides_printLine hvs

theorem evalAll_coincides (hcall : CallCoincides N call) : ∀ as : List Node,
    (∀ x ∈ Node.readsAll as, x ∈ N) →
      Coincides N (evalAll call as) fun vs => ∀ v ∈ vs, v.Carries (Procedure.ReadsOnly N)
  | [], _ => coincides_pure (by simp)
  | a :: as, h => by
    apply (evalWith_coincides hcall a fun x hx => h x (by simp [Node.readsAll, hx])).bind
    intro v hv
    apply (evalAll_coincides hcall as fun x hx => h x (by simp [Node.readsAll, hx])).bind
    intro vs hvs
    exact coincides_pure (List.forall_mem_cons.2 ⟨hv, hvs⟩)

theorem evalNumbers_coincides (hcall : CallCoincides N call) (op : Arithmetic) :
    ∀ as : List Node, (∀ x ∈ Node.readsAll as, x ∈ N) →
      Coincides N (evalNumbers call op as) fun _ => True
  | [], _ => coincides_pure trivial
  | a :: as, h => by
    apply (evalWith_coincides hcall a fun x hx => h x (by simp [Node.readsAll, hx])).bind
    intro v _
    apply (coincides_ofExcept (Q := fun _ => True) fun _ _ => trivial).bind
    intro n _
    apply (evalNumbers_coincides hcall op as fun x hx => h x (by simp [Node.readsAll, hx])).bind
    intro ns _
    exact coincides_pure trivial

end

theorem apply_coincides (limit : Nat) : CallCoincides N (apply limit) := by
  induction limit with
  | zero => exact fun _ _ _ _ => coincides_fail _ _
  | succ limit ih =>
    intro f vs hf hvs outlet s t hst
    have hbody := evalWith_coincides ih f.body hf outlet _ _
      (hst.push (carries_of_mem_zip f.parameters hvs))
    -- the bindings of the body are gone with its scope, so the callers have none to compare
    refine ⟨hbody.result, ?_, hbody.value, [], by simp, ?_, ?_⟩
    · rw [Flat.output_apply, Flat.output_apply]
      exact hbody.output
    · exact scopes_apply (limit + 1) f vs outlet s
    · exact scopes_apply (limit + 1) f vs outlet t

end Eval

theorem eval_coincides {N : Set String} {n : Node} (h : ∀ x ∈ n.reads, x ∈ N) (limit : Nat) :
    Action.Coincides N (eval limit n) (Value.Carries (Procedure.ReadsOnly N)) :=
  Eval.evalWith_coincides (Eval.apply_coincides limit) n h

theorem Ends.coincides {N : Set String} (hn : ∀ x ∈ n.reads, x ∈ N) (hst : Scopes.Agree N s t)
    (h : Ends n outlet s e) :
    ∃ e', Ends n outlet t e' ∧ Effect.Twins N (Value.Carries (Procedure.ReadsOnly N)) s t e e' := by
  obtain ⟨limit, rfl, hne⟩ := h
  have htwins := eval_coincides hn limit outlet s t hst
  refine ⟨eval limit n outlet t, ⟨limit, rfl, ?_⟩, htwins⟩
  rwa [htwins.result]

theorem eval_depends_on_reads {n : Node} {N : Set String} {outlet : Outlet} {s : Scopes}
    {e : Effect Value}
    (hn : ∀ x ∈ n.reads, x ∈ N)
    (hclosed : ∀ x ∈ N, ∀ v, s.get? x = some v → ∀ f ∈ v.functions, ∀ y ∈ f.body.reads, y ∈ N)
    (h : Ends n outlet s e) :
    (∀ t : Scopes, (∀ x ∈ N, s.get? x = t.get? x) →
      ∃ e', Ends n outlet t e' ∧ e'.result = e.result ∧ output e'.trace = output e.trace ∧
        (∀ x ∈ N, e.scopes.get? x = e'.scopes.get? x) ∧
        ∀ y, (e.scopes.inner.get? y = s.inner.get? y ∧ e'.scopes.inner.get? y = t.inner.get? y) ∨
          ∃ v, e.scopes.inner.get? y = some v ∧ e'.scopes.inner.get? y = some v) ∧
    ∀ y ∉ N, ∀ v, ∃ e', Ends n outlet (s.set y v) e' ∧
      e'.result = e.result ∧ output e'.trace = output e.trace := by
  constructor
  · intro t hsame
    have hst : Scopes.Agree N s t := ⟨hsame, hclosed⟩
    obtain ⟨e', he', hresult, houtput, -, bs, hbs, hs, ht⟩ := h.coincides hn hst
    refine ⟨e', he', hresult, houtput, ?_, ?_⟩
    · rw [hs, ht]
      exact (hst.update hbs).same
    · intro y
      simp only [hs, ht, Scopes.update, Scope.get?_update]
      cases (Scope.ofList bs).get? y with
      | none => exact .inl ⟨rfl, rfl⟩
      | some v => exact .inr ⟨v, rfl, rfl⟩
  · intro y hy v
    have hst : Scopes.Agree N s (s.set y v) := by
      refine ⟨fun x hx => ?_, hclosed⟩
      have hne : x ≠ y := ne_of_mem_of_not_mem hx hy
      rw [Scopes.get?_set, if_neg hne]
    obtain ⟨e', he', htwins⟩ := h.coincides hn hst
    exact ⟨e', he', htwins.result, htwins.output⟩

theorem eval_depends_on_reads_through_list :
    let g : Procedure := ⟨"g", [], .call "println" [.call "add" [.identifier "x", .number 1]]⟩
    let f : Procedure :=
      ⟨"f", ["l"], .call "define" [.identifier "k", .call "car" [.identifier "l"]]⟩
    let n : Node := .call "define" [.identifier "r", .list [.call "f" [.list [.identifier "g"]],
      .call "g" []]]
    let N : Set String := { x | x ∈ ["f", "g", "l", "x"] }
    let functions := [("g", Value.function g), ("f", Value.function f)]
    let s : Scopes := ⟨.ofList (("x", .number 4) :: functions), .empty⟩
    let t : Scopes := ⟨.ofList [("z", .nil)], ⟨[.ofList [("x", .number 4), ("add", .boolean true)],
      .ofList (("x", .number 7) :: functions)]⟩⟩
    ((∀ x ∈ n.reads, x ∈ N) ∧ (∀ x ∈ N, s.get? x = t.get? x) ∧
      ∀ x ∈ N, ∀ v, s.get? x = some v → ∀ f ∈ v.functions, ∀ y ∈ f.body.reads, y ∈ N) ∧
      ∃ e', Ends n .working t e' ∧
        e'.result = .ok (.list [.function g, .list [.number 5]]) ∧ output e'.trace = "5\n" ∧
        e'.scopes.inner.get? "r" = some (.list [.function g, .list [.number 5]]) := by
  -- the function in the list reads `x` where it is called, and there a caller has bound it
  intro g f n N functions s t
  have hn : ∀ x ∈ n.reads, x ∈ ["f", "g", "l", "x"] := by decide
  have hst : ∀ x ∈ ["f", "g", "l", "x"], s.get? x = t.get? x := by decide
  have hfound : ∀ x ∈ ["f", "g", "l", "x"], ∀ f ∈ ((s.get? x).getD .nil).functions,
      ∀ y ∈ f.body.reads, y ∈ ["f", "g", "l", "x"] := by decide
  have hclosed : ∀ x ∈ N, ∀ v, s.get? x = some v → ∀ f ∈ v.functions, ∀ y ∈ f.body.reads,
      y ∈ N := by
    intro x hx v hv
    have := hfound x hx
    rwa [hv] at this
  have hresult : (eval 1 n .working s).result = .ok (.list [.function g, .list [.number 5]]) := rfl
  have houtput : output (eval 1 n .working s).trace = "5\n" := by decide +kernel
  have he : Ends n .working s (eval 1 n .working s) := ⟨1, rfl, by simp [hresult]⟩
  obtain ⟨e', he', hresult', houtput', -, hbound⟩ :=
    (eval_depends_on_reads (N := N) hn hclosed he).1 t hst
  refine ⟨⟨hn, hst, hclosed⟩, e', he', hresult'.trans hresult, houtput'.trans houtput, ?_⟩
  have hr : (eval 1 n .working s).scopes.inner.get? "r" =
      some (.list [.function g, .list [.number 5]]) := by decide +kernel
  obtain ⟨hleft, -⟩ | ⟨v, hv, hv'⟩ := hbound "r"
  · exact absurd (hr.symm.trans hleft) (by decide)
  · rw [hv', ← hv, hr]

end Lisplet
