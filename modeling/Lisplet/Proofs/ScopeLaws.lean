import Lisplet.Proofs.EvalLaws

namespace Lisplet

def Scope.update (s : Scope) (bs : List (String × Value)) : Scope :=
  bs.foldl (fun s b => s.set b.1 b.2) s

namespace Scope

theorem ofList_eq_update (bs : List (String × Value)) : ofList bs = empty.update bs := rfl

theorem update_append (s : Scope) (bs cs : List (String × Value)) :
    s.update (bs ++ cs) = (s.update bs).update cs := List.foldl_append

theorem get?_update_of_notMem (s : Scope) {bs : List (String × Value)} {x : String}
    (h : ∀ b ∈ bs, b.1 ≠ x) : (s.update bs).get? x = s.get? x := by
  induction bs generalizing s with
  | nil => rfl
  | cons b bs ih =>
    have hx : x ≠ b.1 := (h b List.mem_cons_self).symm
    change ((s.set b.1 b.2).update bs).get? x = s.get? x
    rw [ih _ fun c hc => h c (List.mem_cons_of_mem b hc), get?_set, if_neg hx]

theorem isSome_get?_update (s : Scope) (bs : List (String × Value)) {x : String}
    (h : (s.get? x).isSome) : ((s.update bs).get? x).isSome := by
  induction bs generalizing s with
  | nil => exact h
  | cons b bs ih =>
    apply ih
    rw [get?_set]
    split
    · rfl
    · exact h

theorem get?_update (s : Scope) (bs : List (String × Value)) (x : String) :
    (s.update bs).get? x = ((ofList bs).get? x).or (s.get? x) := by
  rw [ofList_eq_update]
  induction bs generalizing s with
  | nil => rfl
  | cons b bs ih =>
    change ((s.set b.1 b.2).update bs).get? x = (((empty.set b.1 b.2).update bs).get? x).or _
    rw [ih (s.set b.1 b.2), ih (empty.set b.1 b.2), Option.or_assoc, get?_set, get?_set]
    split <;> rfl

end Scope

def Scopes.update (s : Scopes) (bs : List (String × Value)) : Scopes :=
  { s with inner := s.inner.update bs }

namespace Scopes

theorem update_append (s : Scopes) (bs cs : List (String × Value)) :
    s.update (bs ++ cs) = (s.update bs).update cs := by
  simp [update, Scope.update_append]

theorem update_push (s : Scopes) (scope : Scope) (bs : List (String × Value)) :
    (s.push scope).update bs = s.push (scope.update bs) := rfl

theorem depth_popped {s : Scopes} (h : s.depth = d + 1) :
    (s.pop.toOption.getD s).depth = d := by
  obtain ⟨inner, ⟨outer⟩⟩ := s
  cases outer with
  | nil => simp [depth, Stack.size] at h
  | cons scope rest => exact Nat.succ.inj h

end Scopes

namespace Node

def defined (f : String) (as : List Node) : List String :=
  match f, as with
  | "define", [.identifier x, _] => [x]
  | _, _ => []

mutual

/-- The names that a tree can bind by itself. The body of a declaration is evaluated only when
it is called, in a scope of its own, so its targets are not counted. -/
def targets : Node → List String
  | .list as => targetsAll as
  | .call f as => defined f as ++ targetsAll as
  | .cond a b c => targets a ++ targets b ++ targets c
  | .defn f _ _ => [f]
  | _ => []

def targetsAll : List Node → List String
  | [] => []
  | a :: as => targets a ++ targetsAll as

end

end Node

namespace Action

/-- The action binds some of the names in the innermost scope and does nothing else to the
scopes. -/
def BindsOnly (xs : List String) (x : Action α) : Prop :=
  ∀ outlet s, ∃ bs, (∀ b ∈ bs, b.1 ∈ xs) ∧ (x outlet s).scopes = s.update bs

theorem BindsOnly.mono {xs ys : List String} {x : Action α} (h : x.BindsOnly xs) (hs : xs ⊆ ys) :
    x.BindsOnly ys := by
  intro outlet s
  obtain ⟨bs, hbs, heq⟩ := h outlet s
  exact ⟨bs, fun b hb => hs (hbs b hb), heq⟩

theorem BindsOnly.of_scopes_eq {x : Action α} (h : ∀ outlet s, (x outlet s).scopes = s) :
    x.BindsOnly xs := by
  intro outlet s
  exact ⟨[], by simp, h outlet s⟩

theorem bindsOnly_pure (a : α) : BindsOnly xs (Pure.pure a : Action α) :=
  .of_scopes_eq fun _ _ => rfl

theorem bindsOnly_fail (f : Failure) : BindsOnly xs (fail f : Action α) :=
  .of_scopes_eq fun _ _ => rfl

theorem bindsOnly_ofExcept (r : Except Error α) : BindsOnly xs (ofExcept r) := by
  cases r with
  | ok a => exact bindsOnly_pure a
  | error e => exact bindsOnly_fail (.error e)

theorem bindsOnly_lookup (x : String) : BindsOnly xs (lookup x) :=
  .of_scopes_eq fun _ _ => rfl

theorem bindsOnly_print (line : String) : BindsOnly xs (print line) := by
  apply BindsOnly.of_scopes_eq
  intro outlet s
  cases outlet <;> rfl

theorem bindsOnly_define {x : String} (v : Value) (h : x ∈ xs) : BindsOnly xs (define x v) := by
  intro outlet s
  exact ⟨[(x, v)], by simpa using h, rfl⟩

theorem bindsOnly_declare {f : Procedure} (h : f.name ∈ xs) : BindsOnly xs (declare f) := by
  intro outlet s
  exact ⟨[(f.name, .function f)], by simpa using h, rfl⟩

theorem BindsOnly.bind {x : Action α} {f : α → Action β} (hx : x.BindsOnly xs)
    (hf : ∀ a, (f a).BindsOnly xs) : (x >>= f).BindsOnly xs := by
  intro outlet s
  obtain ⟨bs, hbs, heq⟩ := hx outlet s
  rw [bind_def, Action.bind]
  cases (x outlet s).result with
  | error e => exact ⟨bs, hbs, heq⟩
  | ok a =>
    obtain ⟨cs, hcs, heq'⟩ := hf a outlet (x outlet s).scopes
    refine ⟨bs ++ cs, ?_, ?_⟩
    · intro b hb
      exact (List.mem_append.1 hb).elim (hbs b) (hcs b)
    · rw [Scopes.update_append, ← heq]
      exact heq'

theorem BindsOnly.pop_scopes {body : Action α} (h : body.BindsOnly xs) (outlet : Outlet)
    (s : Scopes) (scope : Scope) : (body outlet (s.push scope)).scopes.pop = .ok s := by
  obtain ⟨bs, -, heq⟩ := h outlet (s.push scope)
  rw [heq, Scopes.update_push, Scopes.pop_push]

theorem scopes_within {body : Action Value} (h : body.BindsOnly xs) (f : Procedure)
    (vs : List Value) (outlet : Outlet) (s : Scopes) : (within f vs body outlet s).scopes = s := by
  simp only [within, h.pop_scopes]
  rfl

end Action

namespace Eval

open Lisplet.Action

theorem bindsOnly_resolve (f : String) (count : Nat) : BindsOnly xs (resolve f count) := by
  apply (bindsOnly_lookup f).bind
  intro found
  split
  · exact bindsOnly_fail _
  · split
    · exact bindsOnly_pure _
    · exact bindsOnly_fail _
  · exact bindsOnly_fail _

theorem bindsOnly_printLine (vs : List Value) : BindsOnly xs (printLine vs) :=
  (bindsOnly_print _).bind fun _ => bindsOnly_pure _

variable {call : Procedure → List Value → Action Value}

mutual

theorem evalWith_bindsOnly (hcall : ∀ f vs, (call f vs).BindsOnly []) :
    ∀ n : Node, (evalWith call n).BindsOnly n.targets
  | .missing => bindsOnly_fail _
  | .number _ => bindsOnly_pure _
  | .boolean _ => bindsOnly_pure _
  | .text _ => bindsOnly_pure _
  | .identifier x => (bindsOnly_lookup x).bind fun _ => bindsOnly_pure _
  | .list as => (evalAll_bindsOnly hcall as).bind fun _ => bindsOnly_pure _
  | .cond a b c => by
    rw [evalWith, Node.targets]
    apply ((evalWith_bindsOnly hcall a).mono (by simp)).bind
    intro v
    split
    · exact (evalWith_bindsOnly hcall b).mono (by simp)
    · exact (evalWith_bindsOnly hcall c).mono (by simp)
  | .defn f ps a => bindsOnly_declare (by simp [Node.targets])
  | .call f as => by
    have hall : (evalAll call as).BindsOnly (Node.call f as).targets :=
      (evalAll_bindsOnly hcall as).mono (List.subset_append_right _ _)
    cases hf : Builtin.ofName? f with
    | none =>
      rw [evalWith_user hf]
      apply (bindsOnly_resolve f as.length).bind
      intro g
      apply hall.bind
      intro vs
      exact (hcall g vs).mono (by simp)
    | some b =>
      cases b with
      | arithmetic op =>
        rw [evalWith_arithmetic hf]
        apply ((evalNumbers_bindsOnly hcall op as).mono (List.subset_append_right _ _)).bind
        intro ns
        cases ns with
        | nil => exact bindsOnly_fail _
        | cons n ns => exact bindsOnly_pure _
      | primitive op =>
        rw [evalWith_primitive hf]
        split
        · exact hall.bind fun vs => bindsOnly_ofExcept _
        · exact bindsOnly_fail _
      | define =>
        obtain rfl := Builtin.ofName?_eq_define hf
        rw [evalWith_define hf]
        split
        · rename_i x a
          apply ((evalWith_bindsOnly hcall a).mono (by simp [Node.targets, Node.targetsAll])).bind
          intro v
          exact bindsOnly_define v (by simp [Node.targets, Node.defined])
        · exact bindsOnly_fail _
        · exact bindsOnly_fail _
      | println =>
        rw [evalWith_println hf]
        exact hall.bind fun vs => bindsOnly_printLine vs

theorem evalAll_bindsOnly (hcall : ∀ f vs, (call f vs).BindsOnly []) :
    ∀ as : List Node, (evalAll call as).BindsOnly (Node.targetsAll as)
  | [] => bindsOnly_pure _
  | a :: as => by
    apply ((evalWith_bindsOnly hcall a).mono (List.subset_append_left _ _)).bind
    intro v
    apply ((evalAll_bindsOnly hcall as).mono (List.subset_append_right _ _)).bind
    intro vs
    exact bindsOnly_pure _

theorem evalNumbers_bindsOnly (hcall : ∀ f vs, (call f vs).BindsOnly []) (op : Arithmetic) :
    ∀ as : List Node, (evalNumbers call op as).BindsOnly (Node.targetsAll as)
  | [] => bindsOnly_pure _
  | a :: as => by
    apply ((evalWith_bindsOnly hcall a).mono (List.subset_append_left _ _)).bind
    intro v
    apply (bindsOnly_ofExcept _).bind
    intro n
    apply ((evalNumbers_bindsOnly hcall op as).mono (List.subset_append_right _ _)).bind
    intro ns
    exact bindsOnly_pure _

end

theorem scopes_apply (limit : Nat) (f : Procedure) (vs : List Value) (outlet : Outlet)
    (s : Scopes) : (apply limit f vs outlet s).scopes = s := by
  induction limit generalizing f vs outlet s with
  | zero => rfl
  | succ limit ih =>
    have hcall : ∀ g ws, (apply limit g ws).BindsOnly [] := fun g ws => .of_scopes_eq (ih g ws)
    exact scopes_within (evalWith_bindsOnly hcall f.body) f vs outlet s

end Eval

theorem bindsOnly_eval (limit : Nat) (n : Node) : (eval limit n).BindsOnly n.targets :=
  Eval.evalWith_bindsOnly (fun f vs => .of_scopes_eq (Eval.scopes_apply limit f vs)) n

/-- Whatever the limit and however the evaluation ends, names are bound in the innermost scope only,
each of them a target of the tree, and none is lost. -/
theorem eval_binds_only_targets (limit : Nat) (n : Node) (outlet : Outlet) (s : Scopes) :
    let after := (eval limit n outlet s).scopes
    after.depth = s.depth ∧ after.outer = s.outer ∧
      (∀ x, (s.inner.get? x).isSome → (after.inner.get? x).isSome) ∧
      (∀ x, x ∉ n.targets → after.inner.get? x = s.inner.get? x) ∧
      ∀ f vs, (Eval.apply limit f vs outlet s).scopes = s := by
  obtain ⟨bs, hbs, heq⟩ := bindsOnly_eval limit n outlet s
  simp only [heq]
  refine ⟨rfl, rfl, ?_, ?_, ?_⟩
  · intro x hx
    exact s.inner.isSome_get?_update bs hx
  · intro x hx
    apply s.inner.get?_update_of_notMem
    rintro b hb rfl
    exact hx (hbs b hb)
  · intro f vs
    exact Eval.scopes_apply limit f vs outlet s

theorem eval_binds_only_targets_of_call :
    let f : Procedure := ⟨"f", ["p"], .call "define" [.identifier "x", .identifier "p"]⟩
    let s : Scopes :=
      ⟨.ofList [("z", .number 5)], ⟨[.ofList [("f", .function f), ("x", .number 1)]]⟩⟩
    let n : Node := .call "f" [.call "define" [.identifier "y", .number 2]]
    let after := (eval 1 n .working s).scopes
    ((s.inner.get? "z").isSome ∧ "x" ∉ n.targets) ∧
      after.outer = s.outer ∧ (after.inner.get? "z").isSome ∧
      after.inner.get? "x" = s.inner.get? "x" := by
  -- made inside another call; the body of the callee defines `x` too
  intro f s n after
  have hz : (s.inner.get? "z").isSome := by decide
  have hx : "x" ∉ n.targets := by decide
  obtain ⟨-, houter, hkept, hsame, -⟩ := eval_binds_only_targets 1 n .working s
  exact ⟨⟨hz, hx⟩, houter, hkept "z" hz, hsame "x" hx⟩

end Lisplet
