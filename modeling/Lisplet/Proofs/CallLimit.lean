import Lisplet.Proofs.EvalLaws

namespace Lisplet

namespace Action

/-- The second action does what the first one does, unless that one was cut short. -/
def Extends (x y : Action α) : Prop :=
  ∀ outlet s, (x outlet s).result ≠ .error .tooDeep → y outlet s = x outlet s

theorem Extends.refl (x : Action α) : Extends x x := fun _ _ _ => rfl

theorem Extends.bind {x y : Action α} {f g : α → Action β} (hx : Extends x y)
    (hf : ∀ a, Extends (f a) (g a)) : Extends (x >>= f) (y >>= g) := by
  intro outlet s h
  cases hr : (x outlet s).result with
  | error e =>
    have hne : (x outlet s).result ≠ .error .tooDeep := by
      rintro hdeep
      obtain rfl : e = .tooDeep := by simpa [hr] using hdeep
      exact h (by rw [bind_error hr])
    rw [bind_error hr, bind_error (by rw [hx outlet s hne, hr]), hx outlet s hne]
  | ok a =>
    have heq := hx outlet s (by simp [hr])
    rw [bind_ok hr] at h ⊢
    rw [bind_ok (by rw [heq, hr]), heq, hf a outlet _ h]

theorem extends_congruence : Congruence @Extends where
  pure _ := .refl _
  fail _ := .refl _
  lookup _ := .refl _
  define _ _ := .refl _
  declare _ := .refl _
  print _ := .refl _
  bind := .bind

theorem Extends.within {x y : Action Value} (h : Extends x y) (f : Procedure) (vs : List Value) :
    Extends (within f vs x) (within f vs y) := by
  intro outlet s hne
  simp only [Action.within]
  rw [h outlet (s.push (.ofList (f.parameters.zip vs))) hne]

end Action

namespace Eval

theorem apply_extends (h : limit ≤ limit') (f : Procedure) (vs : List Value) :
    Action.Extends (apply limit f vs) (apply limit' f vs) := by
  induction limit generalizing limit' f vs with
  | zero => exact fun _ _ hne => absurd rfl hne
  | succ limit ih =>
    obtain ⟨limit', rfl⟩ : ∃ k, limit' = k + 1 := ⟨limit' - 1, by omega⟩
    apply Action.Extends.within
    exact evalWith_congr Action.extends_congruence (ih (Nat.le_of_succ_le_succ h)) f.body

end Eval

theorem eval_extends (h : limit ≤ limit') (n : Node) :
    Action.Extends (eval limit n) (eval limit' n) :=
  Eval.evalWith_congr Action.extends_congruence (Eval.apply_extends h) n

/-- Some limit lets the evaluation run to its end, where it has the effect. -/
def Ends (n : Node) (outlet : Outlet) (s : Scopes) (e : Effect Value) : Prop :=
  ∃ limit, eval limit n outlet s = e ∧ e.result ≠ .error .tooDeep

theorem Ends.unique (h : Ends n outlet s e) (h' : Ends n outlet s e') : e = e' := by
  obtain ⟨limit, rfl, hne⟩ := h
  obtain ⟨limit', rfl, hne'⟩ := h'
  obtain hle | hle := Nat.le_total limit limit'
  · exact (eval_extends hle n outlet s hne).symm
  · exact eval_extends hle n outlet s hne'

end Lisplet
