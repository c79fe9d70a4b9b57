import Lisplet.Proofs.Coincidence

namespace Lisplet

/-- The names that a tree can reach: those it reads, and those that the bodies of the functions
read that such a name is bound to. -/
inductive Node.Reaches (n : Node) (s : Scopes) : String → Prop
  | read : x ∈ n.reads → Reaches n s x
  | body : Reaches n s x → s.get? x = some v → f ∈ v.functions → y ∈ f.body.reads → Reaches n s y

namespace Node

theorem carries_reaches (n : Node) (s : Scopes) :
    s.Carries { x | n.Reaches s x } (Procedure.ReadsOnly { x | n.Reaches s x }) :=
  fun _ hx _ hv _ hf _ hy => .body hx hv hf hy

/-- No smaller set of names will do. -/
theorem Reaches.mem_of_closed {n : Node} {s : Scopes} {N : Set String} (h : n.Reaches s x)
    (hn : ∀ x ∈ n.reads, x ∈ N) (hclosed : s.Carries N (Procedure.ReadsOnly N)) : x ∈ N := by
  induction h with
  | read hx => exact hn _ hx
  | body _ hv hf hy ih => exact hclosed _ ih _ hv _ hf _ hy

end Node

theorem Scopes.Agree.symm {N : Set String} {s t : Scopes} (h : Agree N s t) : Agree N t s where
  same x hx := (h.same x hx).symm
  closed x hx v hv := h.closed x hx v ((h.same x hx).trans hv)

theorem Effect.Twins.get?_inner_eq {a b : Effect α} (h : Effect.Twins N Q s t a b)
    (hy : s.inner.get? y = t.inner.get? y) : a.scopes.inner.get? y = b.scopes.inner.get? y := by
  obtain ⟨bs, -, ha, hb⟩ := h.bindings
  simp only [ha, hb, Scopes.update, Scope.get?_update, hy]

namespace Ends

theorem outer_eq (h : Ends n outlet s e) : e.scopes.outer = s.outer := by
  obtain ⟨limit, rfl, -⟩ := h
  obtain ⟨bs, -, heq⟩ := bindsOnly_eval limit n outlet s
  rw [heq]
  rfl

theorem get?_inner_eq (h : Ends n outlet s e) (hx : x ∉ n.targets) :
    e.scopes.inner.get? x = s.inner.get? x := by
  obtain ⟨limit, rfl, -⟩ := h
  obtain ⟨bs, hbs, heq⟩ := bindsOnly_eval limit n outlet s
  rw [heq]
  apply s.inner.get?_update_of_notMem
  rintro b hb rfl
  exact hx (hbs b hb)

theorem get?_eq (h : Ends n outlet s e) (hx : x ∉ n.targets) : e.scopes.get? x = s.get? x := by
  rw [Scopes.get?, h.get?_inner_eq hx, h.outer_eq, Scopes.get?]

theorem agree {n : Node} (h : Ends m outlet s e) (hm : ∀ x ∈ m.targets, ¬ n.Reaches s x) :
    Scopes.Agree { x | n.Reaches s x } s e.scopes where
  same _ hx := (h.get?_eq fun hmem => hm _ hmem hx).symm
  closed := n.carries_reaches s

end Ends

/-- Two trees of which neither binds a name that the other can reach or binds can change places. -/
theorem eval_comm_of_independent {n₁ n₂ : Node} {outlet : Outlet} {s : Scopes}
    {e₁ e₂ : Effect Value} {v₁ v₂ : Value}
    (h₁₂ : ∀ x ∈ n₁.targets, ¬ n₂.Reaches s x) (h₂₁ : ∀ x ∈ n₂.targets, ¬ n₁.Reaches s x)
    (hdisjoint : ∀ x ∈ n₁.targets, x ∉ n₂.targets)
    (he₁ : Ends n₁ outlet s e₁) (hv₁ : e₁.result = .ok v₁)
    (he₂ : Ends n₂ outlet e₁.scopes e₂) (hv₂ : e₂.result = .ok v₂) :
    ∃ e₂' e₁', Ends n₂ outlet s e₂' ∧ Ends n₁ outlet e₂'.scopes e₁' ∧
      e₂'.result = .ok v₂ ∧ e₁'.result = .ok v₁ ∧
      output e₂'.trace = output e₂.trace ∧ output e₁'.trace = output e₁.trace ∧
      (∀ y, e₁'.scopes.inner.get? y = e₂.scopes.inner.get? y) ∧
      e₁'.scopes.outer = e₂.scopes.outer := by
  obtain ⟨e₂', he₂', htwins₂⟩ := he₂.coincides (fun _ => .read) (he₁.agree h₁₂).symm
  obtain ⟨e₁', he₁', htwins₁⟩ := he₁.coincides (fun _ => .read) (he₂'.agree h₂₁)
  refine ⟨e₂', e₁', he₂', he₁', htwins₂.result.trans hv₂, htwins₁.result.trans hv₁, htwins₂.output,
    htwins₁.output, ?_, ?_⟩
  · intro y
    -- in both orders, at most one of the trees binds the name, and it binds it to the same value
    by_cases hy : y ∈ n₁.targets
    · have hy₂ : y ∉ n₂.targets := hdisjoint y hy
      have hbefore : s.inner.get? y = e₂'.scopes.inner.get? y := (he₂'.get?_inner_eq hy₂).symm
      rw [he₂.get?_inner_eq hy₂, htwins₁.get?_inner_eq hbefore]
    · have hbefore : e₁.scopes.inner.get? y = s.inner.get? y := he₁.get?_inner_eq hy
      rw [he₁'.get?_inner_eq hy, htwins₂.get?_inner_eq hbefore]
  · rw [he₁'.outer_eq, he₂'.outer_eq, he₂.outer_eq, he₁.outer_eq]

theorem eval_comm_of_independent_in_call :
    let f : Procedure := ⟨"f", ["p"], .call "println" [.identifier "p", .identifier "x"]⟩
    let g : Procedure := ⟨"g", [], .call "define" [.identifier "a", .identifier "y"]⟩
    let n₁ : Node := .call "define" [.identifier "a", .call "f" [.number 1]]
    let n₂ : Node := .list [.call "k" [], .cond (.identifier "l")
      (.call "define" [.identifier "b", .identifier "y"]) (.call "g" [])]
    let globals := Scope.ofList [("f", .function f), ("k", .function { g with name := "k" }),
      ("l", .list [.function g]), ("g", .function g), ("y", .number 5), ("a", .nil), ("b", .nil)]
    let s : Scopes := ⟨.ofList [("x", .number 7)], ⟨[globals]⟩⟩
    let s₁ : Scopes := ⟨.ofList [("x", .number 7), ("a", .list [.number 1, .number 7])], s.outer⟩
    ((∀ x ∈ n₁.targets, ¬ n₂.Reaches s x) ∧ (∀ x ∈ n₂.targets, ¬ n₁.Reaches s x) ∧
      ∀ x ∈ n₁.targets, x ∉ n₂.targets) ∧
      ∃ e₂' e₁', Ends n₂ .working s e₂' ∧ Ends n₁ .working e₂'.scopes e₁' ∧
        e₂'.result = .ok (.list [.number 5, .number 5]) ∧
        e₁'.result = .ok (.list [.number 1, .number 7]) ∧ output e₁'.trace = "1 7\n" ∧
        ∀ y, e₁'.scopes.inner.get? y = (eval 1 n₂ .working s₁).scopes.inner.get? y := by
  -- `g` and `k` would bind `a`, but in scopes of their own
  intro f g n₁ n₂ globals s s₁
  have hclosed (names : List String) (h : ∀ x ∈ names, ∀ f ∈ ((s.get? x).getD .nil).functions,
      ∀ y ∈ f.body.reads, y ∈ names) :
      s.Carries { x | x ∈ names } (Procedure.ReadsOnly { x | x ∈ names }) := by
    intro x hx v hv
    have hfound := h x hx
    rwa [hv] at hfound
  have h₁₂ : ∀ x ∈ n₁.targets, ¬ n₂.Reaches s x := by
    have hreads : ∀ x ∈ n₂.reads, x ∈ ["k", "l", "g", "y"] := by decide
    have htargets : ∀ x ∈ n₁.targets, x ∉ ["k", "l", "g", "y"] := by decide
    exact fun x hx h => htargets x hx (h.mem_of_closed hreads (hclosed _ (by decide)))
  have h₂₁ : ∀ x ∈ n₂.targets, ¬ n₁.Reaches s x := by
    have hreads : ∀ x ∈ n₁.reads, x ∈ ["f", "p", "x"] := by decide
    have htargets : ∀ x ∈ n₂.targets, x ∉ ["f", "p", "x"] := by decide
    exact fun x hx h => htargets x hx (h.mem_of_closed hreads (hclosed _ (by decide)))
  have hdisjoint : ∀ x ∈ n₁.targets, x ∉ n₂.targets := by decide
  have hv₁ : (eval 1 n₁ .working s).result = .ok (.list [.number 1, .number 7]) := rfl
  have hs₁ : (eval 1 n₁ .working s).scopes = s₁ := rfl
  have hv₂ : (eval 1 n₂ .working s₁).result = .ok (.list [.number 5, .number 5]) := rfl
  have houtput : output (eval 1 n₁ .working s).trace = "1 7\n" := by decide +kernel
  have he₁ : Ends n₁ .working s (eval 1 n₁ .working s) := ⟨1, rfl, by simp [hv₁]⟩
  have he₂ : Ends n₂ .working (eval 1 n₁ .working s).scopes (eval 1 n₂ .working s₁) :=
    ⟨1, by rw [hs₁], by simp [hv₂]⟩
  obtain ⟨e₂', e₁', he₂', he₁', hv₂', hv₁', -, houtput', hinner, -⟩ :=
    eval_comm_of_independent h₁₂ h₂₁ hdisjoint he₁ hv₁ he₂ hv₂
  exact ⟨⟨h₁₂, h₂₁, hdisjoint⟩, e₂', e₁', he₂', he₁', hv₂', hv₁', houtput'.trans houtput, hinner⟩

end Lisplet
