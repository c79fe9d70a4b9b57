import Lisplet.Proofs.Faultless

namespace Lisplet

namespace Scopes

def global (s : Scopes) : Scope := s.outer.toList.getLastD s.inner

theorem global_of_outer_empty {s : Scopes} (h : s.outer = .empty) : s.global = s.inner := by
  rw [global, h]
  rfl

theorem get?_of_outer_empty {s : Scopes} (h : s.outer = .empty) (x : String) :
    s.get? x = s.global.get? x := by
  rw [get?, global_of_outer_empty h, h]
  simp

end Scopes

namespace Engine

theorem outer_evaluate (e : Engine) (n : Node) :
    (e.evaluate n).engine.scopes.outer = e.scopes.outer := by
  obtain ⟨bs, -, hscopes⟩ := bindsOnly_eval e.callLimit n e.outlet e.scopes
  have houter : (eval e.callLimit n e.outlet e.scopes).scopes.outer = e.scopes.outer := by
    rw [hscopes]
    rfl
  rw [evaluate]
  split <;> exact houter

theorem outer_evaluateAll (e : Engine) (last : Value) (ns : List Node) :
    (e.evaluateAll last ns).engine.scopes.outer = e.scopes.outer := by
  induction ns generalizing e last with
  | nil => rfl
  | cons n ns ih =>
    rw [evaluateAll]
    cases h : (e.evaluate n).result with
    | ok v => exact (ih _ v).trans (e.outer_evaluate n)
    | error f => exact e.outer_evaluate n

theorem outer_run (e : Engine) (source : String) :
    (e.run source).engine.scopes.outer = e.scopes.outer := by
  rw [run]
  cases readAll (tokenize source) with
  | ok ns => exact e.outer_evaluateAll .nil ns
  | error err => rfl

theorem Reachable.outer_eq {e : Engine} (h : e.Reachable) : e.scopes.outer = .empty := by
  induction h with
  | fresh outlet callLimit => rfl
  | run source _ _ ih => rw [outer_run, ih]

theorem Reachable.carries_global {e : Engine} (h : e.Reachable)
    (hv : e.scopes.global.get? x = some v) : v.Carries Procedure.IsWritable := by
  rw [← Scopes.get?_of_outer_empty h.outer_eq] at hv
  exact h.isWritable x trivial v hv

theorem Reachable.carries_run {e : Engine} (h : e.Reachable)
    (hv : (e.run source).result = .ok v) : v.Carries Procedure.IsWritable := by
  cases hread : readAll (tokenize source) with
  | error err => simp [Engine.run, hread] at hv
  | ok ns => exact (Checked.run_eq_of_readAll h.isWritable hread).2.value v hv

end Engine

theorem Node.readAll_render {n : Node} (h : n.isWritable) :
    readAll (tokenize n.render) = .ok [n] := by
  rw [readAll_of_read_ok (read_render h), readAll]
  rfl

theorem Engine.run_render {f : Procedure} (h : f.IsWritable) (e : Engine) :
    e.run (Node.defn f.name f.parameters f.body).render =
      ⟨.ok (.function f), [.declared f.name f.parameters e.scopes.depth], ⟨1, 0, 1, 1⟩,
        { e with scopes := e.scopes.set f.name (.function f) }⟩ := by
  rw [run, Node.readAll_render h]
  rfl

/-- Between runs only the global scope is live, and every function that can be found in it or in the
value of a run was declared in a text. So its declaration can be printed and run again, on any
engine. -/
theorem run_printed_declaration {e e' : Engine} (he : e.Reachable) (he' : e'.Reachable)
    {f : Procedure}
    (hf : (∃ x v, e.scopes.global.get? x = some v ∧ f ∈ v.functions) ∨
      ∃ source v, (e.run source).result = .ok v ∧ f ∈ v.functions) :
    ∃ printed, (Node.defn f.name f.parameters f.body).print? = some printed ∧
      ∃ v, (e'.run printed).result = .ok v ∧ v.same (.function f) ∧
        (e'.run printed).engine.scopes.global.get? f.name = some v := by
  have hwritable : f.IsWritable := by
    obtain ⟨x, v, hv, hmem⟩ | ⟨source, v, hv, hmem⟩ := hf
    · exact he.carries_global hv f hmem
    · exact he.carries_run hv f hmem
  refine ⟨_, Node.print?_of_isWritable hwritable, .function f, ?_⟩
  rw [Engine.run_render hwritable]
  refine ⟨rfl, (Value.same_iff _ _).2 rfl, ?_⟩
  have houter : (e'.scopes.set f.name (.function f)).outer = .empty := he'.outer_eq
  rw [← Scopes.get?_of_outer_empty houter, Scopes.get?_set, if_pos rfl]

theorem run_printed_declaration_in_list :
    let f : Procedure := ⟨"f", ["p", "p"], .cond (.identifier "p") (.text "a b") (.number 7)⟩
    let v : Value := .list [.number 1, .list [.function f]]
    let source := "(defn f [p p] (if p \"a b\" - -7)) (define f (list 1 (list f))) (m)"
    let e := ((Engine.fresh .working 0).run source).engine
    let e' := Engine.fresh (.broken "gone") 0
    let printed := "(defn f [p p] (if p \"a b\" 7))"
    (e.Reachable ∧ e'.Reachable ∧ e.scopes.global.get? "f" = some v ∧ f ∈ v.functions) ∧
      (Node.defn f.name f.parameters f.body).print? = some printed ∧
      ∃ w, (e'.run printed).result = .ok w ∧ w.same (.function f) ∧
        (e'.run printed).engine.scopes.global.get? "f" = some w := by
  -- the name is bound to a list by now, by a run that failed in the end
  intro f v source e e' printed
  have hread : readAll (tokenize source) = .ok [.defn f.name f.parameters f.body,
      .call "define" [.identifier "f", .list [.number 1, .list [.identifier "f"]]],
      .call "m" []] := by decide +kernel
  have he : e.Reachable := by
    apply Engine.Reachable.run _ (.fresh .working 0)
    rw [Engine.run, hread]
    decide
  have he' : e'.Reachable := .fresh (.broken "gone") 0
  have hv : e.scopes.global.get? "f" = some v := by
    simp only [e, Engine.run, hread]
    rfl
  have hmem : f ∈ v.functions := by decide
  have hprinted : (Node.defn f.name f.parameters f.body).print? = some printed := by decide
  obtain ⟨printed', hprint, hrun⟩ := run_printed_declaration he he' (.inl ⟨"f", v, hv, hmem⟩)
  obtain rfl : printed = printed' := Option.some.inj (hprinted.symm.trans hprint)
  exact ⟨⟨he, he', hv, hmem⟩, hprinted, hrun⟩

end Lisplet
