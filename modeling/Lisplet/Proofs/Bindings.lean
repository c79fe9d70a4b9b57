import Lisplet.Proofs.Sessions

namespace Lisplet

namespace Event

def bindsAt (d : Nat) : Event → Bool
  | .declared _ _ depth => depth = d
  | .defined _ _ depth => depth = d
  | _ => false

/-- What is bound when there is such an event. A declaration is told without the body. -/
inductive Tells : Event → String × Value → Prop
  | defined : Tells (.defined x v d) (x, v)
  | declared (f : Procedure) : Tells (.declared f.name f.parameters d) (f.name, .function f)

end Event

/-- The bindings are those that the events tell of, in order, while so many calls are open. -/
def Told (d : Nat) (trace : List Event) (bs : List (String × Value)) : Prop :=
  List.Forall₂ Event.Tells (trace.filter (·.bindsAt d)) bs

namespace Told

theorem append (h : Told d trace bs) (h' : Told d trace' bs') :
    Told d (trace ++ trace') (bs ++ bs') := by
  rw [Told, List.filter_append]
  exact List.rel_append h h'

theorem of_silent (h : ∀ ev ∈ trace, ev.bindsAt d = false) : Told d trace [] := by
  rw [Told, List.filter_eq_nil_iff.2 fun ev hev => by simp [h ev hev]]
  exact .nil

end Told

structure Effect.Tells (s : Scopes) (e : Effect α) : Prop where
  told : ∃ bs, e.scopes = s.update bs ∧ Told s.depth e.trace bs
  inner : ∀ d < s.depth, ∀ ev ∈ e.trace, ev.bindsAt d = false

namespace Effect

variable (r : Except Failure α) (s : Scopes)

theorem tells_of_silent {events : List Event} (h : ∀ d, ∀ ev ∈ events, ev.bindsAt d = false) :
    Tells s ⟨r, s, events⟩ :=
  ⟨⟨[], rfl, .of_silent (h s.depth)⟩, fun d _ => h d⟩

theorem tells_set {ev : Event} (h : ev.Tells (x, v)) (hdepth : ∀ d, ev.bindsAt d ↔ s.depth = d) :
    Tells s ⟨r, s.set x v, [ev]⟩ := by
  refine ⟨⟨[(x, v)], rfl, ?_⟩, ?_⟩
  · rw [Told, List.filter_cons_of_pos ((hdepth _).2 rfl)]
    exact .cons h .nil
  · intro d hd ev' hev'
    obtain rfl := List.mem_singleton.1 hev'
    exact Bool.eq_false_iff.2 fun hbinds => hd.ne' ((hdepth d).1 hbinds)

end Effect

namespace Action

def Tells (x : Action α) : Prop := ∀ outlet s, (x outlet s).Tells s

theorem Tells.bind {x : Action α} {f : α → Action β} (hx : x.Tells) (hf : ∀ a, (f a).Tells) :
    (x >>= f).Tells := by
  intro outlet s
  obtain ⟨⟨bs, hscopes, htold⟩, hinner⟩ := hx outlet s
  cases hr : (x outlet s).result with
  | error e =>
    rw [bind_error hr]
    exact ⟨⟨bs, hscopes, htold⟩, hinner⟩
  | ok a =>
    rw [bind_ok hr, hscopes]
    obtain ⟨⟨cs, hscopes', htold'⟩, hinner'⟩ := hf a outlet (s.update bs)
    refine ⟨⟨bs ++ cs, ?_, htold.append htold'⟩, ?_⟩
    · rw [Scopes.update_append]
      exact hscopes'
    · intro d hd
      exact List.forall_mem_append.2 ⟨hinner d hd, hinner' d hd⟩

theorem tells_congruence : Congruence fun {_} x _ => Tells x where
  pure a _ s := Effect.tells_of_silent (.ok a) s fun _ => List.forall_mem_nil _
  fail f _ s := Effect.tells_of_silent (.error f) s fun _ => List.forall_mem_nil _
  lookup x _ s := Effect.tells_of_silent (.ok (s.get? x)) s fun _ => List.forall_mem_nil _
  define x v _ s := Effect.tells_set (.ok v) s .defined fun _ => decide_eq_true_iff
  declare f _ s := Effect.tells_set (.ok _) s (.declared f) fun _ => decide_eq_true_iff
  print line outlet s := by
    cases outlet <;> exact Effect.tells_of_silent _ s (by simp [Event.bindsAt])
  bind := .bind

theorem Tells.within {body : Action Value} (h : body.Tells) (f : Procedure) (vs : List Value) :
    (within f vs body).Tells := by
  intro outlet s
  obtain ⟨⟨bs, hscopes, -⟩, hinner⟩ := h outlet (s.push (.ofList (f.parameters.zip vs)))
  simp only [Action.within, hscopes, Scopes.update_push, Scopes.pop_push]
  -- the body runs one call deeper, so none of its events is about the caller's scope
  have hsilent : ∀ d ≤ s.depth, ∀ ev ∈ Event.entered f.name
      (s.push (.ofList (f.parameters.zip vs))).depth ::
        (body outlet (s.push (.ofList (f.parameters.zip vs)))).trace ++ [.left f.name s.depth],
      ev.bindsAt d = false := by
    intro d hd ev hev
    simp only [List.cons_append, List.mem_cons, List.mem_append, List.not_mem_nil, or_false] at hev
    obtain rfl | hev | rfl := hev
    · rfl
    · exact hinner d (Nat.lt_succ_of_le hd) ev hev
    · rfl
  exact ⟨⟨[], rfl, .of_silent (hsilent s.depth (Nat.le_refl _))⟩,
    fun d hd => hsilent d (Nat.le_of_lt hd)⟩

end Action

theorem Eval.tells_apply (limit : Nat) (f : Procedure) (vs : List Value) :
    (apply limit f vs).Tells := by
  induction limit generalizing f vs with
  | zero => exact Action.tells_congruence.fail .tooDeep
  | succ limit ih =>
    apply Action.Tells.within
    exact @evalWith_congr _ Action.tells_congruence (apply limit) (apply limit) ih f.body

theorem tells_eval (limit : Nat) (n : Node) : (eval limit n).Tells :=
  @Eval.evalWith_congr _ Action.tells_congruence (Eval.apply limit) (Eval.apply limit)
    (Eval.tells_apply limit) n

def Report.Tells (e : Engine) (r : Report) : Prop :=
  ∃ bs, r.engine = e.within (e.scopes.update bs) ∧ Told e.scopes.depth r.trace bs

namespace Engine

theorem tells_evaluate (e : Engine) (n : Node) : (e.evaluate n).Tells e := by
  obtain ⟨⟨bs, hscopes, htold⟩, -⟩ := tells_eval e.callLimit n e.outlet e.scopes
  simp only [evaluate, hscopes]
  split
  · exact ⟨bs, rfl, htold⟩
  · refine ⟨bs, rfl, ?_⟩
    rw [← List.append_nil bs]
    exact htold.append .nil
  · exact ⟨bs, rfl, htold⟩

theorem tells_evaluateAll (e : Engine) (last : Value) (ns : List Node) :
    (e.evaluateAll last ns).Tells e := by
  induction ns generalizing e last with
  | nil => exact ⟨[], rfl, .nil⟩
  | cons n ns ih =>
    obtain ⟨bs, hengine, htold⟩ := e.tells_evaluate n
    rw [evaluateAll_cons]
    cases hr : (e.evaluate n).result with
    | error f =>
      rw [Report.andThen_error hr]
      exact ⟨bs, hengine, htold⟩
    | ok v =>
      obtain ⟨cs, hengine', htold'⟩ := ih (e.evaluate n).engine v
      rw [hengine] at hengine' htold'
      refine ⟨bs ++ cs, ?_, ?_⟩
      · rw [Report.andThen_ok hr, hengine, hengine', Scopes.update_append]
        rfl
      · rw [Report.andThen_ok hr, hengine]
        exact htold.append htold'

theorem tells_run (e : Engine) (source : String) : (e.run source).Tells e := by
  rw [run]
  split
  · exact e.tells_evaluateAll .nil _
  · exact ⟨[], rfl, .nil⟩

end Engine

end Lisplet
