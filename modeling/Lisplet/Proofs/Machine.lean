import Lisplet.Proofs.CallLimit
import Lisplet.Proofs.ScopeLaws
import Mathlib.Computability.StateTransition

/-!
Evaluation in single steps. A machine keeps the part of the tree that it works on apart from what
is left to do around it, and enters a body without any limit. The evaluator does what the machine
does, as long as calls nest no deeper than the limit, and it is cut short just if they do. So an
evaluation can only go on forever by nesting calls without bound.
-/

namespace Lisplet

open StateTransition

inductive Purpose
  | list
  | primitive (op : Primitive)
  | println
  | call (f : Procedure)

inductive Frame
  | choose (onTrue onFalse : Node)
  | define (x : String)
  | argument (purpose : Purpose) (done : List Value) (rest : List Node)
  | number (op : Arithmetic) (done : List Int64) (rest : List Node)
  | leave (f : Procedure)

inductive Focus
  | node (n : Node)
  | arguments (purpose : Purpose) (done : List Value) (rest : List Node)
  | numbers (op : Arithmetic) (done : List Int64) (rest : List Node)
  | result (r : Except Failure Value)

/-- Frames are listed from the inside out. -/
structure Control where
  focus : Focus
  frames : List Frame

def Control.ret (frames : List Frame) (v : Value) : Control := ⟨.result (.ok v), frames⟩

structure Machine where
  control : Control
  scopes : Scopes
  trace : List Event

namespace Machine

def start (n : Node) (s : Scopes) : Machine := ⟨⟨.node n, []⟩, s, []⟩

def halted (e : Effect Value) : Machine := ⟨⟨.result e.result, []⟩, e.scopes, e.trace⟩

def goto (c : Control) (m : Machine) : Machine := { m with control := c }

def perform (outlet : Outlet) (x : Action α) (next : α → Control) (frames : List Frame)
    (m : Machine) : Machine :=
  let e := x outlet m.scopes
  match e.result with
  | .ok a => ⟨next a, e.scopes, m.trace ++ e.trace⟩
  | .error f => ⟨⟨.result (.error f), frames⟩, e.scopes, m.trace ++ e.trace⟩

def enter (f : Procedure) (vs : List Value) (frames : List Frame) (m : Machine) : Machine :=
  let entered := m.scopes.push (.ofList (f.parameters.zip vs))
  ⟨⟨.node f.body, .leave f :: frames⟩, entered, m.trace ++ [.entered f.name entered.depth]⟩

def leave (f : Procedure) (r : Except Failure Value) (frames : List Frame) (m : Machine) :
    Machine :=
  let left := m.scopes.pop.toOption.getD m.scopes
  ⟨⟨.result r, frames⟩, left, m.trace ++ [.left f.name left.depth]⟩

def define (outlet : Outlet) (frames : List Frame) (m : Machine) : List Node → Machine
  | [.identifier x, a] => m.goto ⟨.node a, .define x :: frames⟩
  | [target, _] => m.perform outlet (Action.fail (Eval.badTarget target)) (.ret frames) frames
  | as => m.perform outlet (Action.raise (Eval.defineCount as.length)) (.ret frames) frames

def call (outlet : Outlet) (frames : List Frame) (m : Machine) (f : String) (as : List Node) :
    Option Builtin → Machine
  | some (.arithmetic op) => m.goto ⟨.numbers op [] as, frames⟩
  | some (.primitive op) =>
    if as.length = op.arity then m.goto ⟨.arguments (.primitive op) [] as, frames⟩
    else m.perform outlet (Action.raise (op.wrongCount as.length)) (.ret frames) frames
  | some .define => m.define outlet frames as
  | some .println => m.goto ⟨.arguments .println [] as, frames⟩
  | none =>
    m.perform outlet (Eval.resolve f as.length) (fun g => ⟨.arguments (.call g) [] as, frames⟩)
      frames

def visit (outlet : Outlet) (frames : List Frame) (m : Machine) : Node → Machine
  | .missing => m.perform outlet (Action.fail .missingNode) (.ret frames) frames
  | .number n => m.goto (.ret frames (.number n))
  | .boolean b => m.goto (.ret frames (.boolean b))
  | .text s => m.goto (.ret frames (.text s))
  | .identifier x =>
    m.perform outlet (Action.lookup x) (fun found => .ret frames (found.getD .nil)) frames
  | .list as => m.goto ⟨.arguments .list [] as, frames⟩
  | .cond a b c => m.goto ⟨.node a, .choose b c :: frames⟩
  | .defn f ps a => m.perform outlet (Action.declare ⟨f, ps, a⟩) (.ret frames) frames
  | .call f as => m.call outlet frames f as (Builtin.ofName? f)

def finish (outlet : Outlet) (vs : List Value) (frames : List Frame) (m : Machine) :
    Purpose → Machine
  | .list => m.goto (.ret frames (.list vs))
  | .primitive op => m.perform outlet (Action.ofExcept (op.apply vs)) (.ret frames) frames
  | .println => m.perform outlet (Eval.printLine vs) (.ret frames) frames
  | .call f => m.enter f vs frames

def total (outlet : Outlet) (op : Arithmetic) (frames : List Frame) (m : Machine) :
    List Int64 → Machine
  | [] => m.perform outlet (Action.raise op.noArguments) (.ret frames) frames
  | n :: ns => m.goto (.ret frames (.number (op.apply n ns)))

/-- A failure passes every frame, but calls are left properly. -/
def resume (outlet : Outlet) (frames : List Frame) (m : Machine) :
    Frame → Except Failure Value → Machine
  | .leave f, r => m.leave f r frames
  | .choose b c, .ok v => m.goto ⟨.node (if v.isTruthy then b else c), frames⟩
  | .define x, .ok v => m.perform outlet (Action.define x v) (.ret frames) frames
  | .argument purpose vs as, .ok v => m.goto ⟨.arguments purpose (vs ++ [v]) as, frames⟩
  | .number op ns as, .ok v =>
    m.perform outlet (Action.ofExcept (op.number v)) (fun n => ⟨.numbers op (ns ++ [n]) as, frames⟩)
      frames
  | _, .error f => m.goto ⟨.result (.error f), frames⟩

def step (outlet : Outlet) (m : Machine) : Option Machine :=
  match m.control with
  | ⟨.node n, frames⟩ => some (m.visit outlet frames n)
  | ⟨.arguments purpose vs (a :: as), frames⟩ =>
    some (m.goto ⟨.node a, .argument purpose vs as :: frames⟩)
  | ⟨.arguments purpose vs [], frames⟩ => some (m.finish outlet vs frames purpose)
  | ⟨.numbers op ns (a :: as), frames⟩ => some (m.goto ⟨.node a, .number op ns as :: frames⟩)
  | ⟨.numbers op ns [], frames⟩ => some (m.total outlet op frames ns)
  | ⟨.result r, frame :: frames⟩ => some (m.resume outlet frames frame r)
  | ⟨.result _, []⟩ => none

section

variable {outlet : Outlet} {m : Machine} {frames : List Frame}

theorem step_call {f : String} {as : List Node} (h : Builtin.ofName? f = b) (s : Scopes)
    (t : List Event) :
    step outlet ⟨⟨.node (.call f as), frames⟩, s, t⟩ =
      some (call outlet frames ⟨⟨.node (.call f as), frames⟩, s, t⟩ f as b) := by
  rw [← h]
  rfl

theorem define_count {as : List Node} (h : as.length ≠ 2) :
    m.define outlet frames as =
      m.perform outlet (Action.raise (Eval.defineCount as.length)) (.ret frames) frames := by
  unfold define
  split
  · simp at h
  · simp at h
  · rfl

theorem perform_ret (x : Action Value) :
    m.perform outlet x (.ret frames) frames =
      ⟨⟨.result (x outlet m.scopes).result, frames⟩, (x outlet m.scopes).scopes,
        m.trace ++ (x outlet m.scopes).trace⟩ := by
  rw [perform]
  cases (x outlet m.scopes).result <;> rfl

theorem scopes_perform (x : Action α) (next : α → Control) :
    (m.perform outlet x next frames).scopes = (x outlet m.scopes).scopes := by
  rw [perform]
  cases (x outlet m.scopes).result <;> rfl

theorem perform_ok {x : Action α} (next : α → Control) (h : (x outlet m.scopes).result = .ok a) :
    m.perform outlet x next frames =
      ⟨next a, (x outlet m.scopes).scopes, m.trace ++ (x outlet m.scopes).trace⟩ := by
  simp only [perform, h]

theorem perform_error {x : Action α} (next : α → Control)
    (h : (x outlet m.scopes).result = .error f) :
    m.perform outlet x next frames =
      ⟨⟨.result (.error f), frames⟩, (x outlet m.scopes).scopes,
        m.trace ++ (x outlet m.scopes).trace⟩ := by
  simp only [perform, h]

theorem perform_bind_ok {x : Action α} {f : α → Action β} (mid : α → Control) (next : β → Control)
    (h : (x outlet m.scopes).result = .ok a) :
    m.perform outlet (x >>= f) next frames =
      (m.perform outlet x mid frames).perform outlet (f a) next frames := by
  rw [perform_ok mid h]
  simp only [perform, Action.bind_ok h, List.append_assoc]

theorem perform_bind_error {x : Action α} {f : α → Action β} (mid : α → Control)
    (next : β → Control) (h : (x outlet m.scopes).result = .error e) :
    m.perform outlet (x >>= f) next frames = m.perform outlet x mid frames := by
  rw [perform_error mid h]
  simp only [perform, Action.bind_error h]

/-- From one machine to another with at most so many live calls at each step. -/
def Path (outlet : Outlet) (bound : Nat) : Machine → Machine → Prop :=
  Relation.ReflTransGen fun m m' => step outlet m = some m' ∧ m'.scopes.depth ≤ bound

theorem Path.reaches (h : Path outlet bound m m') : Reaches (step outlet) m m' :=
  Relation.ReflTransGen.mono (fun _ _ hstep => hstep.1) _ _ h

theorem Path.depth_le (h : Path outlet bound m last) (hlast : step outlet last = none)
    (hm : m.scopes.depth ≤ bound) (h' : Reaches (step outlet) m m') : m'.scopes.depth ≤ bound := by
  induction h using Relation.ReflTransGen.head_induction_on with
  | refl =>
    obtain rfl | ⟨m₁, hstep, -⟩ := Relation.ReflTransGen.cases_head h'
    · exact hm
    · rw [Option.mem_def, hlast] at hstep
      cases hstep
  | head hstep _ ih =>
    obtain rfl | ⟨m₁, hstep', hrest⟩ := Relation.ReflTransGen.cases_head h'
    · exact hm
    · obtain rfl := Option.some.inj (hstep.1.symm.trans hstep')
      exact ih hstep.2 hrest

def Exceeds (outlet : Outlet) (bound : Nat) (m : Machine) : Prop :=
  ∃ m' f, Reaches (step outlet) m m' ∧ bound < m'.scopes.depth ∧
    m'.trace.getLast? = some (.entered f m'.scopes.depth)

theorem Exceeds.of_reaches (h : Reaches (step outlet) m m') (h' : Exceeds outlet bound m') :
    Exceeds outlet bound m := by
  obtain ⟨last, f, hlast, hdepth, htrace⟩ := h'
  exact ⟨last, f, Relation.ReflTransGen.trans h hlast, hdepth, htrace⟩

end

end Machine

namespace Action

def Basic (x : Action α) : Prop :=
  ∀ outlet s, (x outlet s).scopes.depth = s.depth ∧ (x outlet s).result ≠ .error .tooDeep

theorem basic_pure (a : α) : Basic (Pure.pure a : Action α) := fun _ _ => ⟨rfl, nofun⟩

theorem basic_fail {f : Failure} (h : f ≠ .tooDeep) : Basic (fail f : Action α) :=
  fun _ _ => ⟨rfl, fun heq => h (Except.error.inj heq)⟩

theorem basic_raise (e : Error) : Basic (raise e : Action α) := basic_fail nofun

theorem basic_ofExcept (r : Except Error α) : Basic (ofExcept r) := by
  cases r with
  | ok a => exact basic_pure a
  | error e => exact basic_raise e

theorem basic_lookup (x : String) : Basic (lookup x) := fun _ _ => ⟨rfl, nofun⟩

theorem basic_define (x : String) (v : Value) : Basic (define x v) := fun _ _ => ⟨rfl, nofun⟩

theorem basic_declare (f : Procedure) : Basic (declare f) := fun _ _ => ⟨rfl, nofun⟩

theorem basic_print (line : String) : Basic (print line) := by
  intro outlet s
  cases outlet <;> exact ⟨rfl, nofun⟩

theorem Basic.bind {x : Action α} {f : α → Action β} (hx : x.Basic) (hf : ∀ a, (f a).Basic) :
    (x >>= f).Basic := by
  intro outlet s
  obtain ⟨hdepth, hshallow⟩ := hx outlet s
  cases hr : (x outlet s).result with
  | error e =>
    rw [bind_error hr]
    exact ⟨hdepth, by simpa [hr] using hshallow⟩
  | ok a =>
    rw [bind_ok hr]
    obtain ⟨hdepth', hshallow'⟩ := hf a outlet (x outlet s).scopes
    exact ⟨hdepth'.trans hdepth, hshallow'⟩

end Action

namespace Eval

open Lisplet.Action

theorem basic_resolve (f : String) (count : Nat) : Basic (resolve f count) := by
  apply (basic_lookup f).bind
  intro found
  split
  · exact basic_raise _
  · split
    · exact basic_pure _
    · exact basic_raise _
  · exact basic_raise _

theorem basic_printLine (vs : List Value) : Basic (printLine vs) :=
  (basic_print _).bind fun _ => basic_pure _

end Eval

/-- The machine does the action from the control on: it goes on as `next` says with the value and
leaves `frames` to a failure, and no more than `limit` further calls are live at a time. If the
action is cut short, then the machine enters one call more. -/
structure Simulates (outlet : Outlet) (limit : Nat) (x : Action α) (c : Control)
    (next : α → Control) (frames : List Frame) : Prop where
  depth : ∀ s, (x outlet s).scopes.depth = s.depth
  path : ∀ s t, (x outlet s).result ≠ .error .tooDeep →
    Machine.Path outlet (s.depth + limit) ⟨c, s, t⟩
      (Machine.perform outlet x next frames ⟨c, s, t⟩)
  exceeds : ∀ s t, (x outlet s).result = .error .tooDeep →
    Machine.Exceeds outlet (s.depth + limit) ⟨c, s, t⟩

namespace Simulates

open Machine

variable {outlet : Outlet} {limit : Nat} {c c' : Control} {frames : List Frame} {frame : Frame}

theorem pure {next : α → Control} {a : α} (h : c = next a) :
    Simulates outlet limit (Pure.pure a) c next frames where
  depth _ := rfl
  path s t _ := by
    rw [perform_ok next rfl, Action.pure_def, Action.pure, List.append_nil, h]
    exact Relation.ReflTransGen.refl
  exceeds _ _ h := nomatch h

theorem perform {x : Action α} {next : α → Control} (hx : x.Basic)
    (hstep : ∀ s t, step outlet ⟨c, s, t⟩ = some (Machine.perform outlet x next frames ⟨c, s, t⟩)) :
    Simulates outlet limit x c next frames where
  depth s := (hx outlet s).1
  path s t _ := by
    refine .single ⟨hstep s t, ?_⟩
    rw [scopes_perform, (hx outlet s).1]
    exact Nat.le_add_right _ _
  exceeds s t h := absurd h (hx outlet s).2

theorem head {x : Action α} {next : α → Control}
    (hstep : ∀ s t, step outlet ⟨c, s, t⟩ = some ⟨c', s, t⟩)
    (h : Simulates outlet limit x c' next frames) : Simulates outlet limit x c next frames where
  depth := h.depth
  path s t hne := .head ⟨hstep s t, Nat.le_add_right _ _⟩ (h.path s t hne)
  exceeds s t heq := .of_reaches (.single (hstep s t)) (h.exceeds s t heq)

theorem unwind {x : Action α} {next : α → Control}
    (hstep : ∀ f s t, step outlet ⟨⟨.result (.error f), frame :: frames⟩, s, t⟩ =
      some ⟨⟨.result (.error f), frames⟩, s, t⟩)
    (h : Simulates outlet limit x c next (frame :: frames)) :
    Simulates outlet limit x c next frames where
  depth := h.depth
  path s t hne := by
    have hpath := h.path s t hne
    cases hr : (x outlet s).result with
    | ok a =>
      rw [perform_ok next hr] at hpath ⊢
      exact hpath
    | error f =>
      rw [perform_error next hr] at hpath ⊢
      refine hpath.tail ⟨hstep f _ _, ?_⟩
      rw [h.depth]
      exact Nat.le_add_right _ _
  exceeds := h.exceeds

theorem bind {x : Action α} {f : α → Action β} {mid : α → Control} {next : β → Control}
    (hx : Simulates outlet limit x c mid frames)
    (hf : ∀ a, Simulates outlet limit (f a) (mid a) next frames) :
    Simulates outlet limit (x >>= f) c next frames where
  depth s := by
    cases hr : (x outlet s).result with
    | error e =>
      rw [Action.bind_error hr]
      exact hx.depth s
    | ok a =>
      rw [Action.bind_ok hr]
      exact ((hf a).depth _).trans (hx.depth s)
  path s t hne := by
    cases hr : (x outlet s).result with
    | error e =>
      rw [Action.bind_error hr] at hne
      rw [perform_bind_error mid next hr]
      exact hx.path s t (by simpa [hr] using hne)
    | ok a =>
      rw [Action.bind_ok hr] at hne
      have hfirst := hx.path s t (by simp [hr])
      have hsecond := (hf a).path (x outlet s).scopes (t ++ (x outlet s).trace) hne
      rw [perform_bind_ok mid next hr]
      rw [hx.depth] at hsecond
      rw [perform_ok mid hr] at hfirst ⊢
      exact hfirst.trans hsecond
  exceeds s t h := by
    cases hr : (x outlet s).result with
    | error e =>
      rw [Action.bind_error hr] at h
      exact hx.exceeds s t (by simpa [hr] using h)
    | ok a =>
      rw [Action.bind_ok hr] at h
      have hfirst := hx.path s t (by simp [hr])
      have hsecond := (hf a).exceeds (x outlet s).scopes (t ++ (x outlet s).trace) h
      rw [hx.depth] at hsecond
      rw [perform_ok mid hr] at hfirst
      exact .of_reaches hfirst.reaches hsecond

theorem part {x : Action Value} {f : Value → Action α} {next : α → Control}
    (hstep : ∀ s t, step outlet ⟨c, s, t⟩ = some ⟨⟨.node a, frame :: frames⟩, s, t⟩)
    (hunwind : ∀ f s t, step outlet ⟨⟨.result (.error f), frame :: frames⟩, s, t⟩ =
      some ⟨⟨.result (.error f), frames⟩, s, t⟩)
    (hx : Simulates outlet limit x ⟨.node a, frame :: frames⟩ (.ret (frame :: frames))
      (frame :: frames))
    (hf : ∀ v, Simulates outlet limit (f v) (.ret (frame :: frames) v) next frames) :
    Simulates outlet limit (x >>= f) c next frames :=
  .bind (.head hstep (.unwind hunwind hx)) hf

theorem within {f : Procedure} {body : Action Value} (vs : List Value)
    (h : Simulates outlet limit body ⟨.node f.body, .leave f :: frames⟩ (.ret (.leave f :: frames))
      (.leave f :: frames)) :
    Simulates outlet (limit + 1) (Action.within f vs body) ⟨.arguments (.call f) vs [], frames⟩
      (.ret frames) frames where
  depth s := Scopes.depth_popped (h.depth _)
  path s t hne := by
    let inside := body outlet (s.push (.ofList (f.parameters.zip vs)))
    have hbody := h.path (s.push (.ofList (f.parameters.zip vs)))
      (t ++ [.entered f.name (s.depth + 1)]) hne
    rw [Scopes.depth_push, Nat.add_right_comm, perform_ret] at hbody
    have hleave : step outlet ⟨⟨.result inside.result, .leave f :: frames⟩, inside.scopes,
        t ++ [.entered f.name (s.depth + 1)] ++ inside.trace⟩ =
        some (Machine.perform outlet (Action.within f vs body) (.ret frames) frames
          ⟨⟨.arguments (.call f) vs [], frames⟩, s, t⟩) := by
      simp [step, resume, leave, perform_ret, Action.within, inside]
    have hdepth : (Action.within f vs body outlet s).scopes.depth = s.depth :=
      Scopes.depth_popped (h.depth _)
    -- the body runs between the step that enters the call and the one that leaves it
    refine .head ⟨rfl, ?_⟩ (hbody.tail ⟨hleave, ?_⟩)
    · exact Nat.add_le_add_left (Nat.le_add_left 1 limit) s.depth
    · rw [scopes_perform, hdepth]
      exact Nat.le_add_right _ (limit + 1)
  exceeds s t heq := by
    have hbody := h.exceeds (s.push (.ofList (f.parameters.zip vs)))
      (t ++ [.entered f.name (s.depth + 1)]) heq
    rw [Scopes.depth_push, Nat.add_right_comm] at hbody
    exact .of_reaches (.single rfl) hbody

end Simulates

namespace Eval

def CallsSimulated (outlet : Outlet) (limit : Nat) (call : Procedure → List Value → Action Value) :
    Prop :=
  ∀ f vs frames, Simulates outlet limit (call f vs) ⟨.arguments (.call f) vs [], frames⟩
    (.ret frames) frames

variable {outlet : Outlet} {limit : Nat} {call : Procedure → List Value → Action Value}

mutual

theorem simulates_evalWith (hcall : CallsSimulated outlet limit call) :
    ∀ (n : Node) (frames : List Frame),
      Simulates outlet limit (evalWith call n) ⟨.node n, frames⟩ (.ret frames) frames
  | .missing, _ => .perform (Action.basic_fail nofun) fun _ _ => rfl
  | .number _, _ => .head (fun _ _ => rfl) (.pure rfl)
  | .boolean _, _ => .head (fun _ _ => rfl) (.pure rfl)
  | .text _, _ => .head (fun _ _ => rfl) (.pure rfl)
  | .identifier x, _ =>
    .bind (.perform (Action.basic_lookup x) fun _ _ => rfl) fun _ => .pure rfl
  | .list as, frames => by
    apply Simulates.bind (.head (fun _ _ => rfl) (simulates_evalAll hcall .list [] as frames))
    intro vs
    exact .head (fun _ _ => rfl) (.pure rfl)
  | .cond a b c, frames => by
    apply Simulates.part (fun _ _ => rfl) (fun _ _ _ => rfl) (simulates_evalWith hcall a _)
    intro v
    apply Simulates.head (fun _ _ => rfl)
    split
    · exact simulates_evalWith hcall b frames
    · exact simulates_evalWith hcall c frames
  | .defn _ _ _, _ => .perform (Action.basic_declare _) fun _ _ => rfl
  | .call f as, frames => by
    cases hf : Builtin.ofName? f with
    | none =>
      rw [evalWith_user hf]
      apply Simulates.bind (.perform (basic_resolve f as.length) (Machine.step_call hf))
      intro g
      exact .bind (simulates_evalAll hcall (.call g) [] as frames) fun vs => hcall g vs frames
    | some b =>
      cases b with
      | arithmetic op =>
        rw [evalWith_arithmetic hf]
        apply Simulates.bind
          (.head (Machine.step_call hf) (simulates_evalNumbers hcall op [] as frames))
        intro ns
        cases ns with
        | nil => exact .perform (Action.basic_raise _) fun _ _ => rfl
        | cons n ns => exact .head (fun _ _ => rfl) (.pure rfl)
      | primitive op =>
        rw [evalWith_primitive hf]
        by_cases hlen : as.length = op.arity
        · rw [if_pos hlen]
          apply Simulates.bind (.head (fun s t => ?_)
            (simulates_evalAll hcall (.primitive op) [] as frames))
          · intro vs
            exact .perform (Action.basic_ofExcept _) fun _ _ => rfl
          · rw [Machine.step_call hf, Machine.call, if_pos hlen]
            rfl
        · rw [if_neg hlen]
          refine .perform (Action.basic_raise _) fun s t => ?_
          rw [Machine.step_call hf, Machine.call, if_neg hlen]
      | define =>
        rw [evalWith_define hf]
        split
        · rename_i x a
          apply Simulates.part (Machine.step_call hf) (fun _ _ _ => rfl)
            (simulates_evalWith hcall a _)
          intro v
          exact .perform (Action.basic_define x v) fun _ _ => rfl
        · rename_i target _ hne
          cases target with
          | identifier x => exact (hne x rfl).elim
          | _ => exact .perform (Action.basic_fail (badTarget_ne_tooDeep _)) (Machine.step_call hf)
        · rename_i hne
          have hcount : as.length ≠ 2 := by
            intro hcount
            obtain ⟨a, b, rfl⟩ := List.length_eq_two.1 hcount
            exact hne a b rfl
          refine .perform (Action.basic_raise _) fun s t => ?_
          rw [Machine.step_call hf, Machine.call, Machine.define_count hcount]
      | println =>
        rw [evalWith_println hf]
        apply Simulates.bind
          (.head (Machine.step_call hf) (simulates_evalAll hcall .println [] as frames))
        intro vs
        exact .perform (basic_printLine vs) fun _ _ => rfl

theorem simulates_evalAll (hcall : CallsSimulated outlet limit call) (purpose : Purpose)
    (done : List Value) : ∀ (as : List Node) (frames : List Frame),
      Simulates outlet limit (evalAll call as) ⟨.arguments purpose done as, frames⟩
        (fun vs => ⟨.arguments purpose (done ++ vs) [], frames⟩) frames
  | [], _ => .pure (by rw [List.append_nil])
  | a :: as, frames => by
    apply Simulates.part (fun _ _ => rfl) (fun _ _ _ => rfl) (simulates_evalWith hcall a _)
    intro v
    apply Simulates.bind
      (.head (fun _ _ => rfl) (simulates_evalAll hcall purpose (done ++ [v]) as frames))
    intro vs
    exact .pure (by rw [List.append_assoc, List.singleton_append])

theorem simulates_evalNumbers (hcall : CallsSimulated outlet limit call) (op : Arithmetic)
    (done : List Int64) : ∀ (as : List Node) (frames : List Frame),
      Simulates outlet limit (evalNumbers call op as) ⟨.numbers op done as, frames⟩
        (fun ns => ⟨.numbers op (done ++ ns) [], frames⟩) frames
  | [], _ => .pure (by rw [List.append_nil])
  | a :: as, frames => by
    apply Simulates.part (fun _ _ => rfl) (fun _ _ _ => rfl) (simulates_evalWith hcall a _)
    intro v
    apply Simulates.bind (.perform (Action.basic_ofExcept _) fun _ _ => rfl)
    intro n
    apply Simulates.bind (simulates_evalNumbers hcall op (done ++ [n]) as frames)
    intro ns
    exact .pure (by rw [List.append_assoc, List.singleton_append])

end

theorem callsSimulated_apply (outlet : Outlet) (limit : Nat) :
    CallsSimulated outlet limit (apply limit) := by
  induction limit with
  | zero =>
    intro f vs frames
    refine ⟨fun _ => rfl, fun _ _ hne => absurd rfl hne, fun s t _ => ?_⟩
    -- the machine enters the call at which the evaluator gives up
    exact ⟨_, f.name, .single rfl, Nat.lt_succ_self s.depth, List.getLast?_concat⟩
  | succ limit ih =>
    intro f vs frames
    exact .within vs (simulates_evalWith ih f.body _)

end Eval

theorem simulates_eval (outlet : Outlet) (limit : Nat) (n : Node) (frames : List Frame) :
    Simulates outlet limit (eval limit n) ⟨.node n, frames⟩ (.ret frames) frames :=
  Eval.simulates_evalWith (Eval.callsSimulated_apply outlet limit) n frames

namespace Machine

variable {n : Node} {outlet : Outlet} {s : Scopes}

theorem path_eval (h : (eval limit n outlet s).result ≠ .error .tooDeep) :
    Path outlet (s.depth + limit) (start n s) (halted (eval limit n outlet s)) := by
  have hpath := (simulates_eval outlet limit n []).path s [] h
  rw [perform_ret] at hpath
  exact hpath

theorem tooDeep_iff_exceeds :
    (eval limit n outlet s).result = .error .tooDeep ↔
      Exceeds outlet (s.depth + limit) (start n s) := by
  refine ⟨(simulates_eval outlet limit n []).exceeds s [], ?_⟩
  rintro ⟨m, -, hm, hdepth, -⟩
  by_contra hne
  have hle := (path_eval hne).depth_le rfl (Nat.le_add_right _ _) hm
  exact hle.not_gt hdepth

theorem exists_depth_le {m last : Machine} (h : last ∈ StateTransition.eval (step outlet) m) :
    ∃ D, ∀ m', Reaches (step outlet) m m' → m'.scopes.depth ≤ D := by
  obtain ⟨hrun, hlast⟩ := mem_eval.1 h
  induction hrun using Relation.ReflTransGen.head_induction_on with
  | refl =>
    refine ⟨last.scopes.depth, fun m' hm' => ?_⟩
    rw [(eval_maximal (mem_eval.2 ⟨.refl, hlast⟩)).1 hm']
  | @head m₁ m₂ hstep hrun ih =>
    obtain ⟨D, hD⟩ := ih (mem_eval.2 ⟨hrun, hlast⟩)
    refine ⟨max m₁.scopes.depth D, fun m' hm' => ?_⟩
    obtain rfl | ⟨m₃, hstep', hrest⟩ := Relation.ReflTransGen.cases_head hm'
    · exact le_max_left _ _
    · obtain rfl := Option.mem_unique hstep hstep'
      exact (hD m' hrest).trans (le_max_right _ _)

theorem exceeds_of_not_ends (h : ¬ ∃ e, Ends n outlet s e) (D : Nat) :
    Exceeds outlet D (start n s) := by
  have htooDeep : (eval D n outlet s).result = .error .tooDeep := by
    by_contra hne
    exact h ⟨_, D, rfl, hne⟩
  obtain ⟨m, f, hm, hdepth, htrace⟩ := tooDeep_iff_exceeds.1 htooDeep
  exact ⟨m, f, hm, by omega, htrace⟩

theorem exists_ends_of_depth_le
    (h : ∀ m, Reaches (step outlet) (start n s) m → m.scopes.depth ≤ D) :
    ∃ e, Ends n outlet s e := by
  by_contra hends
  obtain ⟨m, -, hm, hdepth, -⟩ := exceeds_of_not_ends hends D
  exact (h m hm).not_gt hdepth

theorem mem_eval_of_ends (h : Ends n outlet s e) :
    halted e ∈ StateTransition.eval (step outlet) (start n s) := by
  obtain ⟨limit, rfl, hne⟩ := h
  exact mem_eval.2 ⟨(path_eval hne).reaches, rfl⟩

theorem mem_eval_iff_ends {m : Machine} :
    m ∈ StateTransition.eval (step outlet) (start n s) ↔ ∃ e, Ends n outlet s e ∧ m = halted e := by
  constructor
  · intro h
    -- a run that halts is finite, so that some limit is high enough for it
    obtain ⟨D, hD⟩ := exists_depth_le h
    obtain ⟨e, he⟩ := exists_ends_of_depth_le hD
    exact ⟨e, he, Part.mem_unique h (mem_eval_of_ends he)⟩
  · rintro ⟨e, he, rfl⟩
    exact mem_eval_of_ends he

end Machine

theorem Ends.result_cases (h : Ends n outlet s e) :
    (∃ v, e.result = .ok v) ∨ (∃ err, e.result = .error (.error err)) ∨
      e.result = .error .missingNode := by
  obtain ⟨limit, -, hne⟩ := h
  cases hr : e.result with
  | ok v => exact .inl ⟨v, rfl⟩
  | error f =>
    cases f with
    | error err => exact .inr (.inl ⟨err, rfl⟩)
    | missingNode => exact .inr (.inr rfl)
    | tooDeep => exact absurd hr hne

open Machine in
theorem ends_of_bounded_depth (n : Node) (outlet : Outlet) (s : Scopes) :
    (∀ m, m ∈ StateTransition.eval (step outlet) (start n s) ↔
      ∃ e, Ends n outlet s e ∧ m = halted e) ∧
    (∀ D, (∀ m, Reaches (step outlet) (start n s) m → m.scopes.depth ≤ D) →
      ∃ e, Ends n outlet s e ∧ ((∃ v, e.result = .ok v) ∨ (∃ err, e.result = .error (.error err)) ∨
        e.result = .error .missingNode)) ∧
    ((∀ m, Reaches (step outlet) (start n s) m → ∃ m', step outlet m = some m') →
      ∀ D, ∃ m f, Reaches (step outlet) (start n s) m ∧ D < m.scopes.depth ∧
        m.trace.getLast? = some (.entered f m.scopes.depth)) ∧
    ((∀ m, Reaches (step outlet) (start n s) m → ∀ f d, .entered f d ∉ m.trace) →
      ∃ e, Ends n outlet s e) := by
  refine ⟨fun m => mem_eval_iff_ends, fun D hD => ?_, fun hforever D => ?_, fun hnone => ?_⟩
  · obtain ⟨e, he⟩ := exists_ends_of_depth_le hD
    exact ⟨e, he, he.result_cases⟩
  · apply exceeds_of_not_ends
    rintro ⟨e, he⟩
    obtain ⟨hlast, hhalts⟩ := mem_eval.1 (mem_eval_of_ends he)
    obtain ⟨m', hstep⟩ := hforever (halted e) hlast
    rw [hhalts] at hstep
    cases hstep
  · by_contra hends
    obtain ⟨m, f, hm, -, htrace⟩ := exceeds_of_not_ends hends 0
    exact hnone m hm f m.scopes.depth (List.mem_of_getLast? htrace)

open Machine in
theorem ends_of_bounded_depth_recursive :
    let f : Procedure := ⟨"f", ["l"], .cond (.call "is-empty" [.identifier "l"]) (.text "done")
      (.call "f" [.call "cdr" [.identifier "l"]])⟩
    let g : Procedure := ⟨"g", [], .call "g" []⟩
    let s : Scopes := ⟨.ofList [("f", .function f), ("g", .function g)], .empty⟩
    let n : Node := .call "f" [.list [.number 1]]
    ((∀ m, Reaches (step .working) (start n s) m → m.scopes.depth ≤ 2) ∧
      ∃ e, Ends n .working s e ∧ ((∃ v, e.result = .ok v) ∨
        (∃ err, e.result = .error (.error err)) ∨ e.result = .error .missingNode)) ∧
    (∀ m, Reaches (step .working) (start g.body s) m → ∃ m', step .working m = some m') ∧
      ∀ D, ∃ m name, Reaches (step .working) (start g.body s) m ∧ D < m.scopes.depth ∧
        m.trace.getLast? = some (.entered name m.scopes.depth) := by
  -- the first function calls itself on ever shorter lists, the second without end
  intro f g s n
  have hresult : (eval 2 n .working s).result = .ok (.text "done") := rfl
  have hends : (eval 2 n .working s).result ≠ .error .tooDeep := by
    rw [hresult]
    nofun
  have hbound : ∀ m, Reaches (step .working) (start n s) m → m.scopes.depth ≤ 2 :=
    fun m hm => (path_eval hends).depth_le rfl (Nat.zero_le 2) hm
  have hresolve {s : Scopes} (hs : s.get? "g" = some (.function g)) :
      Eval.resolve "g" 0 .working s = ⟨.ok g, s, []⟩ := by
    rw [Eval.resolve, Action.bind_ok rfl, hs]
    rfl
  -- between two calls the machine is where the arguments, of which there are none, are evaluated
  have hinv : ∀ m, Reaches (step .working) (start g.body s) m →
      m.scopes.get? "g" = some (.function g) ∧
        (m.control.focus = .node g.body ∨ m.control.focus = .arguments (.call g) [] []) := by
    intro m hm
    induction hm with
    | refl => exact ⟨rfl, .inl rfl⟩
    | @tail m m' _ hstep ih =>
      obtain ⟨⟨focus, frames⟩, scopes, trace⟩ := m
      obtain ⟨hs, rfl | rfl⟩ := ih
      · obtain rfl : perform .working (Eval.resolve "g" 0) _ frames _ = m' := Option.some.inj hstep
        rw [scopes_perform, perform_ok _ (congrArg Effect.result (hresolve hs)), hresolve hs]
        exact ⟨hs, .inr rfl⟩
      · obtain rfl : enter g [] frames _ = m' := Option.some.inj hstep
        exact ⟨(Scopes.get?_push scopes _ "g").trans hs, .inl rfl⟩
  have hforever : ∀ m, Reaches (step .working) (start g.body s) m →
      ∃ m', step .working m = some m' := by
    intro m hm
    obtain ⟨⟨focus, frames⟩, scopes, trace⟩ := m
    obtain ⟨-, rfl | rfl⟩ := hinv _ hm
    · exact ⟨_, rfl⟩
    · exact ⟨_, rfl⟩
  obtain ⟨-, hbounded, -, -⟩ := ends_of_bounded_depth n .working s
  obtain ⟨-, -, hunbounded, -⟩ := ends_of_bounded_depth g.body .working s
  exact ⟨⟨hbound, hbounded 2 hbound⟩, hforever, hunbounded hforever⟩

end Lisplet
