import Lisplet.Engine

/-!
Runs in which every operation that may have no answer is checked where it is used: a tree that is
missing, an item that is out of range, a binding that is absent, a scope that is gone. A fault is
an outcome of its own, apart from the failures of a program.
-/

namespace Lisplet

inductive Fault
  | missingNode
  | outOfRange
  | absent
  | underflow

def Checked (α : Type) := Outlet → Scopes → Except Fault (Effect α)

namespace Checked

def of (x : Action α) : Checked α := fun outlet s => .ok (x outlet s)

def bind (x : Checked α) (f : α → Checked β) : Checked β := fun outlet s =>
  match x outlet s with
  | .error fault => .error fault
  | .ok first =>
    match first.result with
    | .ok a =>
      (f a outlet first.scopes).map fun second =>
        { second with trace := first.trace ++ second.trace }
    | .error e => .ok ⟨.error e, first.scopes, first.trace⟩

instance : Monad Checked where
  pure a := of (Pure.pure a)
  bind := bind

theorem bind_ok {x : Checked α} {f : α → Checked β} (hx : x outlet s = .ok first)
    (hr : first.result = .ok a) (hf : f a outlet first.scopes = .ok second) :
    (x >>= f) outlet s = .ok { second with trace := first.trace ++ second.trace } := by
  change bind x f outlet s = _
  simp only [bind, hx, hr, hf]
  rfl

theorem bind_error {x : Checked α} {f : α → Checked β} (hx : x outlet s = .ok first)
    (hr : first.result = .error e) :
    (x >>= f) outlet s = .ok ⟨.error e, first.scopes, first.trace⟩ := by
  change bind x f outlet s = _
  simp only [bind, hx, hr]

theorem pure_bind (a : α) (f : α → Checked β) : (pure a >>= f) = f a := by
  funext outlet s
  change (f a outlet s).map _ = f a outlet s
  cases f a outlet s <;> rfl

def fault (f : Fault) : Checked α := fun _ _ => .error f

def raise (e : Error) : Checked α := of (Action.raise e)

def item (as : List α) (i : Nat) : Checked α :=
  match as[i]? with
  | some a => return a
  | none => fault .outOfRange

def behindFirst : List α → Checked (List α)
  | [] => fault .outOfRange
  | _ :: as => return as

def demand : Option α → Checked α
  | some a => return a
  | none => fault .absent

def within (f : Procedure) (vs : List Value) (body : Checked Value) : Checked Value :=
  fun outlet s =>
    let entered := s.push (.ofList (f.parameters.zip vs))
    match body outlet entered with
    | .error fault => .error fault
    | .ok inside =>
      match inside.scopes.pop with
      | .error _ => .error .underflow
      | .ok left => .ok ⟨inside.result, left,
          .entered f.name entered.depth :: inside.trace ++ [.left f.name left.depth]⟩

def resolve (name : String) (count : Nat) : Checked Procedure := do
  let found ← of (Action.lookup name)
  if found.isNone then raise (.undefinedFunction name)
  else match ← demand found with
    | .function f =>
      if f.arity = count then return f
      else raise (.tooFewArguments (f.name ++ " expects " ++ Text.natural f.arity ++
        " arguments, got " ++ Text.natural count))
    | _ => raise (.notAFunction name)

def operate : Primitive → List Value → Checked Value
  | .car, vs => do
    let ws ← of (Action.ofExcept (Primitive.items .car (← item vs 0)))
    if ws.isEmpty then return .nil else item ws 0
  | .cdr, vs => do
    let ws ← of (Action.ofExcept (Primitive.items .cdr (← item vs 0)))
    if ws.isEmpty then return .list [] else return .list (← behindFirst ws)
  | .isEmpty, vs => do
    let ws ← of (Action.ofExcept (Primitive.items .isEmpty (← item vs 0)))
    return .boolean ws.isEmpty
  | .isNil, vs => do return .boolean ((← item vs 0).same .nil)
  | .append, vs => do
    let ws ← of (Action.ofExcept (Primitive.items .append (← item vs 0)))
    return .list (ws ++ [← item vs 1])
  | .prepend, vs => do
    let ws ← of (Action.ofExcept (Primitive.items .prepend (← item vs 0)))
    return .list ((← item vs 1) :: ws)

def total (op : Arithmetic) (ns : List Int64) : Checked Value := do
  if ns.isEmpty then raise op.noArguments
  else return .number (op.apply (← item ns 0) (← behindFirst ns))

def refuseTarget (target : Node) : Checked Value :=
  match target.print? with
  | some printed => raise (.argument ("define expects an identifier, got " ++ printed))
  | none => fault .missingNode

mutual

def evalWith (call : Procedure → List Value → Checked Value) : Node → Checked Value
  | .missing => fault .missingNode
  | .number n => return .number n
  | .boolean b => return .boolean b
  | .text s => return .text s
  | .identifier x => do return (← of (Action.lookup x)).getD .nil
  | .list as => do return .list (← evalAll call as)
  | .cond a b c => do
    if (← evalWith call a).isTruthy then evalWith call b else evalWith call c
  | .defn f ps a => of (Action.declare ⟨f, ps, a⟩)
  | .call f as =>
    match Builtin.ofName? f with
    | some (.arithmetic op) => do total op (← evalNumbers call op as)
    | some (.primitive op) =>
      if as.length = op.arity then do operate op (← evalAll call as)
      else raise (op.wrongCount as.length)
    | some .define =>
      match as with
      | [.identifier x, a] => do of (Action.define x (← evalWith call a))
      | [target, _] => refuseTarget target
      | _ => raise (Eval.defineCount as.length)
    | some .println => do of (Eval.printLine (← evalAll call as))
    | none => do
      let g ← resolve f as.length
      call g (← evalArguments call g.parameters as)

def evalAll (call : Procedure → List Value → Checked Value) : List Node → Checked (List Value)
  | [] => return []
  | a :: as => do
    let v ← evalWith call a
    let vs ← evalAll call as
    return v :: vs

def evalArguments (call : Procedure → List Value → Checked Value) :
    List String → List Node → Checked (List Value)
  | _, [] => return []
  | [], a :: _ => do
    let _ ← evalWith call a
    fault .outOfRange
  | _ :: ps, a :: as => do
    let v ← evalWith call a
    let vs ← evalArguments call ps as
    return v :: vs

def evalNumbers (call : Procedure → List Value → Checked Value) (op : Arithmetic) :
    List Node → Checked (List Int64)
  | [] => return []
  | a :: as => do
    let n ← of (Action.ofExcept (op.number (← evalWith call a)))
    let ns ← evalNumbers call op as
    return n :: ns

end

def apply : Nat → Procedure → List Value → Checked Value
  | 0, _, _ => of (Action.fail .tooDeep)
  | limit + 1, f, vs => within f vs (evalWith (apply limit) f.body)

def eval (limit : Nat) (n : Node) : Checked Value := evalWith (apply limit) n

/-- The log has the text of an expression that failed. -/
def evaluate (e : Engine) (n : Node) : Except Fault Report :=
  match eval e.callLimit n e.outlet e.scopes with
  | .error fault => .error fault
  | .ok r =>
    let after := { e with scopes := r.scopes }
    match r.result with
    | .ok v => .ok ⟨.ok v, r.trace, ⟨1, 0, 1, 0⟩, after⟩
    | .error (.error err) =>
      if n.print?.isNone then .error .missingNode
      else .ok ⟨.error (.error err), r.trace ++ [.failed n err], ⟨0, 1, 1, 0⟩, after⟩
    | .error f => .ok ⟨.error f, r.trace, ⟨0, 0, 1, 0⟩, after⟩

def evaluateAll (e : Engine) (last : Value) : List Node → Except Fault Report
  | [] => .ok ⟨.ok last, [], .zero, e⟩
  | n :: ns =>
    match evaluate e n with
    | .error fault => .error fault
    | .ok first =>
      match first.result with
      | .ok v =>
        (evaluateAll first.engine v ns).map fun others =>
          { others with trace := first.trace ++ others.trace, tally := first.tally + others.tally }
      | .error _ => .ok first

def run (e : Engine) (source : String) : Except Fault Report :=
  match readAll (tokenize source) with
  | .ok ns => (evaluateAll e .nil ns).map fun r => { r with tally := ⟨0, 0, 0, 1⟩ + r.tally }
  | .error err => .ok ⟨.error (.error (.ofSyntax err)), [], ⟨0, 0, 0, 1⟩, e⟩

end Checked

end Lisplet
