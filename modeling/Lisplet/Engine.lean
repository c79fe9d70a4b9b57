import Lisplet.Eval
import Lisplet.Token.Segment

namespace Lisplet

structure Tally where
  ok : Nat
  error : Nat
  eval : Nat
  parse : Nat
  deriving DecidableEq

namespace Tally

def zero : Tally := ⟨0, 0, 0, 0⟩

def add (a b : Tally) : Tally :=
  ⟨a.ok + b.ok, a.error + b.error, a.eval + b.eval, a.parse + b.parse⟩

instance : Add Tally := ⟨add⟩

@[simp] theorem ok_add (a b : Tally) : (a + b).ok = a.ok + b.ok := rfl

@[simp] theorem error_add (a b : Tally) : (a + b).error = a.error + b.error := rfl

@[simp] theorem eval_add (a b : Tally) : (a + b).eval = a.eval + b.eval := rfl

@[simp] theorem parse_add (a b : Tally) : (a + b).parse = a.parse + b.parse := rfl

end Tally

structure Engine where
  scopes : Scopes
  outlet : Outlet
  callLimit : Nat

structure Report where
  result : Except Failure Value
  trace : List Event
  tally : Tally
  engine : Engine

namespace Engine

def fresh (outlet : Outlet) (callLimit : Nat) : Engine := ⟨.fresh, outlet, callLimit⟩

def evaluate (e : Engine) (n : Node) : Report :=
  let r := eval e.callLimit n e.outlet e.scopes
  let after := { e with scopes := r.scopes }
  match r.result with
  | .ok v => ⟨.ok v, r.trace, ⟨1, 0, 1, 0⟩, after⟩
  | .error (.error err) => ⟨.error (.error err), r.trace ++ [.failed n err], ⟨0, 1, 1, 0⟩, after⟩
  | .error f => ⟨.error f, r.trace, ⟨0, 0, 1, 0⟩, after⟩

def evaluateAll (e : Engine) (last : Value) : List Node → Report
  | [] => ⟨.ok last, [], .zero, e⟩
  | n :: ns =>
    let first := e.evaluate n
    match first.result with
    | .ok v =>
      let others := first.engine.evaluateAll v ns
      { others with trace := first.trace ++ others.trace, tally := first.tally + others.tally }
    | .error _ => first

/-- Runs a program. Nothing is evaluated unless all of it can be read. -/
def run (e : Engine) (source : String) : Report :=
  match readAll (tokenize source) with
  | .ok ns =>
    let r := e.evaluateAll .nil ns
    { r with tally := ⟨0, 0, 0, 1⟩ + r.tally }
  | .error err => ⟨.error (.error (.ofSyntax err)), [], ⟨0, 0, 0, 1⟩, e⟩

end Engine

def evaluateFirst (callLimit : Nat) (source : String) : Effect Value :=
  match (read (tokenize source)).1 with
  | .ok n => eval callLimit n .working .fresh
  | .error err => ⟨.error (.error (.ofSyntax err)), .fresh, []⟩

namespace Engine

def runFile (e : Engine) (path : String) (found : Except ReadCause String) : Report :=
  let r := match found with
    | .ok source => e.run source
    | .error cause => ⟨.error (.error (.unreadable path cause)), [], .zero, e⟩
  { r with trace := .loading path :: r.trace }

end Engine

structure Finish where
  code : Nat
  output : String
  trace : List Event
  engine : Engine

def Engine.execute (e : Engine) (path : String) (found : Except ReadCause String) : Finish :=
  let r := e.runFile path found
  match r.result with
  | .ok _ => ⟨0, output r.trace, r.trace, r.engine⟩
  | .error f => ⟨1, output r.trace ++ f.text ++ "\n", r.trace ++ [.aborted path f], r.engine⟩

end Lisplet
