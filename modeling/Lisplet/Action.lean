import Lisplet.Event
import Lisplet.Scopes

namespace Lisplet

inductive Outlet
  | working
  | broken (reason : String)
  deriving DecidableEq

structure Effect (α : Type) where
  result : Except Failure α
  scopes : Scopes
  trace : List Event

def Action (α : Type) := Outlet → Scopes → Effect α

namespace Action

def pure (a : α) : Action α := fun _ s => ⟨.ok a, s, []⟩

/-- A failure ends the action; the scopes and events up to it are kept. -/
def bind (x : Action α) (f : α → Action β) : Action β := fun outlet s =>
  let first := x outlet s
  match first.result with
  | .ok a =>
    let second := f a outlet first.scopes
    { second with trace := first.trace ++ second.trace }
  | .error e => ⟨.error e, first.scopes, first.trace⟩

instance : Monad Action where
  pure := pure
  bind := bind

def fail (f : Failure) : Action α := fun _ s => ⟨.error f, s, []⟩

def raise (e : Error) : Action α := fail (.error e)

def ofExcept : Except Error α → Action α
  | .ok a => pure a
  | .error e => raise e

def lookup (x : String) : Action (Option Value) := fun _ s => ⟨.ok (s.get? x), s, []⟩

def define (x : String) (v : Value) : Action Value := fun _ s =>
  let s' := s.set x v
  ⟨.ok v, s', [.defined x v s'.depth]⟩

def declare (f : Procedure) : Action Value := fun _ s =>
  let s' := s.set f.name (.function f)
  ⟨.ok (.function f), s', [.declared f.name f.parameters s'.depth]⟩

def print (line : String) : Action Unit := fun outlet s =>
  match outlet with
  | .working => ⟨.ok (), s, [.printed line]⟩
  | .broken reason => ⟨.ok (), s, [.unprinted reason]⟩

/-- Runs a body in a scope of its own that binds the parameters. The scope is dropped at the
end, however the body ends. -/
def within (f : Procedure) (vs : List Value) (body : Action Value) : Action Value := fun outlet s =>
  let entered := s.push (.ofList (f.parameters.zip vs))
  let inside := body outlet entered
  let left := inside.scopes.pop.toOption.getD inside.scopes
  ⟨inside.result, left,
    .entered f.name entered.depth :: inside.trace ++ [.left f.name left.depth]⟩

theorem pure_def (a : α) : (Pure.pure a : Action α) = pure a := rfl

theorem bind_def (x : Action α) (f : α → Action β) : x >>= f = bind x f := rfl

end Action

end Lisplet
