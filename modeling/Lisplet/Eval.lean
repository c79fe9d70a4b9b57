import Lisplet.Action
import Lisplet.Builtin

/-!
Evaluation of trees. Every argument is evaluated from left to right, and the first failure ends
the evaluation. The evaluator is a recursion on the tree; calls of the user's functions, whose
bodies are no part of the tree, are left to a parameter, which is then tied to a limit on how
deeply calls may nest.
-/

namespace Lisplet

namespace Eval

def resolve (name : String) (count : Nat) : Action Procedure := do
  match ← Action.lookup name with
  | none => Action.raise (.undefinedFunction name)
  | some (.function f) =>
    if f.arity = count then return f
    else Action.raise (.tooFewArguments (f.name ++ " expects " ++ Text.natural f.arity ++
      " arguments, got " ++ Text.natural count))
  | some _ => Action.raise (.notAFunction name)

def printLine (vs : List Value) : Action Value := do
  Action.print (String.ofList (Value.displayLine vs))
  return .list vs

def defineCount (count : Nat) : Error :=
  .argument ("define expects 2 arguments, got " ++ Text.natural count)

def badTarget (target : Node) : Failure :=
  match target.print? with
  | some printed => .error (.argument ("define expects an identifier, got " ++ printed))
  | none => .missingNode

mutual

def evalWith (call : Procedure → List Value → Action Value) : Node → Action Value
  | .missing => Action.fail .missingNode
  | .number n => return .number n
  | .boolean b => return .boolean b
  | .text s => return .text s
  | .identifier x => do return (← Action.lookup x).getD .nil
  | .list as => do return .list (← evalAll call as)
  | .cond a b c => do
    if (← evalWith call a).isTruthy then evalWith call b else evalWith call c
  | .defn f ps a => Action.declare ⟨f, ps, a⟩
  | .call f as =>
    match Builtin.ofName? f with
    | some (.arithmetic op) => do
      match ← evalNumbers call op as with
      | [] => Action.raise op.noArguments
      | n :: ns => return .number (op.apply n ns)
    | some (.primitive op) =>
      if as.length = op.arity then do
        Action.ofExcept (op.apply (← evalAll call as))
      else Action.raise (op.wrongCount as.length)
    | some .define =>
      match as with
      | [.identifier x, a] => do Action.define x (← evalWith call a)
      | [target, _] => Action.fail (badTarget target)
      | _ => Action.raise (defineCount as.length)
    | some .println => do printLine (← evalAll call as)
    | none => do
      let g ← resolve f as.length
      call g (← evalAll call as)

def evalAll (call : Procedure → List Value → Action Value) : List Node → Action (List Value)
  | [] => return []
  | a :: as => do
    let v ← evalWith call a
    let vs ← evalAll call as
    return v :: vs

/-- Each value is checked before the next argument is evaluated. -/
def evalNumbers (call : Procedure → List Value → Action Value) (op : Arithmetic) :
    List Node → Action (List Int64)
  | [] => return []
  | a :: as => do
    let n ← Action.ofExcept (op.number (← evalWith call a))
    let ns ← evalNumbers call op as
    return n :: ns

end

def apply : Nat → Procedure → List Value → Action Value
  | 0, _, _ => Action.fail .tooDeep
  | limit + 1, f, vs => Action.within f vs (evalWith (apply limit) f.body)

end Eval

def eval (limit : Nat) (n : Node) : Action Value := Eval.evalWith (Eval.apply limit) n

end Lisplet
