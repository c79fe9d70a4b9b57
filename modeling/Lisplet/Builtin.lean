import Lisplet.Error

namespace Lisplet

inductive Arithmetic
  | add
  | subtract
  deriving DecidableEq

inductive Primitive
  | car
  | cdr
  | isEmpty
  | isNil
  | append
  | prepend
  deriving DecidableEq

inductive Builtin
  | arithmetic (op : Arithmetic)
  | primitive (op : Primitive)
  | define
  | println
  deriving DecidableEq

def Builtin.ofName? : String → Option Builtin
  | "add" => some (.arithmetic .add)
  | "subtract" => some (.arithmetic .subtract)
  | "define" => some .define
  | "car" => some (.primitive .car)
  | "cdr" => some (.primitive .cdr)
  | "is-empty" => some (.primitive .isEmpty)
  | "is-nil" => some (.primitive .isNil)
  | "append" => some (.primitive .append)
  | "prepend" => some (.primitive .prepend)
  | "println" => some .println
  | _ => none

namespace Arithmetic

def name : Arithmetic → String
  | .add => "add"
  | .subtract => "subtract"

def apply : Arithmetic → Int64 → List Int64 → Int64
  | .add, n, ns => ns.foldl (· + ·) n
  | .subtract, n, ns => ns.foldl (· - ·) n

def number (op : Arithmetic) : Value → Except Error Int64
  | .number n => .ok n
  | v =>
    .error (.typeMismatch .number v.kind (op.name ++ " requires all arguments to be Numbers"))

def noArguments (op : Arithmetic) : Error :=
  .tooFewArguments (op.name ++ " requires at least one argument")

end Arithmetic

namespace Primitive

def name : Primitive → String
  | .car => "car"
  | .cdr => "cdr"
  | .isEmpty => "is-empty"
  | .isNil => "is-nil"
  | .append => "append"
  | .prepend => "prepend"

def arity : Primitive → Nat
  | .car => 1
  | .cdr => 1
  | .isEmpty => 1
  | .isNil => 1
  | .append => 2
  | .prepend => 2

def wrongCount (op : Primitive) (count : Nat) : Error :=
  .argument (op.name ++ " expects " ++ Text.natural op.arity ++ " argument(s), got " ++
    Text.natural count)

def items (op : Primitive) : Value → Except Error (List Value)
  | .list vs => .ok vs
  | v => .error (.typeMismatch .list v.kind (op.name ++ " requires a List"))

def apply : Primitive → List Value → Except Error Value
  | .car, [v] => do return (← items .car v).headD .nil
  | .cdr, [v] => do return .list (← items .cdr v).tail
  | .isEmpty, [v] => do return .boolean (← items .isEmpty v).isEmpty
  | .isNil, [v] => .ok (.boolean (v.same .nil))
  | .append, [v, w] => do return .list ((← items .append v) ++ [w])
  | .prepend, [v, w] => do return .list (w :: (← items .prepend v))
  | op, vs => .error (op.wrongCount vs.length)

end Primitive

end Lisplet
