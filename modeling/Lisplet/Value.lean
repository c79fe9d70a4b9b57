import Lisplet.Node
import Lisplet.Text.Format

namespace Lisplet

/-- A function of the user. It keeps no scope: its free names mean what they mean at a call. -/
structure Procedure where
  name : String
  parameters : List String
  body : Node
  deriving DecidableEq

namespace Procedure

def arity (f : Procedure) : Nat := f.parameters.length

def same (f g : Procedure) : Bool :=
  f.name == g.name && f.parameters == g.parameters && f.body.same g.body

def copy (f : Procedure) : Procedure := ⟨f.name, f.parameters, f.body.copy⟩

theorem same_iff (f g : Procedure) : f.same g ↔ f = g := by
  cases f
  cases g
  simp [same, Node.same_iff, and_assoc]

@[simp] theorem copy_eq (f : Procedure) : f.copy = f := by simp [copy]

end Procedure

inductive Value
  | number (value : Int64)
  | text (content : String)
  | boolean (value : Bool)
  | nil
  | list (items : List Value)
  | function (f : Procedure)
  deriving Inhabited

namespace Value

inductive Kind
  | number
  | text
  | boolean
  | list
  | function
  | nil
  | unknown (code : UInt8)
  deriving DecidableEq

def Kind.ofCode : UInt8 → Kind
  | 1 => .number
  | 2 => .text
  | 3 => .boolean
  | 4 => .list
  | 5 => .function
  | 6 => .nil
  | code => .unknown code

def Kind.label : Kind → String
  | .number => "Number"
  | .text => "String"
  | .boolean => "Boolean"
  | .list => "List"
  | .function => "Function"
  | .nil => "Nil"
  | .unknown code => "Unknown(" ++ Text.natural code.toNat ++ ")"

def kind : Value → Kind
  | .number _ => .number
  | .text _ => .text
  | .boolean _ => .boolean
  | .nil => .nil
  | .list _ => .list
  | .function _ => .function

def isTruthy : Value → Bool
  | .number n => decide (0 < n)
  | .text s => !s.isEmpty
  | .boolean b => b
  | .nil => false
  | .list vs => !vs.isEmpty
  | .function _ => true

mutual

def same : Value → Value → Bool
  | .number a, .number b => a == b
  | .text a, .text b => a == b
  | .boolean a, .boolean b => a == b
  | .nil, .nil => true
  | .list as, .list bs => sameAll as bs
  | .function f, .function g => f.same g
  | _, _ => false

def sameAll : List Value → List Value → Bool
  | [], [] => true
  | a :: as, b :: bs => same a b && sameAll as bs
  | _, _ => false

end

instance : BEq Value := ⟨same⟩

mutual

def copy : Value → Value
  | .list as => .list (copyAll as)
  | .function f => .function f.copy
  | v => v

def copyAll : List Value → List Value
  | [] => []
  | a :: as => copy a :: copyAll as

end

mutual

theorem same_iff : ∀ v w : Value, v.same w ↔ v = w
  | v, w => by cases v <;> cases w <;> simp [same, sameAll_iff, Procedure.same_iff]

theorem sameAll_iff : ∀ vs ws : List Value, sameAll vs ws ↔ vs = ws
  | [], ws => by cases ws <;> simp [sameAll]
  | v :: vs, ws => by cases ws <;> simp [sameAll, same_iff v, sameAll_iff vs]

end

instance : DecidableEq Value := fun v w => decidable_of_iff _ (same_iff v w)

mutual

@[simp] theorem copy_eq : ∀ v : Value, v.copy = v
  | .list vs => by simp [copy, copyAll_eq vs]
  | .function f => by simp [copy]
  | .number _ => rfl
  | .text _ => rfl
  | .boolean _ => rfl
  | .nil => rfl

@[simp] theorem copyAll_eq : ∀ vs : List Value, copyAll vs = vs
  | [] => rfl
  | v :: vs => by simp [copyAll, copy_eq v, copyAll_eq vs]

end

mutual

def spellDisplay : Value → List Char
  | .number n => Text.signed n
  | .text s => s.toList
  | .boolean b => (toString b).toList
  | .nil => "nil".toList
  | .list as => '(' :: displayLine as ++ [')']
  | .function f => "#<Function:".toList ++ f.name.toList ++ ['>']

def displayLine : List Value → List Char
  | [] => []
  | a :: as => spellDisplay a ++ displayEach as

def displayEach : List Value → List Char
  | [] => []
  | a :: as => ' ' :: spellDisplay a ++ displayEach as

end

def display (v : Value) : String := String.ofList (spellDisplay v)

mutual

def spellDebug : Value → List Char
  | .number n => "Number(".toList ++ Text.signed n ++ [')']
  | .text s => "String(".toList ++ Text.quote s.toList ++ [')']
  | .boolean b => "Boolean(".toList ++ (toString b).toList ++ [')']
  | .nil => "Nil".toList
  | .list as => "List([".toList ++ debugLine as ++ [']', ')']
  | .function f =>
    "Function(".toList ++ f.name.toList ++ ' ' :: '[' :: Node.spread f.parameters ++ [']', ')']

def debugLine : List Value → List Char
  | [] => []
  | a :: as => spellDebug a ++ debugEach as

def debugEach : List Value → List Char
  | [] => []
  | a :: as => ',' :: ' ' :: spellDebug a ++ debugEach as

end

def debug (v : Value) : String := String.ofList (spellDebug v)

end Value

end Lisplet
