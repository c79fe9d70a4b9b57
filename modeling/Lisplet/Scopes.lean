import Lisplet.Stack
import Lisplet.Value

namespace Lisplet

structure Scope where
  bindings : List (String × Value)

namespace Scope

def empty : Scope := ⟨[]⟩

def find (x : String) : List (String × Value) → Option Value
  | [] => none
  | (y, v) :: bs => if x = y then some v else find x bs

def put (x : String) (v : Value) : List (String × Value) → List (String × Value)
  | [] => [(x, v)]
  | (y, w) :: bs => if x = y then (x, v) :: bs else (y, w) :: put x v bs

def get? (s : Scope) (x : String) : Option Value := find x s.bindings

def set (s : Scope) (x : String) (v : Value) : Scope := ⟨put x v s.bindings⟩

def size (s : Scope) : Nat := s.bindings.length

/-- Binds in order, so that of two bindings of a name the last one counts. -/
def ofList (bs : List (String × Value)) : Scope :=
  bs.foldl (fun s b => s.set b.1 b.2) empty

theorem find_put (x y : String) (v : Value) (bs : List (String × Value)) :
    find y (put x v bs) = if y = x then some v else find y bs := by
  induction bs with
  | nil => rfl
  | cons b bs ih =>
    by_cases hx : x = b.1
    · by_cases hy : y = b.1 <;> simp [put, find, hx, hy]
    · by_cases hy : y = b.1
      · simp [put, find, hx, hy, Ne.symm hx]
      · simp [put, find, hx, hy, ih]

@[simp] theorem get?_set (s : Scope) (x y : String) (v : Value) :
    (s.set x v).get? y = if y = x then some v else s.get? y :=
  find_put x y v s.bindings

@[simp] theorem get?_empty (x : String) : empty.get? x = none := rfl

end Scope

/-- The outermost scope is the global one, and each other one belongs to a call that is open. -/
structure Scopes where
  inner : Scope
  outer : Stack Scope

namespace Scopes

def fresh : Scopes := ⟨.empty, .empty⟩

def depth (s : Scopes) : Nat := s.outer.size

def set (s : Scopes) (x : String) (v : Value) : Scopes := { s with inner := s.inner.set x v }

def get? (s : Scopes) (x : String) : Option Value :=
  (s.inner.get? x).or (s.outer.toList.findSome? fun scope => scope.get? x)

def push (s : Scopes) (scope : Scope) : Scopes := ⟨scope, s.outer.push s.inner⟩

def pop (s : Scopes) : Except Underflow Scopes :=
  match s.outer.pop with
  | .ok (scope, rest) => .ok ⟨scope, rest⟩
  | .error e => .error e

@[simp] theorem depth_push (s : Scopes) (scope : Scope) : (s.push scope).depth = s.depth + 1 := rfl

@[simp] theorem depth_set (s : Scopes) (x : String) (v : Value) : (s.set x v).depth = s.depth := rfl

@[simp] theorem pop_push (s : Scopes) (scope : Scope) : (s.push scope).pop = .ok s := rfl

theorem get?_push (s : Scopes) (scope : Scope) (x : String) :
    (s.push scope).get? x = (scope.get? x).or (s.get? x) := by
  cases h : s.inner.get? x <;> simp [get?, push, h]

theorem get?_set (s : Scopes) (x y : String) (v : Value) :
    (s.set x v).get? y = if y = x then some v else s.get? y := by
  by_cases h : y = x <;> simp [get?, set, h]

end Scopes

end Lisplet
