namespace Lisplet

/-- The elements are listed from the top down. -/
structure Stack (α : Type) where
  toList : List α

inductive Underflow
  | underflow
  deriving DecidableEq

def Underflow.message (_ : Underflow) : String := "stack underflow error"

namespace Stack

def empty : Stack α := ⟨[]⟩

def size (s : Stack α) : Nat := s.toList.length

def push (s : Stack α) (a : α) : Stack α := ⟨a :: s.toList⟩

def pop (s : Stack α) : Except Underflow (α × Stack α) :=
  match s.toList with
  | [] => .error .underflow
  | a :: as => .ok (a, ⟨as⟩)

def top (s : Stack α) : Except Underflow α :=
  match s.toList with
  | [] => .error .underflow
  | a :: _ => .ok a

def visit (stop : α → Bool) (s : Stack α) : List α := upTo s.toList
where
  upTo : List α → List α
    | [] => []
    | a :: as => if stop a then [a] else a :: upTo as

@[simp] theorem toList_empty : (empty : Stack α).toList = [] := rfl

@[simp] theorem toList_push (s : Stack α) (a : α) : (s.push a).toList = a :: s.toList := rfl

@[simp] theorem size_push (s : Stack α) (a : α) : (s.push a).size = s.size + 1 := rfl

@[simp] theorem pop_push (s : Stack α) (a : α) : (s.push a).pop = .ok (a, s) := rfl

@[simp] theorem top_push (s : Stack α) (a : α) : (s.push a).top = .ok a := rfl

end Stack

end Lisplet
