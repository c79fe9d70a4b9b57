import Lisplet.Text.Format

namespace Lisplet

/-- A tree built by hand may have a hole where a part should be; the trees that are read from text
have none. -/
inductive Node
  | missing
  | number (value : Int64)
  | boolean (value : Bool)
  | text (content : String)
  | identifier (name : String)
  | list (elements : List Node)
  | call (name : String) (arguments : List Node)
  | cond (test onTrue onFalse : Node)
  | defn (name : String) (parameters : List String) (body : Node)
  deriving Inhabited

namespace Node

mutual

def same : Node → Node → Bool
  | .missing, .missing => true
  | .number a, .number b => a == b
  | .boolean a, .boolean b => a == b
  | .text a, .text b => a == b
  | .identifier a, .identifier b => a == b
  | .list as, .list bs => sameAll as bs
  | .call f as, .call g bs => f == g && sameAll as bs
  | .cond a b c, .cond x y z => same a x && same b y && same c z
  | .defn f ps a, .defn g qs b => f == g && ps == qs && same a b
  | _, _ => false

def sameAll : List Node → List Node → Bool
  | [], [] => true
  | a :: as, b :: bs => same a b && sameAll as bs
  | _, _ => false

end

instance : BEq Node := ⟨same⟩

mutual

def copy : Node → Node
  | .list as => .list (copyAll as)
  | .call f as => .call f (copyAll as)
  | .cond a b c => .cond (copy a) (copy b) (copy c)
  | .defn f ps a => .defn f ps (copy a)
  | n => n

def copyAll : List Node → List Node
  | [] => []
  | a :: as => copy a :: copyAll as

end

mutual

def isComplete : Node → Bool
  | .missing => false
  | .list as => allComplete as
  | .call _ as => allComplete as
  | .cond a b c => isComplete a && isComplete b && isComplete c
  | .defn _ _ a => isComplete a
  | _ => true

def allComplete : List Node → Bool
  | [] => true
  | a :: as => isComplete a && allComplete as

end

mutual

theorem same_iff : ∀ a b : Node, a.same b ↔ a = b
  | a, b => by cases a <;> cases b <;> simp [same, same_iff, sameAll_iff, and_assoc]

theorem sameAll_iff : ∀ as bs : List Node, sameAll as bs ↔ as = bs
  | [], bs => by cases bs <;> simp [sameAll]
  | a :: as, bs => by cases bs <;> simp [sameAll, same_iff a, sameAll_iff as]

end

instance : DecidableEq Node := fun a b => decidable_of_iff _ (same_iff a b)

mutual

@[simp] theorem copy_eq : ∀ a : Node, a.copy = a
  | .list as => by simp [copy, copyAll_eq as]
  | .call f as => by simp [copy, copyAll_eq as]
  | .cond a b c => by simp [copy, copy_eq a, copy_eq b, copy_eq c]
  | .defn f ps a => by simp [copy, copy_eq a]
  | .missing => rfl
  | .number _ => rfl
  | .boolean _ => rfl
  | .text _ => rfl
  | .identifier _ => rfl

@[simp] theorem copyAll_eq : ∀ as : List Node, copyAll as = as
  | [] => rfl
  | a :: as => by simp [copyAll, copy_eq a, copyAll_eq as]

end

def spaced : List String → List Char
  | [] => []
  | w :: ws => ' ' :: w.toList ++ spaced ws

def spread : List String → List Char
  | [] => []
  | w :: ws => w.toList ++ spaced ws

mutual

def spell : Node → List Char
  | .missing => []
  | .number n => Text.signed n
  | .boolean b => (toString b).toList
  | .text s => '"' :: s.toList ++ ['"']
  | .identifier x => x.toList
  | .list as => '(' :: "list".toList ++ spellEach as ++ [')']
  | .call f as => '(' :: f.toList ++ spellEach as ++ [')']
  | .cond a b c => '(' :: "if".toList ++ ' ' :: spell a ++ ' ' :: spell b ++ ' ' :: spell c ++ [')']
  | .defn f ps a =>
    '(' :: "defn".toList ++ ' ' :: f.toList ++ ' ' :: '[' :: spread ps ++ ']' :: ' ' :: spell a ++
      [')']

def spellEach : List Node → List Char
  | [] => []
  | a :: as => ' ' :: spell a ++ spellEach as

end

def render (n : Node) : String := String.ofList (spell n)

def print? (n : Node) : Option String :=
  if n.isComplete then some n.render else none

end Node

end Lisplet
