import Lisplet.Proofs.ScopeLaws
import Mathlib.Data.List.Forall2
import Mathlib.Data.List.Induction

namespace Lisplet

structure TellsIdentity (same : α → α → Bool) (copy : α → α) : Prop where
  same_iff : ∀ a b, same a b ↔ a = b
  equivalence : Equivalence fun a b => same a b = true
  copy_left : ∀ a b, same (copy a) b = same a b
  copy_right : ∀ a b, same a (copy b) = same a b

theorem equivalence_of_same_iff {same : α → α → Bool} (h : ∀ a b, same a b ↔ a = b) :
    Equivalence fun a b => same a b = true where
  refl a := by simp [h]
  symm := by
    intro a b hab
    rw [h] at hab ⊢
    exact hab.symm
  trans := by
    intro a b c hab hbc
    rw [h] at hab hbc ⊢
    exact hab.trans hbc

theorem TellsIdentity.of_same_iff {same : α → α → Bool} {copy : α → α}
    (hsame : ∀ a b, same a b ↔ a = b) (hcopy : ∀ a, copy a = a) : TellsIdentity same copy where
  same_iff := hsame
  equivalence := equivalence_of_same_iff hsame
  copy_left a b := by rw [hcopy]
  copy_right a b := by rw [hcopy]

namespace Value

theorem same_list_iff {vs ws : List Value} :
    (list vs).same (list ws) ↔ List.Forall₂ (fun v w => v.same w) vs ws := by
  simp only [same_iff, list.injEq, List.forall₂_eq_eq_eq]

theorem same_function_iff {f g : Procedure} : (function f).same (function g) ↔
    f.name = g.name ∧ f.parameters = g.parameters ∧ f.body.same g.body := by
  simp [same, Procedure.same, and_assoc]

theorem kind_eq_of_same {v w : Value} (h : v.same w) : v.kind = w.kind := by
  rw [(same_iff v w).1 h]

end Value

namespace Scope

def getCopy? (s : Scope) (x : String) : Option Value := (s.get? x).map Value.copy

def ofCopies (bs : List (String × Value)) : Scope := ofList (bs.map fun b => (b.1, b.2.copy))

@[simp] theorem getCopy?_eq (s : Scope) (x : String) : s.getCopy? x = s.get? x := by
  cases h : s.get? x <;> simp [getCopy?, h]

@[simp] theorem ofCopies_eq (bs : List (String × Value)) : ofCopies bs = ofList bs := by
  simp [ofCopies]

def LastBound (x : String) (v : Value) (bs : List (String × Value)) : Prop :=
  ∃ before after, bs = before ++ (x, v) :: after ∧ ∀ b ∈ after, b.1 ≠ x

theorem lastBound_append_singleton {x : String} {v : Value} {bs : List (String × Value)}
    {b : String × Value} :
    LastBound x v (bs ++ [b]) ↔ if x = b.1 then b.2 = v else LastBound x v bs := by
  constructor
  · rintro ⟨before, after, heq, hafter⟩
    -- the last binding of all is either the one in question or one of those behind it
    cases after using List.reverseRecOn with
    | nil =>
      obtain ⟨-, hlast⟩ := List.append_inj' heq rfl
      obtain rfl := List.singleton_inj.1 hlast
      simp
    | append_singleton after c =>
      rw [← List.cons_append, ← List.append_assoc] at heq
      obtain ⟨rfl, hlast⟩ := List.append_inj' heq rfl
      obtain rfl := List.singleton_inj.1 hlast
      rw [if_neg (hafter b (by simp)).symm]
      exact ⟨before, after, rfl, fun c hc => hafter c (by simp [hc])⟩
  · intro h
    by_cases hx : x = b.1
    · rw [if_pos hx] at h
      subst hx h
      exact ⟨bs, [], rfl, by simp⟩
    · rw [if_neg hx] at h
      obtain ⟨before, after, rfl, hafter⟩ := h
      refine ⟨before, after ++ [b], by simp, ?_⟩
      intro c hc
      obtain hc | rfl := by simpa using hc
      · exact hafter c hc
      · exact Ne.symm hx

theorem ofList_append_singleton (bs : List (String × Value)) (b : String × Value) :
    ofList (bs ++ [b]) = (ofList bs).set b.1 b.2 := by
  simp [ofList]

theorem update_ofList (bs cs : List (String × Value)) :
    (ofList bs).update cs = ofList (bs ++ cs) := by
  rw [ofList_eq_update, ofList_eq_update, update_append]

theorem get?_ofList_eq_some_iff {bs : List (String × Value)} {x : String} {v : Value} :
    (ofList bs).get? x = some v ↔ LastBound x v bs := by
  induction bs using List.reverseRecOn with
  | nil => simp [ofList, LastBound]
  | append_singleton bs b ih =>
    rw [ofList_append_singleton, get?_set, lastBound_append_singleton]
    split
    · exact Option.some_inj
    · exact ih

theorem exists_getCopy?_same_iff {s : Scope} {x : String} {v : Value} :
    (∃ w, s.getCopy? x = some w ∧ w.same v) ↔ s.get? x = some v := by
  simp [Value.same_iff]

end Scope

/-- The tests for trees and values tell identity, so they do not tell a copy from what was copied;
and whether a scope copies what it is made of and what it gives out makes no difference. -/
theorem same_tells_identity :
    TellsIdentity Node.same Node.copy ∧ TellsIdentity Value.same Value.copy ∧
      (∀ f g : Procedure, (Value.function f).same (.function g) ↔
        f.name = g.name ∧ f.parameters = g.parameters ∧ f.body.same g.body) ∧
      (∀ vs ws, (Value.list vs).same (.list ws) ↔ List.Forall₂ (fun v w => v.same w) vs ws) ∧
      (∀ v w : Value, v.same w → v.kind = w.kind) ∧
      (∀ (s : Scope) x, s.getCopy? x = s.get? x) ∧
      (∀ bs, Scope.ofCopies bs = Scope.ofList bs) ∧
      (∀ (s : Scope) x v, ∃ w, (s.set x v).getCopy? x = some w ∧ w.same v) ∧
      ∀ bs sets x v, (∃ w, ((Scope.ofCopies bs).update sets).getCopy? x = some w ∧ w.same v) ↔
        Scope.LastBound x v (bs ++ sets) := by
  refine ⟨.of_same_iff Node.same_iff Node.copy_eq, .of_same_iff Value.same_iff Value.copy_eq,
    fun _ _ => Value.same_function_iff, fun _ _ => Value.same_list_iff,
    fun _ _ => Value.kind_eq_of_same, Scope.getCopy?_eq, Scope.ofCopies_eq, ?_, ?_⟩
  · intro s x v
    rw [Scope.exists_getCopy?_same_iff, Scope.get?_set, if_pos rfl]
  · intro bs sets x v
    rw [Scope.exists_getCopy?_same_iff, Scope.ofCopies_eq, Scope.update_ofList,
      Scope.get?_ofList_eq_some_iff]

theorem same_tells_identity_of_stored_function :
    let f : Value := .function ⟨"f", ["x"], .cond (.identifier "x") .missing (.list [])⟩
    let g : Value := .function ⟨"f", ["x"], .cond (.identifier "x") (.list []) .missing⟩
    let s := (Scope.ofCopies [("a", .nil), ("a", .list [f, g])]).update [("b", .list [g, f])]
    (f.copy.same f ∧ f.copy.kind = f.kind) ∧ ¬(Value.list [f, g]).same (.list [g, f]) ∧
      ∃ w, s.getCopy? "a" = some w ∧ w.same (.list [f, g]) := by
  -- the bodies differ only in where they have a hole
  intro f g s
  obtain ⟨-, hvalue, -, hlist, hkind, -, -, -, hstored⟩ := same_tells_identity
  have hself : f.copy.same f := by rw [hvalue.copy_left, hvalue.same_iff]
  refine ⟨⟨hself, hkind _ _ hself⟩, ?_, ?_⟩
  · rw [hlist]
    decide
  · rw [hstored]
    exact ⟨[("a", .nil)], [("b", .list [g, f])], rfl, by decide⟩

end Lisplet
