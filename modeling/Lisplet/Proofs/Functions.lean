import Lisplet.Proofs.ScopeLaws
import Mathlib.Data.Set.Defs

namespace Lisplet

namespace Value

mutual

def functions : Value → List Procedure
  | .list vs => functionsAll vs
  | .function f => [f]
  | _ => []

def functionsAll : List Value → List Procedure
  | [] => []
  | v :: vs => functions v ++ functionsAll vs

end

def Carries (P : Procedure → Prop) (v : Value) : Prop := ∀ f ∈ v.functions, P f

section

variable {P : Procedure → Prop}

@[simp] theorem carries_number (n : Int64) : (number n).Carries P := by simp [Carries, functions]

@[simp] theorem carries_text (s : String) : (text s).Carries P := by simp [Carries, functions]

@[simp] theorem carries_boolean (b : Bool) : (boolean b).Carries P := by simp [Carries, functions]

@[simp] theorem carries_nil : nil.Carries P := by simp [Carries, functions]

@[simp] theorem carries_function {f : Procedure} : (function f).Carries P ↔ P f := by
  simp [Carries, functions]

theorem functionsAll_eq (vs : List Value) : functionsAll vs = vs.flatMap functions := by
  induction vs with
  | nil => rfl
  | cons v vs ih => rw [functionsAll, ih, List.flatMap_cons]

@[simp] theorem carries_list {vs : List Value} : (list vs).Carries P ↔ ∀ v ∈ vs, v.Carries P := by
  simp only [Carries, functions, functionsAll_eq, List.mem_flatMap]
  exact ⟨fun h v hv f hf => h f ⟨v, hv, hf⟩, fun h f ⟨v, hv, hf⟩ => h v hv f hf⟩

end

end Value

namespace Primitive

theorem eq_list_of_bind_items {op : Primitive} {w : Value} {f : List Value → Value} {v : Value}
    (h : (do return f (← op.items w)) = Except.ok v) : ∃ vs, w = .list vs ∧ f vs = v := by
  cases w with
  | list vs => exact ⟨vs, rfl, Except.ok.inj h⟩
  | _ => cases h

theorem carries_apply {op : Primitive} {P : Procedure → Prop} {vs : List Value} {v : Value}
    (hvs : ∀ w ∈ vs, w.Carries P) (h : op.apply vs = .ok v) : v.Carries P := by
  unfold apply at h
  split at h
  · obtain ⟨ws, rfl, rfl⟩ := eq_list_of_bind_items h
    cases ws with
    | nil => exact Value.carries_nil
    | cons w ws => exact Value.carries_list.1 (hvs _ List.mem_cons_self) w List.mem_cons_self
  · obtain ⟨ws, rfl, rfl⟩ := eq_list_of_bind_items h
    have hws := Value.carries_list.1 (hvs _ List.mem_cons_self)
    exact Value.carries_list.2 fun w hw => hws w (List.mem_of_mem_tail hw)
  · obtain ⟨ws, rfl, rfl⟩ := eq_list_of_bind_items h
    exact Value.carries_boolean _
  · obtain rfl := Except.ok.inj h
    exact Value.carries_boolean _
  · obtain ⟨ws, rfl, rfl⟩ := eq_list_of_bind_items h
    simpa [or_imp, forall_and] using hvs
  · obtain ⟨ws, rfl, rfl⟩ := eq_list_of_bind_items h
    simpa [and_comm] using hvs
  · cases h

end Primitive

namespace Scope

theorem get?_ofList_cons (b : String × Value) (bs : List (String × Value)) (x : String) :
    (ofList (b :: bs)).get? x = ((ofList bs).get? x).or (if x = b.1 then some b.2 else none) :=
  (get?_update (empty.set b.1 b.2) bs x).trans (by rw [get?_set, get?_empty])

theorem mem_of_get?_ofList {bs : List (String × Value)} {x : String} {v : Value}
    (h : (ofList bs).get? x = some v) : (x, v) ∈ bs := by
  induction bs with
  | nil => simp [ofList] at h
  | cons b bs ih =>
    rw [get?_ofList_cons, Option.or_eq_some_iff] at h
    obtain h | ⟨-, h⟩ := h
    · exact List.mem_cons_of_mem b (ih h)
    · obtain ⟨rfl, rfl⟩ : x = b.1 ∧ b.2 = v := by simpa using h
      exact List.mem_cons_self

end Scope

namespace Scopes

theorem get?_update (s : Scopes) (bs : List (String × Value)) (x : String) :
    (s.update bs).get? x = ((Scope.ofList bs).get? x).or (s.get? x) := by
  simp only [get?, update, Scope.get?_update, Option.or_assoc]

/-- Every function within reach of the names has the property. -/
def Carries (N : Set String) (P : Procedure → Prop) (s : Scopes) : Prop :=
  ∀ x ∈ N, ∀ v, s.get? x = some v → v.Carries P

theorem carries_fresh (N : Set String) (P : Procedure → Prop) : fresh.Carries N P := by
  intro x _ v h
  simp [fresh, get?] at h

variable {N : Set String} {P : Procedure → Prop} {s : Scopes} {bs : List (String × Value)}

theorem Carries.extend {t : Scopes} (h : s.Carries N P) (hbs : ∀ b ∈ bs, b.2.Carries P)
    (ht : ∀ x, t.get? x = ((Scope.ofList bs).get? x).or (s.get? x)) : t.Carries N P := by
  intro x hx v hv
  rw [ht, Option.or_eq_some_iff] at hv
  obtain hv | ⟨-, hv⟩ := hv
  · exact hbs _ (Scope.mem_of_get?_ofList hv)
  · exact h x hx v hv

theorem Carries.update (h : s.Carries N P) (hbs : ∀ b ∈ bs, b.2.Carries P) :
    (s.update bs).Carries N P :=
  h.extend hbs (s.get?_update bs)

theorem Carries.push (h : s.Carries N P) (hbs : ∀ b ∈ bs, b.2.Carries P) :
    (s.push (.ofList bs)).Carries N P :=
  h.extend hbs (s.get?_push (.ofList bs))

end Scopes

theorem carries_of_mem_zip {P : Procedure → Prop} (ps : List String) {vs : List Value}
    (h : ∀ v ∈ vs, v.Carries P) : ∀ b ∈ ps.zip vs, b.2.Carries P :=
  fun _ hb => h _ (List.of_mem_zip hb).2

end Lisplet
