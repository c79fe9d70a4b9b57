import Lisplet.Proofs.Functions
import Mathlib.Data.List.Induction
import Mathlib.Data.List.Infix
import Mathlib.Data.List.Nodup

/-!
The scopes told from their history. Whatever is done to them, which scopes are live and what a name
means in them follows from the operations alone: from the pushes that no later pop undoes, and from
what was written last while each of them was the newest.
-/

namespace Lisplet

inductive Operation
  | set (x : String) (v : Value)
  | push (bindings : List (String × Value))
  | pop
  deriving DecidableEq

def Operation.isPush : Operation → Bool
  | .push _ => true
  | _ => false

namespace Scopes

def perform (s : Scopes) : Operation → Except Underflow Unit × Scopes
  | .set x v => (.ok (), s.set x v)
  | .push bs => (.ok (), s.push (.ofList bs))
  | .pop =>
    match s.pop with
    | .ok s' => (.ok (), s')
    | .error e => (.error e, s)

def performAll (s : Scopes) (ops : List Operation) : Scopes :=
  ops.foldl (fun s op => (s.perform op).2) s

theorem performAll_append (s : Scopes) (ops ops' : List Operation) :
    s.performAll (ops ++ ops') = (s.performAll ops).performAll ops' := List.foldl_append

def toList (s : Scopes) : List Scope := s.inner :: s.outer.toList

theorem toList_injective {s t : Scopes} (h : s.toList = t.toList) : s = t := by
  obtain ⟨inner, ⟨outer⟩⟩ := s
  obtain ⟨inner', ⟨outer'⟩⟩ := t
  simp_all [toList]

theorem get?_eq_findSome? (s : Scopes) (x : String) :
    s.get? x = s.toList.findSome? fun scope => scope.get? x := by
  rw [get?, toList, List.findSome?_cons]
  cases s.inner.get? x <;> rfl

theorem toList_perform_set (s : Scopes) (x : String) (v : Value) :
    (s.perform (.set x v)).2.toList = s.inner.set x v :: s.outer.toList := rfl

theorem toList_perform_push (s : Scopes) (bs : List (String × Value)) :
    (s.perform (.push bs)).2.toList = .ofList bs :: s.toList := rfl

theorem toList_perform_pop (s : Scopes) :
    (s.perform .pop).2.toList = if s.outer.toList = [] then s.toList else s.outer.toList := by
  obtain ⟨inner, ⟨outer⟩⟩ := s
  cases outer <;> rfl

theorem perform_pop_fails_iff (s : Scopes) :
    (s.perform .pop).1 = .error .underflow ↔ s.outer.toList = [] := by
  obtain ⟨inner, ⟨outer⟩⟩ := s
  cases outer <;> simp [perform, pop, Stack.pop]

end Scopes

namespace History

def level : List Operation → Int
  | [] => 0
  | .set _ _ :: ops => level ops
  | .push _ :: ops => level ops + 1
  | .pop :: ops => level ops - 1

/-- No scope from before these operations is popped by them. -/
def StaysAbove (ops : List Operation) : Prop := ∀ p, p <+: ops → 0 ≤ level p

structure Matches (ops : List Operation) (i j : Nat) : Prop where
  push : ops[i]?.any Operation.isPush
  pop : ops[j]? = some .pop
  lt : i < j
  above : StaysAbove ((ops.take j).drop (i + 1))
  level : level ((ops.take j).drop (i + 1)) = 0

def Live (ops : List Operation) (i : Nat) : Prop :=
  ops[i]?.any Operation.isPush ∧ ∀ j, ¬ Matches ops i j

@[simp] theorem level_append (ops ops' : List Operation) :
    level (ops ++ ops') = level ops + level ops' := by
  induction ops with
  | nil => simp [level]
  | cons op ops ih =>
    cases op <;> simp only [List.cons_append, level, ih] <;> omega

theorem staysAbove_append_singleton {ops : List Operation} {op : Operation} :
    StaysAbove (ops ++ [op]) ↔ StaysAbove ops ∧ 0 ≤ level (ops ++ [op]) := by
  simp only [StaysAbove, List.prefix_concat_iff, or_imp, forall_and, forall_eq, and_comm]

theorem StaysAbove.level_nonneg {ops : List Operation} (h : StaysAbove ops) : 0 ≤ level ops :=
  h ops List.prefix_rfl

theorem exists_pop_of_not_staysAbove {ops : List Operation} (h : ¬ StaysAbove ops) :
    ∃ p q, ops = p ++ .pop :: q ∧ StaysAbove p ∧ level p = 0 := by
  induction ops using List.reverseRecOn with
  | nil => exact absurd (by simp [StaysAbove, level]) h
  | append_singleton ops op ih =>
    by_cases hops : StaysAbove ops
    · have hnonneg := hops.level_nonneg
      rw [staysAbove_append_singleton, level_append] at h
      cases op with
      | pop =>
        simp only [hops, level, true_and] at h
        exact ⟨ops, [], rfl, hops, by omega⟩
      | _ =>
        simp only [hops, level, true_and] at h
        omega
    · obtain ⟨p, q, rfl, hp⟩ := ih hops
      exact ⟨p, q ++ [op], by simp, hp⟩

theorem live_iff {ops : List Operation} {i : Nat} :
    Live ops i ↔ ops[i]?.any Operation.isPush ∧ StaysAbove (ops.drop (i + 1)) := by
  refine and_congr_right fun hpush => ⟨fun h => ?_, fun h j hj => ?_⟩
  · by_contra hnot
    obtain ⟨p, q, hdrop, hp, hlevel⟩ := exists_pop_of_not_staysAbove hnot
    have hbetween : (ops.take (i + 1 + p.length)).drop (i + 1) = p := by
      rw [List.drop_take, hdrop, Nat.add_sub_cancel_left, List.take_left]
    apply h (i + 1 + p.length)
    refine ⟨hpush, ?_, by omega, by rwa [hbetween], by rwa [hbetween]⟩
    rw [← List.getElem?_drop, hdrop, List.getElem?_append_right (Nat.le_refl _), Nat.sub_self]
    rfl
  · -- the pop that matches takes the level below zero
    have htake : ops.take (j + 1) = ops.take j ++ [.pop] := by rw [List.take_add_one, hj.pop]; rfl
    have hlength : i + 1 ≤ (ops.take j).length := by
      have := (List.getElem?_eq_some_iff.1 hj.pop).1
      have := hj.lt
      rw [List.length_take]
      omega
    have hprefix : (ops.take j).drop (i + 1) ++ [.pop] <+: ops.drop (i + 1) := by
      rw [← List.drop_append_of_le_length hlength, ← htake, List.drop_take]
      exact List.take_prefix _ _
    have hlevel := h _ hprefix
    rw [level_append, hj.level] at hlevel
    simp [level] at hlevel

instance (ops : List Operation) : Decidable (StaysAbove ops) :=
  decidable_of_iff (ops.inits.all (0 ≤ level ·)) (by simp [StaysAbove])

instance (ops : List Operation) (i : Nat) : Decidable (Live ops i) :=
  decidable_of_iff (ops[i]?.any Operation.isPush ∧ StaysAbove (ops.drop (i + 1))) live_iff.symm

def live (ops : List Operation) : List Nat := (List.range ops.length).reverse.filter (Live ops ·)

theorem lt_length_of_mem_live {ops : List Operation} {i : Nat} (h : i ∈ live ops) :
    i < ops.length := by
  simp only [live, List.mem_filter, List.mem_reverse, List.mem_range] at h
  exact h.1

theorem live_eq_nil_iff {ops : List Operation} : live ops = [] ↔ ∀ i, ¬ Live ops i := by
  simp only [live, List.filter_eq_nil_iff, List.mem_reverse, List.mem_range, decide_eq_true_eq]
  refine ⟨fun h i hi => h i ?_ hi, fun h i _ => h i⟩
  by_contra hge
  simp [Live, List.getElem?_eq_none (Nat.le_of_not_lt hge)] at hi

theorem nodup_live (ops : List Operation) : (live ops).Nodup :=
  (List.nodup_reverse.2 List.nodup_range).filter _

theorem live_append_singleton_iff {ops : List Operation} {op : Operation} {i : Nat}
    (h : i < ops.length) :
    Live (ops ++ [op]) i ↔ Live ops i ∧ 0 ≤ level (ops.drop (i + 1) ++ [op]) := by
  rw [live_iff, live_iff, List.getElem?_append_left h, List.drop_append_of_le_length h,
    staysAbove_append_singleton, and_assoc]

theorem live_append_singleton (ops : List Operation) (op : Operation) :
    live (ops ++ [op]) = (if op.isPush then [ops.length] else []) ++
      (live ops).filter fun i => 0 ≤ level (ops.drop (i + 1) ++ [op]) := by
  have hnew : Live (ops ++ [op]) ops.length ↔ op.isPush := by
    simp [live_iff, StaysAbove, level]
  have hold : (List.range ops.length).reverse.filter (Live (ops ++ [op]) ·) =
      (live ops).filter fun i => 0 ≤ level (ops.drop (i + 1) ++ [op]) := by
    rw [live, List.filter_filter]
    apply List.filter_congr
    intro i hi
    have hlt : i < ops.length := by simpa using hi
    simp [live_append_singleton_iff hlt, Bool.and_comm]
  rw [live, List.length_append, List.length_singleton, List.range_succ, List.reverse_concat,
    List.filter_cons, hold]
  cases h : op.isPush <;> simp [hnew, h]

theorem live_append_of_ne_pop (ops : List Operation) (op : Operation) (h : op ≠ .pop) :
    live (ops ++ [op]) = (if op.isPush then [ops.length] else []) ++ live ops := by
  rw [live_append_singleton, List.filter_eq_self.2]
  intro i hi
  have hlive : Live ops i := by simpa using List.of_mem_filter hi
  have hnonneg := (live_iff.1 hlive).2.level_nonneg
  cases op with
  | pop => exact absurd rfl h
  | _ =>
    simp only [level_append, level, decide_eq_true_eq]
    omega

theorem live_append_set (ops : List Operation) (x : String) (v : Value) :
    live (ops ++ [.set x v]) = live ops :=
  live_append_of_ne_pop ops (.set x v) nofun

theorem live_append_push (ops : List Operation) (bs : List (String × Value)) :
    live (ops ++ [.push bs]) = ops.length :: live ops :=
  live_append_of_ne_pop ops (.push bs) nofun

theorem live_append_pop_of_levels {ops : List Operation}
    (h : ∀ m i : Nat, (live ops)[m]? = some i → level (ops.drop (i + 1)) = m) :
    live (ops ++ [.pop]) = (live ops).tail := by
  rw [live_append_singleton]
  simp only [level_append, level, Operation.isPush]
  cases hlive : live ops with
  | nil => rfl
  | cons i is =>
    have hfirst : level (ops.drop (i + 1)) = 0 := h 0 i (by simp [hlive])
    have hothers : ∀ k ∈ is, 0 < level (ops.drop (k + 1)) := by
      intro k hk
      obtain ⟨m, hm⟩ := List.getElem?_of_mem hk
      have := h (m + 1) k (by simp [hlive, hm])
      omega
    rw [List.filter_cons_of_neg (by simp [hfirst]), List.filter_eq_self.2]
    · rfl
    · intro k hk
      have := hothers k hk
      simp only [decide_eq_true_eq]
      omega

theorem level_drop_of_live {ops : List Operation} {m i : Nat} (h : (live ops)[m]? = some i) :
    level (ops.drop (i + 1)) = m := by
  induction ops using List.reverseRecOn generalizing m i with
  | nil => simp [live] at h
  | append_singleton ops op ih =>
    have hdrop : ∀ k : Nat, (live ops)[k]? = some i →
        level ((ops ++ [op]).drop (i + 1)) = k + level [op] := by
      intro k hk
      have hlt := lt_length_of_mem_live (List.mem_of_getElem? hk)
      rw [List.drop_append_of_le_length hlt, level_append, ih hk]
    cases op with
    | set x v =>
      rw [live_append_set] at h
      simpa [level] using hdrop m h
    | push bs =>
      rw [live_append_push] at h
      cases m with
      | zero =>
        obtain rfl : ops.length = i := by simpa using h
        simp [level]
      | succ m => simpa [level] using hdrop m h
    | pop =>
      rw [live_append_pop_of_levels fun _ _ => ih, List.getElem?_tail] at h
      have hlevel := hdrop (m + 1) h
      simp only [level] at hlevel
      omega

theorem live_append_pop (ops : List Operation) : live (ops ++ [.pop]) = (live ops).tail :=
  live_append_pop_of_levels fun _ _ => level_drop_of_live

end History

def Operation.written (x : String) : Operation → List Value
  | .set y v => if y = x then [v] else []
  | .push bs => bs.filterMap fun b => if b.1 = x then some b.2 else none
  | .pop => []

namespace History

/-- The live scopes from the inside out, each by the place of its push; the global one has none. -/
def places (ops : List Operation) : List (Option Nat) := (live ops).map some ++ [none]

/-- The scope that an operation at `k` writes into: a push into its own, any other into the
innermost that is live by then. -/
def target (ops : List Operation) (op : Operation) (k : Nat) : Option Nat :=
  if op.isPush then some k else (live (ops.take k)).head?

def writes (ops : List Operation) (place : Option Nat) (x : String) : List Value :=
  ops.zipIdx.flatMap fun (op, k) => if target ops op k = place then op.written x else []

def meaning (ops : List Operation) (x : String) : Option Value :=
  (places ops).findSome? fun place => (writes ops place x).getLast?

theorem writes_append_singleton (ops : List Operation) (op : Operation) (place : Option Nat)
    (x : String) :
    writes (ops ++ [op]) place x = writes ops place x ++
      if target (ops ++ [op]) op ops.length = place then op.written x else [] := by
  rw [writes, List.zipIdx_append, List.flatMap_append]
  congr 1
  · apply List.flatMap_congr
    intro (op', k) h
    have hlt : k < ops.length := (List.mem_zipIdx' h).1
    have htarget : target (ops ++ [op]) op' k = target ops op' k := by
      rw [target, target, List.take_append_of_le_length hlt.le]
    simp only [htarget]
  · simp

theorem target_append_self (ops : List Operation) (op : Operation) :
    target (ops ++ [op]) op ops.length =
      if op.isPush then some ops.length else (live ops).head? := by
  simp [target]

theorem writes_length (ops : List Operation) (x : String) :
    writes ops (some ops.length) x = [] := by
  rw [writes, List.flatMap_eq_nil_iff]
  intro (op, k) h
  have hlt : k < ops.length := (List.mem_zipIdx' h).1
  apply if_neg
  simp only [target]
  split
  · simp [hlt.ne]
  · intro hhead
    have := lt_length_of_mem_live (List.mem_of_head? hhead)
    rw [List.length_take] at this
    omega

theorem nodup_places (ops : List Operation) : (places ops).Nodup := by
  have hsome := (nodup_live ops).map (f := some) fun _ _ => Option.some.inj
  simpa [places, List.nodup_append] using hsome

theorem places_eq_cons (ops : List Operation) :
    ∃ rest, places ops = (live ops).head? :: rest ∧ (live ops).head? ∉ rest := by
  have hnodup := nodup_places ops
  cases hlive : live ops with
  | nil => exact ⟨[], by simp [places, hlive], by simp⟩
  | cons i is =>
    simp only [places, hlive, List.map_cons, List.cons_append, List.nodup_cons] at hnodup
    exact ⟨_, by simp [places, hlive], hnodup.1⟩

theorem places_append_set (ops : List Operation) (x : String) (v : Value) :
    places (ops ++ [.set x v]) = places ops := by
  rw [places, live_append_set, places]

theorem places_append_push (ops : List Operation) (bs : List (String × Value)) :
    places (ops ++ [.push bs]) = some ops.length :: places ops := by
  rw [places, live_append_push, List.map_cons, List.cons_append, places]

theorem places_append_pop (ops : List Operation) :
    places (ops ++ [.pop]) = if live ops = [] then places ops else (places ops).tail := by
  rw [places, live_append_pop, places]
  cases live ops <;> rfl

theorem length_notMem_places (ops : List Operation) : some ops.length ∉ places ops := by
  simp only [places, List.mem_append, List.mem_map, Option.some_inj, exists_eq_right,
    List.mem_singleton, reduceCtorEq, or_false]
  intro h
  exact (lt_length_of_mem_live h).false

/-- Each scope binds a name to what was written to it last in that scope. -/
def Tells (ops : List Operation) (s : Scopes) : Prop :=
  s.toList.map Scope.get? = (places ops).map fun place x => (writes ops place x).getLast?

end History

theorem Scope.get?_ofList (bs : List (String × Value)) (x : String) :
    (ofList bs).get? x = ((Operation.push bs).written x).getLast? := by
  induction bs with
  | nil => rfl
  | cons b bs ih =>
    rw [get?_ofList_cons, ih]
    by_cases h : x = b.1
    · simp [Operation.written, h, List.getLast?_cons]
    · simp [Operation.written, h, Ne.symm h]

namespace History

section

variable {ops : List Operation} {s : Scopes}

theorem writes_append_of_ne (op : Operation) {place : Option Nat}
    (h : target (ops ++ [op]) op ops.length ≠ place) (x : String) :
    writes (ops ++ [op]) place x = writes ops place x := by
  rw [writes_append_singleton, if_neg h, List.append_nil]

theorem Tells.set (h : Tells ops s) (x : String) (v : Value) :
    Tells (ops ++ [.set x v]) (s.perform (.set x v)).2 := by
  obtain ⟨rest, hplaces, hnew⟩ := places_eq_cons ops
  have htarget : target (ops ++ [.set x v]) (.set x v) ops.length = (live ops).head? :=
    target_append_self ops (.set x v)
  rw [Tells, hplaces, Scopes.toList, List.map_cons, List.map_cons, List.cons.injEq] at h
  obtain ⟨hinner, houter⟩ := h
  rw [Tells, Scopes.toList_perform_set, places_append_set, hplaces, List.map_cons, List.map_cons,
    houter, List.cons.injEq]
  constructor
  · funext y
    rw [Scope.get?_set, writes_append_singleton, htarget, if_pos rfl, List.getLast?_append, hinner,
      Operation.written]
    by_cases hy : y = x
    · simp [hy]
    · simp [hy, Ne.symm hy]
  · apply List.map_congr_left
    intro place hplace
    funext y
    have hne : place ≠ (live ops).head? := ne_of_mem_of_not_mem hplace hnew
    rw [writes_append_of_ne _ (htarget ▸ hne.symm)]

theorem Tells.push (h : Tells ops s) (bs : List (String × Value)) :
    Tells (ops ++ [.push bs]) (s.perform (.push bs)).2 := by
  have htarget : target (ops ++ [.push bs]) (.push bs) ops.length = some ops.length :=
    target_append_self ops (.push bs)
  rw [Tells, Scopes.toList_perform_push, places_append_push, List.map_cons, List.map_cons, h,
    List.cons.injEq]
  constructor
  · funext y
    rw [Scope.get?_ofList, writes_append_singleton, htarget, if_pos rfl, writes_length,
      List.nil_append]
  · apply List.map_congr_left
    intro place hplace
    funext y
    have hne : place ≠ some ops.length := ne_of_mem_of_not_mem hplace (length_notMem_places ops)
    rw [writes_append_of_ne _ (htarget ▸ hne.symm)]

theorem Tells.depth_eq (h : Tells ops s) : s.depth = (live ops).length := by
  have hlength := congrArg List.length h
  simpa [Scopes.toList, Scopes.depth, Stack.size, places] using hlength

theorem Tells.outer_eq_nil_iff (h : Tells ops s) : s.outer.toList = [] ↔ live ops = [] := by
  rw [← List.length_eq_zero_iff, ← List.length_eq_zero_iff, ← h.depth_eq]
  rfl

theorem Tells.get?_eq (h : Tells ops s) (x : String) : s.get? x = meaning ops x := by
  have hfound := congrArg (List.findSome? fun get => get x) h
  rw [List.findSome?_map, List.findSome?_map] at hfound
  rw [Scopes.get?_eq_findSome?]
  exact hfound

theorem Tells.pop (h : Tells ops s) : Tells (ops ++ [.pop]) (s.perform .pop).2 := by
  have hwrites : ∀ place x, writes (ops ++ [.pop]) place x = writes ops place x := by
    intro place x
    simp [writes_append_singleton, Operation.written]
  simp only [Tells, Scopes.toList_perform_pop, places_append_pop, hwrites, h.outer_eq_nil_iff]
  split
  · exact h
  · rw [List.map_tail, ← h]
    rfl

theorem tells_performAll (ops : List Operation) : Tells ops (Scopes.fresh.performAll ops) := by
  induction ops using List.reverseRecOn with
  | nil => rfl
  | append_singleton ops op ih =>
    rw [Scopes.performAll_append]
    cases op with
    | set x v => exact ih.set x v
    | push bs => exact ih.push bs
    | pop => exact ih.pop

end

theorem exists_toList_perform {t : Scopes} {top below : List Scope} (op : Operation)
    (h : t.toList = top ++ below) (hbefore : 0 < top.length)
    (hafter : 0 < top.length + level [op]) :
    ∃ top', (top'.length : Int) = top.length + level [op] ∧
      (t.perform op).2.toList = top' ++ below := by
  obtain _ | ⟨inner, rest⟩ := top
  · simp at hbefore
  obtain ⟨rfl, houter⟩ : t.inner = inner ∧ t.outer.toList = rest ++ below := by
    simpa [Scopes.toList] using h
  cases op with
  | set x v =>
    refine ⟨t.inner.set x v :: rest, by simp [level], ?_⟩
    rw [Scopes.toList_perform_set, houter, List.cons_append]
  | push bs =>
    refine ⟨.ofList bs :: t.inner :: rest, by simp [level], ?_⟩
    rw [Scopes.toList_perform_push, h]
    rfl
  | pop =>
    have hrest : rest ≠ [] := by
      rintro rfl
      simp [level] at hafter
    refine ⟨rest, by simp only [level, List.length_cons]; omega, ?_⟩
    rw [Scopes.toList_perform_pop, if_neg (by simp [houter, hrest]), houter]

theorem exists_toList_performAll {mid : List Operation} (h : StaysAbove mid) (s : Scopes)
    (scope : Scope) :
    ∃ top, (top.length : Int) = level mid + 1 ∧
      ((s.push scope).performAll mid).toList = top ++ s.toList := by
  induction mid using List.reverseRecOn with
  | nil => exact ⟨[scope], rfl, rfl⟩
  | append_singleton mid op ih =>
    obtain ⟨habove, hlevel⟩ := staysAbove_append_singleton.1 h
    obtain ⟨top, hlength, htop⟩ := ih habove
    have hnonneg := habove.level_nonneg
    rw [level_append] at hlevel
    obtain ⟨top', hlength', htop'⟩ :=
      exists_toList_perform op htop (by omega) (by omega)
    refine ⟨top', by rw [hlength', hlength, level_append]; omega, ?_⟩
    rw [Scopes.performAll_append]
    exact htop'

theorem performAll_push_pop {mid : List Operation} (h : StaysAbove mid) (hlevel : level mid = 0)
    (s : Scopes) (bs : List (String × Value)) :
    s.performAll (.push bs :: mid ++ [.pop]) = s := by
  obtain ⟨top, hlength, htop⟩ := exists_toList_performAll h s (.ofList bs)
  obtain ⟨inner, rfl⟩ : ∃ inner, top = [inner] := by
    apply List.length_eq_one_iff.1
    omega
  have houter : ((s.push (.ofList bs)).performAll mid).outer.toList = s.toList :=
    (List.cons.inj htop).2
  apply Scopes.toList_injective
  rw [Scopes.performAll_append]
  change (((s.push (.ofList bs)).performAll mid).perform .pop).2.toList = s.toList
  rw [Scopes.toList_perform_pop, houter, if_neg (by simp [Scopes.toList])]

end History

theorem performAll_follows_history (ops : List Operation) :
    let s := Scopes.fresh.performAll ops
    ((s.perform .pop).1 = .error .underflow ↔ ∀ i, ¬ History.Live ops i) ∧
      ((s.perform .pop).1 = .error .underflow → (s.perform .pop).2 = s) ∧
      s.depth = (History.live ops).length ∧
      (∀ x, s.get? x = History.meaning ops x) ∧
      ∀ bs mid, History.StaysAbove mid → History.level mid = 0 →
        s.performAll (.push bs :: mid ++ [.pop]) = s := by
  intro s
  have htells := History.tells_performAll ops
  refine ⟨?_, ?_, htells.depth_eq, htells.get?_eq, ?_⟩
  · rw [Scopes.perform_pop_fails_iff, htells.outer_eq_nil_iff, History.live_eq_nil_iff]
  · intro hfails
    rw [Scopes.perform_pop_fails_iff] at hfails
    apply Scopes.toList_injective
    rw [Scopes.toList_perform_pop, if_pos hfails]
  · intro bs mid habove hlevel
    exact History.performAll_push_pop habove hlevel s bs

theorem performAll_follows_history_shadowed :
    let ops : List Operation := [.pop, .set "x" (.number 1),
      .push [("x", .number 2), ("x", .number 3)], .push [], .set "x" (.number 4), .pop,
      .set "y" (.number 5)]
    let mid : List Operation := [.set "x" .nil, .push [("z", .nil)], .pop, .set "y" .nil]
    let s := Scopes.fresh.performAll ops
    (History.StaysAbove mid ∧ History.level mid = 0) ∧
      (s.perform .pop).1 ≠ .error .underflow ∧ s.depth = 1 ∧
      s.get? "x" = some (.number 3) ∧ s.get? "y" = some (.number 5) ∧ s.get? "z" = none ∧
      s.performAll (.push [("y", .nil)] :: mid ++ [.pop]) = s := by
  -- the first pop finds nothing to undo, and the second undoes the second push
  intro ops mid s
  have habove : History.StaysAbove mid := by decide
  have hlevel : History.level mid = 0 := by decide
  have hlive : History.live ops = [2] := by decide
  obtain ⟨hfails, -, hdepth, hget, hrestores⟩ := performAll_follows_history ops
  refine ⟨⟨habove, hlevel⟩, ?_, ?_, ?_, ?_, ?_, hrestores _ mid habove hlevel⟩
  · rw [Ne, hfails, ← History.live_eq_nil_iff, hlive]
    simp
  · rw [hdepth, hlive]
    rfl
  · rw [hget]
    decide
  · rw [hget]
    decide
  · rw [hget]
    decide

end Lisplet
