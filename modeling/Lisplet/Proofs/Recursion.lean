import Lisplet.Proofs.Arithmetic
import Lisplet.Proofs.Numerals
import Lisplet.Proofs.Sessions

/-!
Recursive programs. An expression that binds nothing comes to its value by rules of its own,
whatever calls are open around it; so what a recursive function returns is shown by induction on its
argument, for all depths of calls at once. Two functions are followed from their text to their
value: one adds up a list, the other counts down from a number.
-/

namespace Lisplet

namespace Action

structure Yields (x : Action α) (outlet : Outlet) (s : Scopes) (a : α) : Prop where
  result : (x outlet s).result = .ok a
  scopes : (x outlet s).scopes = s

variable {outlet : Outlet} {s : Scopes}

theorem yields_pure (a : α) : Yields (Pure.pure a) outlet s a := ⟨rfl, rfl⟩

theorem yields_lookup (x : String) : Yields (lookup x) outlet s (s.get? x) := ⟨rfl, rfl⟩

theorem Yields.bind {x : Action α} {f : α → Action β} (hx : x.Yields outlet s a)
    (hf : (f a).Yields outlet s b) : (x >>= f).Yields outlet s b := by
  have heq := bind_ok (f := f) hx.result
  rw [hx.scopes] at heq
  exact ⟨by rw [heq, hf.result], by rw [heq, hf.scopes]⟩

end Action

theorem Primitive.ofName?_name (op : Primitive) :
    Builtin.ofName? op.name = some (.primitive op) := by
  cases op <;> rfl

namespace Eval

open Lisplet.Action

variable {call : Procedure → List Value → Action Value} {outlet : Outlet} {s : Scopes}

theorem yields_number (n : Int64) : (evalWith call (.number n)).Yields outlet s (.number n) :=
  yields_pure _

theorem yields_text (t : String) : (evalWith call (.text t)).Yields outlet s (.text t) :=
  yields_pure _

theorem yields_identifier (h : s.get? x = some v) :
    (evalWith call (.identifier x)).Yields outlet s v := by
  apply (yields_lookup x).bind
  rw [h]
  exact yields_pure v

theorem yields_nil : (evalAll call []).Yields outlet s [] := yields_pure _

theorem yields_cons (ha : (evalWith call a).Yields outlet s v)
    (has : (evalAll call as).Yields outlet s vs) :
    (evalAll call (a :: as)).Yields outlet s (v :: vs) :=
  ha.bind (has.bind (yields_pure _))

theorem yields_numbers (ns : List Int64) :
    (evalWith call (.list (ns.map .number))).Yields outlet s (.list (ns.map .number)) := by
  have heq := evalAll_numbers call ns outlet s
  have hall : (evalAll call (ns.map .number)).Yields outlet s (ns.map .number) :=
    ⟨congrArg Effect.result heq, congrArg Effect.scopes heq⟩
  exact hall.bind (yields_pure _)

theorem yields_cond (ha : (evalWith call a).Yields outlet s v)
    (hb : (if v.isTruthy then evalWith call b else evalWith call c).Yields outlet s w) :
    (evalWith call (.cond a b c)).Yields outlet s w := by
  rw [evalWith]
  exact ha.bind hb

theorem yields_primitive (op : Primitive) (has : (evalAll call as).Yields outlet s vs)
    (hcount : as.length = op.arity) (hv : op.apply vs = .ok v) :
    (evalWith call (.call op.name as)).Yields outlet s v := by
  rw [evalWith_primitive op.ofName?_name, if_pos hcount]
  apply has.bind
  rw [hv]
  exact yields_pure v

theorem yields_arithmetic (op : Arithmetic) {ns : List Int64}
    (has : (evalAll call as).Yields outlet s ((n :: ns).map .number)) :
    (evalWith call (.call op.name as)).Yields outlet s (.number (op.apply n ns)) := by
  have heq : evalWith call (.call op.name as) outlet s = _ := evalWith_arithmetic_numbers has.result
  exact ⟨by rw [heq], by rw [heq, has.scopes]⟩

theorem yields_call (has : (evalAll call as).Yields outlet s vs) (hf : Builtin.ofName? f = none)
    (hg : s.get? f = some (.function g)) (harity : g.arity = as.length)
    (hv : (call g vs).Yields outlet s v) : (evalWith call (.call f as)).Yields outlet s v := by
  have hresolve : (resolve f as.length).Yields outlet s g := by
    apply (yields_lookup f).bind
    rw [hg]
    simp only [harity, if_true]
    exact yields_pure g
  rw [evalWith_user hf]
  exact hresolve.bind (has.bind hv)

/-- A call within the limit, of a function with one parameter, returns what the body comes to where
the parameter means the argument and every other name what it means outside. -/
theorem yields_apply {p : String}
    (h : ∀ t : Scopes, (∀ x, t.get? x = if x = p then some v else s.get? x) →
      (evalWith (apply limit) body).Yields outlet t w) :
    (apply (limit + 1) ⟨f, [p], body⟩ [v]).Yields outlet s w := by
  have hinside : ∀ x, (s.push (.ofList [(p, v)])).get? x = if x = p then some v else s.get? x := by
    intro x
    rw [Scopes.get?_push, Scope.get?_ofList_cons]
    split <;> rfl
  exact ⟨(h _ hinside).result, scopes_apply (limit + 1) _ _ outlet s⟩

end Eval

section

variable {limit : Nat} {outlet : Outlet} {s : Scopes}

def sumList : Procedure :=
  ⟨"sum-list", ["l"],
    .cond (.call "is-empty" [.identifier "l"]) (.number 0)
      (.call "add" [.call "car" [.identifier "l"],
        .call "sum-list" [.call "cdr" [.identifier "l"]]])⟩

theorem isWritable_sumList : sumList.IsWritable := by
  rw [Procedure.IsWritable]
  decide +kernel

theorem yields_sumList {ns : List Int64} (h : s.get? "sum-list" = some (.function sumList))
    (hlimit : ns.length < limit) :
    (Eval.apply limit sumList [.list (ns.map .number)]).Yields outlet s (.number ns.sum) := by
  -- one call for each element and one for the end, whatever calls are open already
  induction limit generalizing ns s with
  | zero => exact absurd hlimit (Nat.not_lt_zero _)
  | succ limit ih =>
    apply Eval.yields_apply
    intro t ht
    -- the parameter hides the lists of the calls around, and the function is found behind them
    have hlist : t.get? "l" = some (.list (ns.map .number)) := ht "l"
    have hsum : t.get? "sum-list" = some (.function sumList) := (ht "sum-list").trans h
    have harg : (Eval.evalAll (Eval.apply limit) [.identifier "l"]).Yields outlet t
      [.list (ns.map .number)] := Eval.yields_cons (Eval.yields_identifier hlist) Eval.yields_nil
    apply Eval.yields_cond (Eval.yields_primitive .isEmpty harg rfl rfl)
    cases ns with
    | nil => exact Action.yields_pure _
    | cons n ns =>
      have hcar := Eval.yields_primitive .car harg rfl rfl
      have hcdr := Eval.yields_primitive .cdr harg rfl rfl
      have hrest := Eval.yields_call (Eval.yields_cons hcdr Eval.yields_nil) rfl hsum rfl
        (ih hsum (Nat.lt_of_succ_lt_succ hlimit))
      have hboth : (Eval.evalAll (Eval.apply limit) [.call "car" [.identifier "l"],
          .call "sum-list" [.call "cdr" [.identifier "l"]]]).Yields outlet t
          ([n, ns.sum].map .number) :=
        Eval.yields_cons hcar (Eval.yields_cons hrest Eval.yields_nil)
      exact Eval.yields_arithmetic .add hboth

theorem toNat_sub_one {n : Int64} (h : 0 < n) : (n - 1).toInt.toNat + 1 = n.toInt.toNat := by
  have hpos : 0 < n.toInt := Int64.lt_iff_toInt_lt.1 h
  have hlt := n.toInt_lt
  have heq : n - 1 = Int64.ofInt (n.toInt - 1) := by
    rw [Int64.ofInt_sub, Int64.ofInt_toInt]
    rfl
  rw [heq, Int64.toInt_ofInt_of_le (by omega) (by omega)]
  omega

def countDown : Procedure :=
  ⟨"count-down", ["n"],
    .cond (.identifier "n")
      (.call "count-down" [.call "subtract" [.identifier "n", .number 1]]) (.text "done")⟩

theorem isWritable_countDown : countDown.IsWritable := by
  rw [Procedure.IsWritable]
  decide +kernel

theorem yields_countDown {n : Int64} (h : s.get? "count-down" = some (.function countDown))
    (hlimit : n.toInt.toNat < limit) :
    (Eval.apply limit countDown [.number n]).Yields outlet s (.text "done") := by
  induction limit generalizing n s with
  | zero => exact absurd hlimit (Nat.not_lt_zero _)
  | succ limit ih =>
    apply Eval.yields_apply
    intro t ht
    have hnumber : t.get? "n" = some (.number n) := ht "n"
    have hself : t.get? "count-down" = some (.function countDown) := (ht "count-down").trans h
    have hn : (Eval.evalWith (Eval.apply limit) (.identifier "n")).Yields outlet t (.number n) :=
      Eval.yields_identifier hnumber
    apply Eval.yields_cond hn
    by_cases hpos : 0 < n
    · have hboth : (Eval.evalAll (Eval.apply limit) [.identifier "n", .number 1]).Yields outlet t
          ([n, 1].map .number) :=
        Eval.yields_cons hn (Eval.yields_cons (Eval.yields_number 1) Eval.yields_nil)
      have hless := Eval.yields_arithmetic .subtract hboth
      have hlt : (n - 1).toInt.toNat < limit := by
        have := toNat_sub_one hpos
        omega
      rw [if_pos (by exact decide_eq_true hpos)]
      exact Eval.yields_call (Eval.yields_cons hless Eval.yields_nil) rfl hself rfl (ih hself hlt)
    · rw [if_neg (by simpa [Value.isTruthy] using hpos)]
      exact Eval.yields_text "done"

end

theorem display_ofInt {n : Int} (hlo : -2 ^ 63 ≤ n) (hhi : n < 2 ^ 63) :
    (Value.number (Int64.ofInt n)).display = toString n := by
  have htoInt := Int64.toInt_ofInt_of_le hlo hhi
  have hdisplay : (Value.number (Int64.ofInt n)).display = Text.numeral (Int64.ofInt n) := rfl
  rw [hdisplay, Text.numeral, Text.signed, htoInt]
  cases n with
  | ofNat k => rfl
  | negSucc k =>
    rw [if_pos (Int.negSucc_lt_zero k), String.ofList_cons]
    rfl

theorem ofInt_ne_minValue {n : Int} (hlo : -2 ^ 63 < n) (hhi : n < 2 ^ 63) :
    Int64.ofInt n ≠ Int64.minValue := by
  intro h
  have htoInt := congrArg Int64.toInt h
  rw [Int64.toInt_ofInt_of_le (Int.le_of_lt hlo) hhi] at htoInt
  exact absurd hlo (by rw [htoInt]; decide)

theorem sum_ofInt (ns : List Int) : (ns.map Int64.ofInt).sum = Int64.ofInt ns.sum := by
  induction ns with
  | nil => rfl
  | cons n ns ih => rw [List.map_cons, List.sum_cons, List.sum_cons, ih, Int64.ofInt_add]

theorem Node.readAll_both {d n : Node} (hd : d.isWritable) (hn : n.isWritable) {c : Char}
    (hc : Text.isBlank c) :
    readAll (tokenize (d.render ++ String.singleton c ++ n.render)) = .ok [d, n] := by
  have hall : allWritable [d, n] := allWritable_cons.2 ⟨hd, allWritable_cons.2 ⟨hn, rfl⟩⟩
  have htokens := tokensOf_intercalate hc hall
  rw [tokenize_eq]
  simp only [render, String.toList_append, String.toList_ofList, String.toList_singleton]
  rw [List.map_cons, List.map_singleton, List.intercalate_cons_cons,
    List.intercalate_singleton] at htokens
  rw [htokens]
  exact readAll_of_derivesEach (derivesEach_tokensEach _ hall)

namespace Engine

/-- The reports on two texts, run as one with a space or a line end between them, or in turn. -/
def runBoth (e : Engine) (first second : String) : List Report :=
  [e.run (first ++ " " ++ second), e.run (first ++ "\n" ++ second),
    (e.run first).engine.run second]

theorem evaluateAll_yields {e : Engine} (h : (eval e.callLimit n).Yields e.outlet e.scopes v)
    (last : Value) :
    (e.evaluateAll last [n]).result = .ok v ∧ (e.evaluateAll last [n]).engine = e := by
  rw [evaluateAll_cons, evaluate_ok h.result, Report.andThen_ok rfl, h.scopes]
  exact ⟨rfl, rfl⟩

theorem runBoth_yields {e : Engine} {f : Procedure} (hf : f.IsWritable) (hn : n.isWritable)
    (h : (eval e.callLimit n).Yields e.outlet (e.scopes.set f.name (.function f)) v) :
    ∀ r ∈ e.runBoth (Node.defn f.name f.parameters f.body).render n.render,
      r.result = .ok v ∧ r.engine = e.within (e.scopes.set f.name (.function f)) := by
  obtain ⟨hresult, hengine⟩ :=
    evaluateAll_yields (e := e.within (e.scopes.set f.name (.function f))) h .nil
  have htogether : ∀ {c : Char}, Text.isBlank c →
      let r := e.run ((Node.defn f.name f.parameters f.body).render ++ String.singleton c ++
        n.render)
      r.result = .ok v ∧ r.engine = e.within (e.scopes.set f.name (.function f)) := by
    intro c hc r
    simp only [r, run, Node.readAll_both hf hn hc]
    exact ⟨hresult, hengine⟩
  intro r hr
  simp only [runBoth, List.mem_cons, List.not_mem_nil, or_false] at hr
  obtain rfl | rfl | rfl := hr
  · exact htogether (c := ' ') (by decide)
  · exact htogether (c := '\n') (by decide)
  · rw [run_render hf, run, Node.readAll_render hn]
    exact ⟨hresult, hengine⟩

end Engine

theorem Node.render_call_single (f : String) (a : Node) :
    (Node.call f [a]).render = "(" ++ f ++ " " ++ a.render ++ ")" := by
  apply String.toList_inj.1
  simp [render, spell, spellEach]

theorem listText_ofInt {ns : List Int} (h : ∀ n ∈ ns, -2 ^ 63 < n ∧ n < 2 ^ 63) :
    listText (ns.map Int64.ofInt) = "(" ++ " ".intercalate ("list" :: ns.map toString) ++ ")" := by
  have hdisplay : (ns.map Int64.ofInt).map (fun n => (Value.number n).display) =
      ns.map toString := by
    rw [List.map_map]
    apply List.map_congr_left
    intro n hn
    exact display_ofInt (Int.le_of_lt (h n hn).1) (h n hn).2
  rw [listText, hdisplay]

section

variable {outlet : Outlet} {limit : Nat}

theorem isSome_get?_set_fresh {f x : String} {v : Value} :
    ((Scopes.fresh.set f v).get? x).isSome ↔ x = f := by
  rw [Scopes.get?_set]
  split
  · simp [*]
  · simp [*, Scopes.fresh, Scopes.get?]

theorem run_sumList {ns : List Int} (h : ∀ n ∈ ns, -2 ^ 63 < n ∧ n < 2 ^ 63)
    (hlimit : ns.length < limit) :
    ∀ r ∈ (Engine.fresh outlet limit).runBoth
        "(defn sum-list [l] (if (is-empty l) 0 (add (car l) (sum-list (cdr l)))))"
        ("(sum-list (" ++ " ".intercalate ("list" :: ns.map toString) ++ "))"),
      r.result = .ok (.number (Int64.ofInt ns.sum)) ∧
        r.engine.scopes = Scopes.fresh.set "sum-list" (.function sumList) := by
  have hdeclaration : "(defn sum-list [l] (if (is-empty l) 0 (add (car l) (sum-list (cdr l)))))" =
    (Node.defn sumList.name sumList.parameters sumList.body).render := by decide +kernel
  let n : Node := .call "sum-list" [.list ((ns.map Int64.ofInt).map .number)]
  have hwritable : n.isWritable := by
    have hmin : Int64.minValue ∉ ns.map Int64.ofInt := by
      intro hmem
      obtain ⟨n, hn, heq⟩ := List.mem_map.1 hmem
      exact ofInt_ne_minValue (h n hn).1 (h n hn).2 heq
    have hlist : (Node.list ((ns.map Int64.ofInt).map .number)).isWritable :=
      Node.allWritable_numbers hmin
    exact Node.isWritable_call.2 ⟨by decide, by decide, Node.allWritable_cons.2 ⟨hlist, rfl⟩⟩
  have htext : "(sum-list (" ++ " ".intercalate ("list" :: ns.map toString) ++ "))" = n.render := by
    have hopen : "(sum-list (" = "(" ++ "sum-list" ++ " " ++ "(" := by decide
    have hclose : "))" = ")" ++ ")" := by decide
    rw [Node.render_call_single, ← listText_eq_render, listText_ofInt h, hopen, hclose]
    simp only [String.append_assoc]
  have hbound : (Scopes.fresh.set "sum-list" (.function sumList)).get? "sum-list" =
      some (.function sumList) := rfl
  have hyields : (eval limit n).Yields outlet (Scopes.fresh.set "sum-list" (.function sumList))
      (.number (Int64.ofInt ns.sum)) := by
    rw [← sum_ofInt]
    exact Eval.yields_call (Eval.yields_cons (Eval.yields_numbers _) Eval.yields_nil) rfl hbound rfl
      (yields_sumList hbound (by rw [List.length_map]; exact hlimit))
  rw [hdeclaration, htext]
  intro r hr
  obtain ⟨hresult, hengine⟩ :=
    Engine.runBoth_yields (e := .fresh outlet limit) isWritable_sumList hwritable hyields r hr
  exact ⟨hresult, congrArg Engine.scopes hengine⟩

theorem run_countDown {n : Int} (hlo : -2 ^ 63 < n) (hhi : n < 2 ^ 63) (hlimit : n.toNat < limit) :
    ∀ r ∈ (Engine.fresh outlet limit).runBoth
        "(defn count-down [n] (if n (count-down (subtract n 1)) \"done\"))"
        ("(count-down " ++ toString n ++ ")"),
      r.result = .ok (.text "done") := by
  have hdeclaration : "(defn count-down [n] (if n (count-down (subtract n 1)) \"done\"))" =
    (Node.defn countDown.name countDown.parameters countDown.body).render := by decide +kernel
  let m : Node := .call "count-down" [.number (Int64.ofInt n)]
  have hwritable : m.isWritable := by
    have hnumber := Node.isWritable_number (ofInt_ne_minValue hlo hhi)
    exact Node.isWritable_call.2 ⟨by decide, by decide, Node.allWritable_cons.2 ⟨hnumber, rfl⟩⟩
  have htext : "(count-down " ++ toString n ++ ")" = m.render := by
    rw [Node.render_call_single, ← display_number, display_ofInt (Int.le_of_lt hlo) hhi]
    rfl
  have hbound : (Scopes.fresh.set "count-down" (.function countDown)).get? "count-down" =
      some (.function countDown) := rfl
  have hyields : (eval limit m).Yields outlet (Scopes.fresh.set "count-down" (.function countDown))
      (.text "done") := by
    have htoNat : (Int64.ofInt n).toInt.toNat < limit := by
      rw [Int64.toInt_ofInt_of_le (Int.le_of_lt hlo) hhi]
      exact hlimit
    exact Eval.yields_call (Eval.yields_cons (Eval.yields_number _) Eval.yields_nil) rfl hbound rfl
      (yields_countDown hbound htoNat)
  rw [hdeclaration, htext]
  intro r hr
  have hboth :=
    Engine.runBoth_yields (e := .fresh outlet limit) isWritable_countDown hwritable hyields
  exact (hboth r hr).1

end

theorem recursive_programs_return (outlet : Outlet) :
    (∀ ns : List Int, (∀ n ∈ ns, -2 ^ 63 < n ∧ n < 2 ^ 63) → ∀ limit, ns.length < limit →
      ∀ r ∈ (Engine.fresh outlet limit).runBoth
          "(defn sum-list [l] (if (is-empty l) 0 (add (car l) (sum-list (cdr l)))))"
          ("(sum-list (" ++ " ".intercalate ("list" :: ns.map toString) ++ "))"),
        (∃ m : Int64, r.result = .ok (.number m) ∧
          ∀ k : Int64, k = m ↔ k.toInt ≡ ns.sum [ZMOD 2 ^ 64]) ∧
        r.engine.scopes.depth = 0 ∧
        ∀ x, (r.engine.scopes.get? x).isSome ↔ x = "sum-list") ∧
    ∀ n : Int, -2 ^ 63 < n → n < 2 ^ 63 → ∀ limit, n.toNat < limit →
      ∀ r ∈ (Engine.fresh outlet limit).runBoth
          "(defn count-down [n] (if n (count-down (subtract n 1)) \"done\"))"
          ("(count-down " ++ toString n ++ ")"),
        r.result = .ok (.text "done") := by
  refine ⟨?_, ?_⟩
  · intro ns h limit hlimit r hr
    obtain ⟨hresult, hscopes⟩ := run_sumList h hlimit r hr
    rw [hscopes]
    refine ⟨⟨_, hresult, ?_⟩, rfl, ?_⟩
    · intro k
      exact eq_ofInt_iff_modEq
    · intro x
      exact isSome_get?_set_fresh
  · intro n hlo hhi limit hlimit r hr
    exact run_countDown hlo hhi hlimit r hr

theorem recursive_programs_return_wrapping :
    let ns : List Int := [9223372036854775807, 9223372036854775807, 3]
    let e := Engine.fresh .working 4
    let r := e.run ("(defn sum-list [l] (if (is-empty l) 0 (add (car l) (sum-list (cdr l)))))" ++
      "\n" ++ "(sum-list (list 9223372036854775807 9223372036854775807 3))")
    let declared :=
      (e.run "(defn count-down [n] (if n (count-down (subtract n 1)) \"done\"))").engine
    ((∀ n ∈ ns, -2 ^ 63 < n ∧ n < 2 ^ 63) ∧ ns.length < 4 ∧ (3 : Int).toNat < 4) ∧
      r.result = .ok (.number 1) ∧ r.engine.scopes.depth = 0 ∧
      (∀ x, (r.engine.scopes.get? x).isSome ↔ x = "sum-list") ∧
      (declared.run "(count-down 3)").result = .ok (.text "done") := by
  -- the sum goes beyond the largest number and wraps around
  intro ns e r declared
  have hns : ∀ n ∈ ns, -2 ^ 63 < n ∧ n < 2 ^ 63 := by decide
  have htext : "(sum-list (" ++ " ".intercalate ("list" :: ns.map toString) ++ "))" =
    "(sum-list (list 9223372036854775807 9223372036854775807 3))" := by decide +kernel
  obtain ⟨hsum, hcount⟩ := recursive_programs_return .working
  have hruns := hsum ns hns 4 (by decide)
  rw [htext] at hruns
  obtain ⟨⟨m, hm, hunique⟩, hdepth, hbound⟩ := hruns r (List.mem_cons_of_mem _ List.mem_cons_self)
  obtain rfl : 1 = m := (hunique 1).2 (by decide)
  have hdone := hcount 3 (by decide) (by decide) 4 (by decide) (declared.run "(count-down 3)")
    (List.mem_cons_of_mem _ (List.mem_cons_of_mem _ List.mem_cons_self))
  exact ⟨⟨hns, by decide, by decide⟩, hm, hdepth, hbound, hdone⟩

end Lisplet
