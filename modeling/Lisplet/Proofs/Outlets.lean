import Lisplet.Engine
import Lisplet.Proofs.EvalLaws
import Mathlib.Data.List.Forall2

namespace Lisplet

def warning (reason : String) : Entry := ⟨.warn, "println failed", [("error", .text reason)]⟩

namespace Event

def isOutput : Event → Bool
  | .printed _ => true
  | .unprinted _ => true
  | _ => false

/-- What becomes of an event on a working outlet when the outlet is broken. -/
inductive CutOff (reason : String) : Event → Event → Prop
  | line : CutOff reason (.printed line) (.unprinted reason)
  | other : e.isOutput = false → CutOff reason e e

def entryOrWarning? (reason : String) : Event → Option Entry
  | .printed _ => some (warning reason)
  | e => e.entry?

theorem CutOff.output_eq (h : CutOff reason e e') : e'.output = [] := by
  cases h with
  | line => rfl
  | other he =>
    cases e with
    | printed line => simp [isOutput] at he
    | _ => rfl

theorem CutOff.entry?_eq (h : CutOff reason e e') : e'.entry? = e.entryOrWarning? reason := by
  cases h with
  | line => rfl
  | other he =>
    cases e with
    | printed line => simp [isOutput] at he
    | _ => rfl

theorem filter_entry? {e : Event} (h : e.isOutput = false) (reason : String) :
    e.entry?.toList.filter (· ≠ warning reason) = e.entry?.toList := by
  cases e with
  | unprinted reason => simp [isOutput] at h
  | _ => simp [warning, entry?]

end Event

def logWithWarnings (reason : String) (trace : List Event) : List Entry :=
  trace.filterMap (Event.entryOrWarning? reason)

theorem log_cons (e : Event) (trace : List Event) :
    log (e :: trace) = e.entry?.toList ++ log trace := by
  rw [log, List.filterMap_cons]
  cases e.entry? <;> rfl

abbrev CutsOff (reason : String) : List Event → List Event → Prop :=
  List.Forall₂ (Event.CutOff reason)

namespace CutsOff

variable {t t' u u' : List Event}

theorem append (h : CutsOff reason t t') (hu : CutsOff reason u u') :
    CutsOff reason (t ++ u) (t' ++ u') :=
  List.rel_append h hu

theorem singleton {e : Event} (h : e.isOutput = false) : CutsOff reason [e] [e] :=
  .cons (.other h) .nil

theorem output_eq (h : CutsOff reason t t') : output t' = "" := by
  suffices t'.flatMap Event.output = [] by rw [output, this]
  induction h with
  | nil => rfl
  | cons he _ ih => rw [List.flatMap_cons, he.output_eq, ih, List.nil_append]

theorem log_eq (h : CutsOff reason t t') : log t' = logWithWarnings reason t := by
  induction h with
  | nil => rfl
  | @cons e _ _ _ he _ ih =>
    rw [log_cons, he.entry?_eq, ih, logWithWarnings, logWithWarnings, List.filterMap_cons]
    cases e.entryOrWarning? reason <;> rfl

theorem filter_log (h : CutsOff reason t t') :
    (log t').filter (· ≠ warning reason) = log t := by
  induction h with
  | nil => rfl
  | cons he _ ih =>
    rw [log_cons, log_cons, List.filter_append, ih]
    cases he with
    | line => simp [warning, Event.entry?]
    | other he => rw [Event.filter_entry? he]

end CutsOff

structure Effect.CutOff (reason : String) (a b : Effect α) : Prop where
  result : b.result = a.result
  scopes : b.scopes = a.scopes
  trace : CutsOff reason a.trace b.trace

namespace Action

def CutOff (reason : String) (x y : Action α) : Prop :=
  ∀ s, (x .working s).CutOff reason (y (.broken reason) s)

theorem CutOff.bind {x y : Action α} {f g : α → Action β} (hx : CutOff reason x y)
    (hf : ∀ a, CutOff reason (f a) (g a)) : CutOff reason (x >>= f) (y >>= g) := by
  intro s
  obtain ⟨hresult, hscopes, htrace⟩ := hx s
  cases hr : (x .working s).result with
  | error e =>
    rw [bind_error hr, bind_error (hresult.trans hr)]
    exact ⟨rfl, hscopes, htrace⟩
  | ok a =>
    rw [bind_ok hr, bind_ok (hresult.trans hr), hscopes]
    have hnext := hf a (x .working s).scopes
    exact ⟨hnext.result, hnext.scopes, htrace.append hnext.trace⟩

theorem cutOff_congruence (reason : String) : Congruence fun {_} => CutOff reason where
  pure _ _ := ⟨rfl, rfl, .nil⟩
  fail _ _ := ⟨rfl, rfl, .nil⟩
  lookup _ _ := ⟨rfl, rfl, .nil⟩
  define _ _ _ := ⟨rfl, rfl, .singleton rfl⟩
  declare _ _ := ⟨rfl, rfl, .singleton rfl⟩
  print _ _ := ⟨rfl, rfl, .cons .line .nil⟩
  bind := .bind

theorem CutOff.within {x y : Action Value} (h : CutOff reason x y) (f : Procedure)
    (vs : List Value) : CutOff reason (within f vs x) (within f vs y) := by
  intro s
  obtain ⟨hresult, hscopes, htrace⟩ := h (s.push (.ofList (f.parameters.zip vs)))
  simp only [Action.within, hresult, hscopes]
  refine ⟨rfl, rfl, ?_⟩
  exact .cons (.other rfl) (htrace.append (.singleton rfl))

end Action

theorem Eval.apply_cutOff (reason : String) (limit : Nat) (f : Procedure) (vs : List Value) :
    Action.CutOff reason (apply limit f vs) (apply limit f vs) := by
  induction limit generalizing f vs with
  | zero => exact (Action.cutOff_congruence reason).fail .tooDeep
  | succ limit ih =>
    apply Action.CutOff.within
    exact evalWith_congr (Action.cutOff_congruence reason) ih f.body

theorem eval_cutOff (reason : String) (limit : Nat) (n : Node) :
    Action.CutOff reason (eval limit n) (eval limit n) :=
  Eval.evalWith_congr (Action.cutOff_congruence reason) (Eval.apply_cutOff reason limit) n

def Engine.cutOff (reason : String) (e : Engine) : Engine := { e with outlet := .broken reason }

structure Report.CutOff (reason : String) (w b : Report) : Prop where
  result : b.result = w.result
  tally : b.tally = w.tally
  outlet : w.engine.outlet = .working
  engine : b.engine = w.engine.cutOff reason
  trace : CutsOff reason w.trace b.trace

namespace Engine

def runAll (e : Engine) : List String → List Report
  | [] => []
  | source :: sources => e.run source :: (e.run source).engine.runAll sources

section

variable {e : Engine} (h : e.outlet = .working) (reason : String)
include h

theorem evaluate_cutOff (n : Node) :
    (e.evaluate n).CutOff reason ((e.cutOff reason).evaluate n) := by
  obtain ⟨hresult, hscopes, htrace⟩ := eval_cutOff reason e.callLimit n e.scopes
  simp only [evaluate, cutOff, h, hresult, hscopes]
  split
  · exact ⟨rfl, rfl, rfl, rfl, htrace⟩
  · exact ⟨rfl, rfl, rfl, rfl, htrace.append (.singleton rfl)⟩
  · exact ⟨rfl, rfl, rfl, rfl, htrace⟩

theorem evaluateAll_cutOff (last : Value) (ns : List Node) :
    (e.evaluateAll last ns).CutOff reason ((e.cutOff reason).evaluateAll last ns) := by
  induction ns generalizing e last with
  | nil => exact ⟨rfl, rfl, h, rfl, .nil⟩
  | cons n ns ih =>
    have hfirst := evaluate_cutOff h reason n
    rw [evaluateAll, evaluateAll, hfirst.result]
    cases hr : (e.evaluate n).result with
    | error f => exact hfirst
    | ok v =>
      have hothers := ih hfirst.outlet v
      simp only [hfirst.engine, hfirst.tally]
      refine ⟨hothers.result, ?_, hothers.outlet, hothers.engine, ?_⟩
      · rw [hothers.tally]
      · exact hfirst.trace.append hothers.trace

theorem run_cutOff (source : String) :
    (e.run source).CutOff reason ((e.cutOff reason).run source) := by
  rw [run, run]
  cases readAll (tokenize source) with
  | error err => exact ⟨rfl, rfl, h, rfl, .nil⟩
  | ok ns =>
    have hall := evaluateAll_cutOff h reason .nil ns
    refine ⟨hall.result, ?_, hall.outlet, hall.engine, hall.trace⟩
    simp only [hall.tally]

theorem runAll_cutOff (sources : List String) :
    List.Forall₂ (Report.CutOff reason) (e.runAll sources) ((e.cutOff reason).runAll sources) := by
  induction sources generalizing e with
  | nil => exact .nil
  | cons source sources ih =>
    have hfirst := run_cutOff h reason source
    rw [runAll, runAll, hfirst.engine]
    exact .cons hfirst (ih hfirst.outlet)

end

end Engine

def Outlet.note : Outlet → String → Event
  | .working, line => .printed line
  | .broken reason, _ => .unprinted reason

section

variable {limit : Nat} {as : List Node} {outlet : Outlet} {s : Scopes}

theorem trace_println_ok (h : (Eval.evalAll (Eval.apply limit) as outlet s).result = .ok vs) :
    (eval limit (.call "println" as) outlet s).trace =
      (Eval.evalAll (Eval.apply limit) as outlet s).trace ++
        [outlet.note (String.ofList (Value.displayLine vs))] := by
  rw [eval, Eval.evalWith_println rfl, Action.bind_ok h]
  cases outlet <;> rfl

theorem trace_println_error (h : (Eval.evalAll (Eval.apply limit) as outlet s).result = .error f) :
    (eval limit (.call "println" as) outlet s).trace =
      (Eval.evalAll (Eval.apply limit) as outlet s).trace := by
  rw [eval, Eval.evalWith_println rfl, Action.bind_error h]

end

namespace Node

mutual

/-- A call of `println` stands in the tree, other than in a body that it declares. -/
def prints : Node → Bool
  | .list as => anyPrints as
  | .call f as => f == "println" || anyPrints as
  | .cond a b c => prints a || prints b || prints c
  | _ => false

def anyPrints : List Node → Bool
  | [] => false
  | a :: as => prints a || anyPrints as

end

end Node

namespace Action

def Silent (x : Action α) : Prop := ∀ outlet s, ∀ e ∈ (x outlet s).trace, e.isOutput = false

theorem silent_pure (a : α) : Silent (Pure.pure a) := by
  intro outlet s e he
  cases he

theorem silent_fail (f : Failure) : Silent (fail f : Action α) := by
  intro outlet s e he
  cases he

theorem silent_ofExcept (r : Except Error α) : Silent (ofExcept r) := by
  cases r with
  | ok a => exact silent_pure a
  | error e => exact silent_fail (.error e)

theorem silent_lookup (x : String) : Silent (lookup x) := by
  intro outlet s e he
  cases he

theorem silent_define (x : String) (v : Value) : Silent (define x v) := by
  intro outlet s e he
  obtain rfl := List.mem_singleton.1 he
  rfl

theorem silent_declare (f : Procedure) : Silent (declare f) := by
  intro outlet s e he
  obtain rfl := List.mem_singleton.1 he
  rfl

theorem Silent.bind {x : Action α} {f : α → Action β} (hx : Silent x) (hf : ∀ a, Silent (f a)) :
    Silent (x >>= f) := by
  intro outlet s e he
  cases hr : (x outlet s).result with
  | error err =>
    rw [bind_error hr] at he
    exact hx outlet s e he
  | ok a =>
    rw [bind_ok hr] at he
    obtain he | he := List.mem_append.1 he
    · exact hx outlet s e he
    · exact hf a outlet _ e he

end Action

namespace Eval

open Lisplet.Action

theorem silent_resolve (f : String) (count : Nat) : Silent (resolve f count) := by
  apply (silent_lookup f).bind
  intro found
  split
  · exact silent_fail _
  · split
    · exact silent_pure _
    · exact silent_fail _
  · exact silent_fail _

variable {call : Procedure → List Value → Action Value}

mutual

theorem evalWith_silent (hcall : ∀ f vs, Silent (call f vs)) :
    ∀ n : Node, n.prints = false → Silent (evalWith call n)
  | .missing, _ => silent_fail _
  | .number _, _ => silent_pure _
  | .boolean _, _ => silent_pure _
  | .text _, _ => silent_pure _
  | .identifier x, _ => (silent_lookup x).bind fun _ => silent_pure _
  | .list as, h => (evalAll_silent hcall as h).bind fun _ => silent_pure _
  | .cond a b c, h => by
    simp only [Node.prints, Bool.or_eq_false_iff] at h
    rw [evalWith]
    apply (evalWith_silent hcall a h.1.1).bind
    intro v
    split
    · exact evalWith_silent hcall b h.1.2
    · exact evalWith_silent hcall c h.2
  | .defn f ps a, _ => silent_declare _
  | .call f as, h => by
    simp only [Node.prints, Bool.or_eq_false_iff, beq_eq_false_iff_ne] at h
    obtain ⟨hname, has⟩ := h
    cases hf : Builtin.ofName? f with
    | none =>
      rw [evalWith_user hf]
      apply (silent_resolve f as.length).bind
      intro g
      exact (evalAll_silent hcall as has).bind (hcall g)
    | some b =>
      cases b with
      | arithmetic op =>
        rw [evalWith_arithmetic hf]
        apply (evalNumbers_silent hcall op as has).bind
        intro ns
        cases ns with
        | nil => exact silent_fail _
        | cons n ns => exact silent_pure _
      | primitive op =>
        rw [evalWith_primitive hf]
        split
        · exact (evalAll_silent hcall as has).bind fun vs => silent_ofExcept _
        · exact silent_fail _
      | define =>
        rw [evalWith_define hf]
        split
        · rename_i x a
          simp only [Node.anyPrints, Node.prints, Bool.or_eq_false_iff] at has
          exact (evalWith_silent hcall a has.2.1).bind (silent_define x)
        · exact silent_fail _
        · exact silent_fail _
      | println => exact absurd (Builtin.ofName?_eq_println hf) hname

theorem evalAll_silent (hcall : ∀ f vs, Silent (call f vs)) :
    ∀ as : List Node, Node.anyPrints as = false → Silent (evalAll call as)
  | [], _ => silent_pure _
  | a :: as, h => by
    obtain ⟨ha, has⟩ := Bool.or_eq_false_iff.1 h
    apply (evalWith_silent hcall a ha).bind
    intro v
    exact (evalAll_silent hcall as has).bind fun vs => silent_pure _

theorem evalNumbers_silent (hcall : ∀ f vs, Silent (call f vs)) (op : Arithmetic) :
    ∀ as : List Node, Node.anyPrints as = false → Silent (evalNumbers call op as)
  | [], _ => silent_pure _
  | a :: as, h => by
    obtain ⟨ha, has⟩ := Bool.or_eq_false_iff.1 h
    apply (evalWith_silent hcall a ha).bind
    intro v
    apply (silent_ofExcept _).bind
    intro n
    exact (evalNumbers_silent hcall op as has).bind fun ns => silent_pure _

end

end Eval

/-- Texts run on a broken outlet as they do on a working one. Only where a line would be printed, at
the end of a call that prints, there is a warning in the log instead. -/
theorem runAll_same_when_broken (reason : String) (callLimit : Nat) (sources : List String) :
    let working := (Engine.fresh .working callLimit).runAll sources
    let broken := (Engine.fresh (.broken reason) callLimit).runAll sources
    List.Forall₂ (fun w b : Report => b.result = w.result ∧ b.engine.scopes = w.engine.scopes ∧
        b.tally = w.tally ∧ output b.trace = "" ∧ log b.trace = logWithWarnings reason w.trace ∧
        (log b.trace).filter (· ≠ warning reason) = log w.trace) working broken ∧
      (∀ as outlet s,
        let arguments := Eval.evalAll (Eval.apply callLimit) as outlet s
        let whole := eval callLimit (.call "println" as) outlet s
        (∀ vs, arguments.result = .ok vs → whole.trace =
          arguments.trace ++ [outlet.note (String.ofList (Value.displayLine vs))]) ∧
        ∀ f, arguments.result = .error f → whole.trace = arguments.trace) ∧
      ∀ call n, (∀ f vs, (call f vs).Silent) → n.prints = false →
        (Eval.evalWith call n).Silent := by
  refine ⟨?_, ?_, ?_⟩
  · have hruns := Engine.runAll_cutOff (e := .fresh .working callLimit) rfl reason sources
    apply hruns.imp
    intro w b h
    have hscopes : b.engine.scopes = w.engine.scopes := by
      rw [h.engine]
      rfl
    exact ⟨h.result, hscopes, h.tally, h.trace.output_eq, h.trace.log_eq, h.trace.filter_log⟩
  · intro as outlet s
    exact ⟨fun vs => trace_println_ok, fun f => trace_println_error⟩
  · intro call n hcall hn
    exact Eval.evalWith_silent hcall n hn

theorem runAll_same_when_broken_nested :
    let sources := ["(defn f [x] (println x (car x)))", "(println 1 (println 2)) (f 3) (println 4)",
      "(println)"]
    let working := (Engine.fresh .working 1).runAll sources
    let broken := (Engine.fresh (.broken "gone") 1).runAll sources
    let messages (r : Report) := (log r.trace).map Entry.message
    working.map (output ·.trace) = ["", "2\n1 (2)\n", "\n"] ∧
      broken.map (output ·.trace) = ["", "", ""] ∧
      working.map messages = [["declared function"],
        ["entering function", "leaving function", "evaluation failed"], []] ∧
      broken.map messages = [["declared function"], ["println failed", "println failed",
        "entering function", "leaving function", "evaluation failed"], ["println failed"]] ∧
      (eval 1 (.call "println" [.number 7]) (.broken "gone") .fresh).trace = [.unprinted "gone"] ∧
      (eval 1 (.call "println" [.call "car" [.number 7]]) (.broken "gone") .fresh).trace = [] ∧
      (eval 0 (.defn "f" [] (.call "println" []))).Silent := by
  -- the function fails before it prints, and to declare one that prints is not to print
  intro sources working broken messages
  obtain ⟨hruns, hprintln, hsilent⟩ := runAll_same_when_broken "gone" 1 sources
  have hmap : ∀ {β : Type} {f g : Report → β}, List.Forall₂ (fun w b => f w = g b) working broken →
      working.map f = broken.map g := by
    intro β f g h
    rw [← List.forall₂_eq_eq_eq, List.forall₂_map_left_iff, List.forall₂_map_right_iff]
    exact h
  have houtput : working.map (fun _ => "") = broken.map (output ·.trace) := by
    apply hmap (hruns.imp _)
    rintro w b ⟨-, -, -, h, -⟩
    exact h.symm
  have hlog : working.map (fun w => (logWithWarnings "gone" w.trace).map Entry.message) =
      broken.map messages := by
    apply hmap (hruns.imp _)
    rintro w b ⟨-, -, -, -, h, -⟩
    exact congrArg (List.map Entry.message) h.symm
  obtain ⟨hprinted, hlogged, hwarned⟩ : working.map (output ·.trace) = ["", "2\n1 (2)\n", "\n"] ∧
      working.map messages = [["declared function"],
        ["entering function", "leaving function", "evaluation failed"], []] ∧
      working.map (fun w => (logWithWarnings "gone" w.trace).map Entry.message) =
        [["declared function"], ["println failed", "println failed", "entering function",
          "leaving function", "evaluation failed"], ["println failed"]] := by
    decide +kernel
  refine ⟨hprinted, houtput.symm, hlogged, hlog.symm.trans hwarned, ?_, ?_, ?_⟩
  · exact (hprintln [.number 7] (.broken "gone") .fresh).1 [.number 7] rfl
  · exact (hprintln [.call "car" [.number 7]] (.broken "gone") .fresh).2 _ rfl
  · exact hsilent (Eval.apply 0) _ (fun f vs => Action.silent_fail .tooDeep) rfl

end Lisplet
