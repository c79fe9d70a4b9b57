import Lisplet.Proofs.CallLog
import Lisplet.Proofs.FlatScope

namespace Lisplet

namespace Engine

def inTurn (e : Engine) (ns : List Node) : Effect (List Value) :=
  Eval.evalAll (Eval.apply e.callLimit) ns e.outlet e.scopes

def within (e : Engine) (s : Scopes) : Engine := { e with scopes := s }

section

variable {e : Engine} {n : Node} {ns : List Node}

theorem evaluate_ok (h : (eval e.callLimit n e.outlet e.scopes).result = .ok v) :
    e.evaluate n = ⟨.ok v, (eval e.callLimit n e.outlet e.scopes).trace, ⟨1, 0, 1, 0⟩,
      e.within (eval e.callLimit n e.outlet e.scopes).scopes⟩ := by
  simp only [evaluate, h, within]

theorem result_evaluate (e : Engine) (n : Node) :
    (e.evaluate n).result = (eval e.callLimit n e.outlet e.scopes).result := by
  rw [evaluate]
  split <;> simp_all

theorem evaluate_error (h : (eval e.callLimit n e.outlet e.scopes).result = .error (.error err)) :
    e.evaluate n =
      ⟨.error (.error err), (eval e.callLimit n e.outlet e.scopes).trace ++ [.failed n err],
        ⟨0, 1, 1, 0⟩, e.within (eval e.callLimit n e.outlet e.scopes).scopes⟩ := by
  simp only [evaluate, h, within]

theorem inTurn_cons_ok (h : (eval e.callLimit n e.outlet e.scopes).result = .ok v)
    (ns : List Node) :
    e.inTurn (n :: ns) =
      (((e.within (eval e.callLimit n e.outlet e.scopes).scopes).inTurn ns).map (v :: ·)).behind
        (eval e.callLimit n e.outlet e.scopes).trace :=
  Eval.evalAll_cons_ok h ns

theorem evaluateAll_of_ok (h : (e.inTurn ns).result = .ok vs) (last : Value) :
    e.evaluateAll last ns = ⟨.ok (vs.getLastD last), (e.inTurn ns).trace,
      ⟨ns.length, 0, ns.length, 0⟩, e.within (e.inTurn ns).scopes⟩ := by
  induction ns generalizing e last vs with
  | nil =>
    obtain rfl := Except.ok.inj h
    rfl
  | cons n ns ih =>
    obtain ⟨v, ws, rfl, hfirst, hothers⟩ := Eval.exists_of_evalAll_cons h
    rw [evaluateAll_cons, evaluate_ok hfirst, Report.andThen_ok rfl, inTurn_cons_ok hfirst,
      ih (e := e.within (eval e.callLimit n e.outlet e.scopes).scopes) hothers v]
    have htally : (⟨1, 0, 1, 0⟩ + ⟨ns.length, 0, ns.length, 0⟩ : Tally) =
        ⟨(n :: ns).length, 0, (n :: ns).length, 0⟩ := by
      apply Tally.eq_of_counts <;> simp [Nat.add_comm]
    simp only [htally, Effect.behind, Effect.map, List.getLastD_cons, within]

theorem evaluateAll_of_failing (h : (e.inTurn before).result = .ok vs)
    (hn : (eval e.callLimit n e.outlet (e.inTurn before).scopes).result = .error f)
    (last : Value) (after : List Node) :
    e.evaluateAll last (before ++ n :: after) =
      let first := (e.within (e.inTurn before).scopes).evaluate n
      { first with
        trace := (e.inTurn before).trace ++ first.trace
        tally := ⟨before.length, 0, before.length, 0⟩ + first.tally } := by
  have hfirst : ((e.within (e.inTurn before).scopes).evaluate n).result = .error f := by
    rw [result_evaluate]
    exact hn
  rw [evaluateAll_append, evaluateAll_of_ok h, Report.andThen_ok rfl, evaluateAll_cons,
    Report.andThen_error hfirst]

theorem exists_inTurn_ok_or_failing (e : Engine) (ns : List Node) :
    (∃ vs, (e.inTurn ns).result = .ok vs) ∨
      ∃ before n after vs f, ns = before ++ n :: after ∧ (e.inTurn before).result = .ok vs ∧
        (eval e.callLimit n e.outlet (e.inTurn before).scopes).result = .error f := by
  induction ns generalizing e with
  | nil => exact .inl ⟨[], rfl⟩
  | cons n ns ih =>
    cases hn : (eval e.callLimit n e.outlet e.scopes).result with
    | error f => exact .inr ⟨[], n, ns, [], f, rfl, rfl, hn⟩
    | ok v =>
      rw [inTurn_cons_ok hn]
      obtain ⟨vs, hvs⟩ | ⟨before, m, after, vs, f, rfl, hvs, hm⟩ :=
        ih (e.within (eval e.callLimit n e.outlet e.scopes).scopes)
      · exact .inl ⟨v :: vs, by simp only [Effect.behind, Effect.map, hvs, Except.map]⟩
      · refine .inr ⟨n :: before, m, after, v :: vs, f, rfl, ?_⟩
        rw [inTurn_cons_ok hn]
        simp only [Effect.behind, Effect.map, hvs, Except.map, true_and]
        exact hm

end

end Engine

/-- What a run of a text on an engine comes to and counts for, by how far it gets. -/
structure Report.Accounts (r : Report) (e : Engine) (source : String) : Prop where
  parse : r.tally.parse = 1
  unread : ∀ err, readAll (tokenize source) = .error err →
    r = ⟨.error (.error (.ofSyntax err)), [], ⟨0, 0, 0, 1⟩, e⟩
  succeeds : ∀ ns vs, readAll (tokenize source) = .ok ns → (e.inTurn ns).result = .ok vs →
    r = ⟨.ok (vs.getLastD .nil), (e.inTurn ns).trace, ⟨ns.length, 0, ns.length, 1⟩,
      e.within (e.inTurn ns).scopes⟩
  fails : ∀ before n after vs f, readAll (tokenize source) = .ok (before ++ n :: after) →
    (e.inTurn before).result = .ok vs →
    (eval e.callLimit n e.outlet (e.inTurn before).scopes).result = .error f →
    let last := eval e.callLimit n e.outlet (e.inTurn before).scopes
    r.result = .error f ∧ r.tally = ⟨before.length, 1, before.length + 1, 1⟩ ∧
      r.engine = e.within last.scopes ∧
      output r.trace = output (e.inTurn before).trace ++ output last.trace

def failsInEvaluation (run : String × Report) : Bool :=
  (readAll (tokenize run.1)).isOk && !run.2.result.isOk

namespace Engine

theorem parse_run (e : Engine) (source : String) : (e.run source).tally.parse = 1 := by
  rw [run]
  split
  · rw [Tally.parse_add, parse_evaluateAll]
  · rfl

theorem run_of_failing {e : Engine} {source : String}
    (h : readAll (tokenize source) = .ok (before ++ n :: after))
    (hbefore : (e.inTurn before).result = .ok vs)
    (hn : (eval e.callLimit n e.outlet (e.inTurn before).scopes).result = .error f) :
    e.run source =
      let first := (e.within (e.inTurn before).scopes).evaluate n
      { first with
        trace := (e.inTurn before).trace ++ first.trace
        tally := ⟨before.length, 0, before.length, 1⟩ + first.tally } := by
  simp only [run, h, evaluateAll_of_failing hbefore hn]
  congr 1
  apply Tally.eq_of_counts <;> simp

theorem Reachable.result_run {e : Engine} (he : e.Reachable) {source : String}
    (h : (e.run source).result ≠ .error .tooDeep) :
    (∃ v, (e.run source).result = .ok v) ∨ ∃ err, (e.run source).result = .error (.error err) := by
  cases hr : (e.run source).result with
  | ok v => exact .inl ⟨v, rfl⟩
  | error f =>
    cases f with
    | error err => exact .inr ⟨err, rfl⟩
    | tooDeep => exact absurd hr h
    | missingNode =>
      cases hread : readAll (tokenize source) with
      | error err => simp [Engine.run, hread] at hr
      | ok ns => exact absurd hr (Checked.run_eq_of_readAll he.isWritable hread).2.complete

theorem accounts_run {e : Engine} (he : e.Reachable) {source : String}
    (h : (e.run source).result ≠ .error .tooDeep) : (e.run source).Accounts e source where
  parse := e.parse_run source
  unread err herr := by rw [run, herr]
  succeeds ns vs hread hvs := by
    simp only [run, hread, evaluateAll_of_ok hvs]
    congr 1
    apply Tally.eq_of_counts <;> simp
  fails before n after vs f hread hvs hf := by
    have hrun := run_of_failing hread hvs hf
    have hresult : (e.run source).result = .error f := by
      rw [hrun]
      exact (result_evaluate _ n).trans hf
    -- what it fails with is an error, which is counted
    obtain ⟨err, rfl⟩ : ∃ err, f = .error err := by
      obtain ⟨v, hv⟩ | ⟨err, herr⟩ := he.result_run h
      · simp [hresult] at hv
      · exact ⟨err, Except.error.inj (hresult.symm.trans herr)⟩
    refine ⟨hresult, ?_⟩
    rw [hrun, evaluate_error hf]
    refine ⟨rfl, rfl, ?_⟩
    have hsilent : output [.failed n err] = "" := rfl
    simp only [Flat.output_append, hsilent, String.append_empty]
    rfl

end Engine

theorem Report.Accounts.counts {r : Report} (h : r.Accounts e source) :
    r.tally.eval = r.tally.ok + r.tally.error ∧
      r.tally.error = (failsInEvaluation (source, r)).toNat := by
  cases hread : readAll (tokenize source) with
  | error err =>
    obtain rfl := h.unread err hread
    exact ⟨rfl, by simp [failsInEvaluation, hread, Except.isOk, Except.toBool]⟩
  | ok ns =>
    obtain ⟨vs, hvs⟩ | ⟨before, n, after, vs, f, rfl, hvs, hf⟩ := e.exists_inTurn_ok_or_failing ns
    · obtain rfl := h.succeeds ns vs hread hvs
      exact ⟨rfl, by simp [failsInEvaluation, Except.isOk, Except.toBool]⟩
    · obtain ⟨hresult, htally, -⟩ := h.fails before n after vs f hread hvs hf
      rw [htally]
      exact ⟨rfl, by simp [failsInEvaluation, hread, hresult, Except.isOk, Except.toBool]⟩

def Tally.total (reports : List Report) : Tally := reports.foldr (fun r t => r.tally + t) .zero

namespace Engine

def after (e : Engine) (sources : List String) : Engine :=
  sources.foldl (fun e source => (e.run source).engine) e

@[simp] theorem after_cons (e : Engine) (source : String) (sources : List String) :
    e.after (source :: sources) = (e.run source).engine.after sources := rfl

theorem after_append (e : Engine) (before after : List String) :
    e.after (before ++ after) = (e.after before).after after := List.foldl_append

theorem runAll_append (e : Engine) (before after : List String) :
    e.runAll (before ++ after) = e.runAll before ++ (e.after before).runAll after := by
  induction before generalizing e with
  | nil => rfl
  | cons source before ih => rw [List.cons_append, runAll, runAll, ih, after_cons, List.cons_append]

variable {e : Engine} (he : e.Reachable)
include he

theorem Reachable.after (h : ∀ r ∈ e.runAll sources, r.result ≠ .error .tooDeep) :
    (e.after sources).Reachable := by
  induction sources generalizing e with
  | nil => exact he
  | cons source sources ih =>
    obtain ⟨hfirst, hothers⟩ := List.forall_mem_cons.1 h
    exact ih (he.run source hfirst) hothers

theorem total_runAll (h : ∀ r ∈ e.runAll sources, r.result ≠ .error .tooDeep) :
    let total := Tally.total (e.runAll sources)
    total.eval = total.ok + total.error ∧ total.parse = sources.length ∧
      total.error = (sources.zip (e.runAll sources)).countP failsInEvaluation := by
  induction sources generalizing e with
  | nil => exact ⟨rfl, rfl, rfl⟩
  | cons source sources ih =>
    obtain ⟨hfirst, hothers⟩ := List.forall_mem_cons.1 h
    have hrun := accounts_run he hfirst
    obtain ⟨heval, herror⟩ := hrun.counts
    obtain ⟨hevals, hparses, herrors⟩ := ih (he.run source hfirst) hothers
    simp only [runAll, Tally.total, List.foldr_cons, List.zip_cons_cons, List.countP_cons,
      Tally.eval_add, Tally.ok_add, Tally.error_add, Tally.parse_add] at hevals hparses herrors ⊢
    refine ⟨?_, ?_, ?_⟩
    · omega
    · rw [hparses, hrun.parse, List.length_cons, Nat.add_comm]
    · rw [herrors, herror, Nat.add_comm]
      cases failsInEvaluation (source, e.run source) <;> rfl

end Engine

/-- A run counts one for each expression up to its first failure, however many calls are made
inside, so the counts add up over a session. -/
theorem runAll_accounts (outlet : Outlet) (callLimit : Nat) {sources : List String}
    (h : ∀ r ∈ (Engine.fresh outlet callLimit).runAll sources, r.result ≠ .error .tooDeep) :
    let e := Engine.fresh outlet callLimit
    (∀ before source after, sources = before ++ source :: after →
      ((e.after before).run source).Accounts (e.after before) source) ∧
    ∀ before after, sources = before ++ after →
      let total := Tally.total (e.runAll before)
      total.eval = total.ok + total.error ∧ total.parse = before.length ∧
        total.error = (before.zip (e.runAll before)).countP failsInEvaluation ∧
        (e.after before).scopes.depth = 0 := by
  intro e
  have he : e.Reachable := .fresh outlet callLimit
  have hsplit : ∀ before after, sources = before ++ after →
      (∀ r ∈ e.runAll before, r.result ≠ .error .tooDeep) ∧
        ∀ r ∈ (e.after before).runAll after, r.result ≠ .error .tooDeep := by
    rintro before after rfl
    rw [Engine.runAll_append] at h
    exact List.forall_mem_append.1 h
  refine ⟨?_, ?_⟩
  · intro before source after hsources
    obtain ⟨hbefore, hafter⟩ := hsplit before (source :: after) hsources
    exact Engine.accounts_run (he.after hbefore) (List.forall_mem_cons.1 hafter).1
  · intro before after hsources
    obtain ⟨hbefore, -⟩ := hsplit before after hsources
    obtain ⟨heval, hparse, herror⟩ := Engine.total_runAll he hbefore
    exact ⟨heval, hparse, herror, (he.after hbefore).depth_eq⟩

theorem runAll_accounts_mixed :
    let s₁ := "(defn f [x] (println x)) (f (f 1))"
    let s₂ := "(f 2) (add (define z 3) (f z)) z"
    let s₃ := "(f"
    let e := Engine.fresh .working 1
    let second := (e.after [s₁]).run s₂
    let total := Tally.total (e.runAll [s₁, s₂, s₃, ""])
    (∀ r ∈ e.runAll [s₁, s₂, s₃, ""], r.result ≠ .error .tooDeep) ∧
      second.tally = ⟨1, 1, 2, 1⟩ ∧ output second.trace = "2\n3\n" ∧
      second.engine.scopes.get? "z" = some (.number 3) ∧
      second.engine.run s₃ = ⟨.error (.error (.ofSyntax .ended)), [], ⟨0, 0, 0, 1⟩, second.engine⟩ ∧
      total = ⟨3, 1, 4, 4⟩ ∧ (e.after [s₁, s₂, s₃, ""]).scopes.depth = 0 := by
  -- the second text fails in its second expression; the third cannot be read
  intro s₁ s₂ s₃ e second total
  obtain ⟨hend, hfailures, hok⟩ :
      (∀ r ∈ e.runAll [s₁, s₂, s₃, ""], r.result ≠ .error .tooDeep) ∧
        ([s₁, s₂, s₃, ""].zip (e.runAll [s₁, s₂, s₃, ""])).countP failsInEvaluation = 1 ∧
        total.ok = 3 := by decide +kernel
  let failing : Node := .call "add" [.call "define" [.identifier "z", .number 3],
    .call "f" [.identifier "z"]]
  have hread : readAll (tokenize s₂) =
      .ok ([.call "f" [.number 2]] ++ failing :: [.identifier "z"]) := by decide +kernel
  let first := e.after [s₁]
  let before := first.inTurn [.call "f" [.number 2]]
  let last := eval first.callLimit failing first.outlet before.scopes
  obtain ⟨hbefore, hlast, hprinted, hbound⟩ : before.result = .ok [.list [.number 2]] ∧
      last.result =
        .error (.error (.typeMismatch .number .list "add requires all arguments to be Numbers")) ∧
      output before.trace ++ output last.trace = "2\n3\n" ∧
      last.scopes.get? "z" = some (.number 3) := by decide +kernel
  obtain ⟨hruns, htotals⟩ := runAll_accounts .working 1 hend
  obtain ⟨-, htally, hengine, houtput⟩ :=
    (hruns [s₁] s₂ [s₃, ""] rfl).fails _ _ _ _ _ hread hbefore hlast
  have hunread := (hruns [s₁, s₂] s₃ [""] rfl).unread .ended (by decide +kernel)
  obtain ⟨heval, hparse, herror, hdepth⟩ := htotals _ [] (List.append_nil _).symm
  have htotal : total = ⟨3, 1, 4, 4⟩ := by
    apply Tally.eq_of_counts hok (herror.trans hfailures) _ hparse
    rw [heval, herror, hfailures, hok]
  refine ⟨hend, htally, houtput.trans hprinted, ?_, hunread, htotal, hdepth⟩
  rw [hengine]
  exact hbound

end Lisplet
