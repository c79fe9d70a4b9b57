import Lisplet.Proofs.Bindings
import Lisplet.Proofs.Dialogue

namespace Lisplet

deriving instance DecidableEq for Input

theorem Input.exists_unread (inputs : List Input) :
    ∃ unread,
      inputs = inputs.takeWhile (!·.stops) ++ ((inputs.find? (·.stops)).toList ++ unread) ∧
        (inputs.find? (·.stops) = none → unread = []) := by
  induction inputs with
  | nil => exact ⟨[], rfl, fun _ => rfl⟩
  | cons i inputs ih =>
    cases hi : i.stops with
    | true => exact ⟨inputs, by simp [hi], by simp [hi]⟩
    | false =>
      obtain ⟨unread, heq, hunread⟩ := ih
      rw [List.takeWhile_cons_of_pos (by simp [hi]), List.find?_cons_of_neg (by simp [hi])]
      exact ⟨unread, congrArg (i :: ·) heq, hunread⟩

namespace Prompt

section

variable {stop : Option Input} {unread : List Input} (h : ∀ i ∈ stop, i.stops)
  (hunread : stop = none → unread = [])
include h hunread

theorem loop_stopping (e : Engine) :
    ∃ code ≤ 1, (code = 1 ↔ ∃ reason, stop = some (.broken reason)) ∧
      ∃ trace, loop e (stop.toList ++ unread) =
        ⟨code, if stop.isNone then "\n" else "", [], [sign], unread.length, trace, e⟩ := by
  cases stop with
  | none =>
    obtain rfl := hunread rfl
    exact ⟨0, by simp, by simp, _, rfl⟩
  | some i =>
    obtain ⟨halt, hstep, houtput, hle, hcode⟩ := step_of_stops (h i rfl) e
    refine ⟨halt.code, hle, by simpa using hcode, halt.trace, ?_⟩
    rw [Option.toList_some, List.singleton_append, loop, hstep]
    simp [Halt.transcript, houtput]

theorem converse_append {before : List Input} (hbefore : ∀ i ∈ before, i.stops = false)
    (e : Engine) :
    let sources := before.filterMap Input.source?
    ∃ code ≤ 1, (code = 1 ↔ ∃ reason, stop = some (.broken reason)) ∧
      ∃ trace, converse e (before ++ (stop.toList ++ unread)) =
        ⟨code, banner ++ "\n\n" ++ (String.join ((e.runAll sources).map shown) ++
            if stop.isNone then "\n" else ""),
          sources, List.replicate (before.length + 1) sign, unread.length, trace,
          e.after sources⟩ := by
  intro sources
  obtain ⟨code, hle, hcode, trace, hloop⟩ := loop_stopping h hunread (e.after sources)
  refine ⟨code, hle, hcode, trace, ?_⟩
  simp only [converse, loop_append hbefore, sources, hloop, Transcript.behind, List.append_nil,
    List.replicate_succ']

end

end Prompt

theorem Prompt.shown_runAll {e : Engine} (he : e.Reachable) {sources : List String}
    (h : ∀ r ∈ e.runAll sources, r.result ≠ .error .tooDeep) :
    ∀ r ∈ e.runAll sources,
      (∃ v, r.result = .ok v ∧ shown r = output r.trace ++ v.display ++ "\n") ∨
        ∃ err, r.result = .error (.error err) ∧ shown r = output r.trace ++ err.text ++ "\n" := by
  induction sources generalizing e with
  | nil => exact List.forall_mem_nil _
  | cons source sources ih =>
    obtain ⟨hfirst, hothers⟩ := List.forall_mem_cons.1 h
    apply List.forall_mem_cons.2 ⟨?_, ih (he.run source hfirst) hothers⟩
    obtain ⟨v, hv⟩ | ⟨err, herr⟩ := he.result_run hfirst
    · exact .inl ⟨v, hv, by rw [shown, hv]⟩
    · exact .inr ⟨err, herr, by rw [shown, herr]; rfl⟩

/-- The loop is a fold of runs, on one engine, over the lines up to where it stops: all that it
leaves behind is told by these lines and by the input that stopped it. -/
theorem converse_folds_runs {e : Engine} (he : e.Reachable) (inputs : List Input)
    (hend : ∀ r ∈ e.runAll ((inputs.takeWhile (!·.stops)).filterMap Input.source?),
      r.result ≠ .error .tooDeep) :
    let t := Prompt.converse e inputs
    let before := inputs.takeWhile (!·.stops)
    let stop := inputs.find? (·.stops)
    let read := before ++ stop.toList
    let sources := before.filterMap Input.source?
    let reports := e.runAll sources
    (t.code ≤ 1 ∧ (t.code = 1 ↔ ∃ reason, stop = some (.broken reason))) ∧
    (∃ unread, inputs = read ++ unread ∧ t.unread = unread.length) ∧
    t.prompts.length = read.length + (if stop.isNone then 1 else 0) ∧
    t.history = sources ∧
    t.output = Prompt.banner ++ "\n\n" ++
      (String.join (reports.map Prompt.shown) ++ if stop.isNone then "\n" else "") ∧
    (∀ r ∈ reports,
      (∃ v, r.result = .ok v ∧ Prompt.shown r = output r.trace ++ v.display ++ "\n") ∨
      ∃ err, r.result = .error (.error err) ∧ Prompt.shown r = output r.trace ++ err.text ++ "\n") ∧
    t.engine = e.after sources ∧
    ∀ earlier source later, sources = earlier ++ source :: later →
      let r := (e.after earlier).run source
      reports = e.runAll earlier ++ r :: r.engine.runAll later ∧
      ∃ bs, r.engine = (e.after earlier).within ((e.after earlier).scopes.update bs) ∧
        Told 0 r.trace bs := by
  intro t before stop read sources reports
  obtain ⟨unread, hinputs, hunread⟩ := Input.exists_unread inputs
  have hbefore : ∀ i ∈ before, i.stops = false := by
    intro i hi
    simpa using List.mem_takeWhile_imp hi
  have hstop : ∀ i ∈ stop, i.stops := fun i hi => List.find?_some hi
  -- the last prompt is answered by the input that stops the loop, or by the end of input
  have hprompts : before.length + 1 = read.length + (if stop.isNone then 1 else 0) := by
    have hone : ∀ o : Option Input, 1 = o.toList.length + (if o.isNone then 1 else 0) := by
      rintro (_ | _) <;> rfl
    rw [List.length_append, Nat.add_assoc, ← hone]
  have hdepth : ∀ earlier later, sources = earlier ++ later →
      (e.after earlier).scopes.depth = 0 := by
    intro earlier later hsources
    change ∀ r ∈ e.runAll sources, _ at hend
    rw [hsources, Engine.runAll_append] at hend
    exact (he.after (List.forall_mem_append.1 hend).1).depth_eq
  obtain ⟨code, hle, hcode, trace, ht⟩ := Prompt.converse_append hstop hunread hbefore e
  rw [← hinputs] at ht
  have ht' : t = _ := ht
  rw [ht']
  refine ⟨⟨hle, hcode⟩, ⟨unread, ?_, rfl⟩, ?_, rfl, rfl, Prompt.shown_runAll he hend, rfl, ?_⟩
  · rw [List.append_assoc]
    exact hinputs
  · rw [List.length_replicate]
    exact hprompts
  · intro earlier source later hsources r
    refine ⟨?_, ?_⟩
    · simp only [reports, hsources, Engine.runAll_append]
      rfl
    · rw [← hdepth earlier _ hsources]
      exact (e.after earlier).tells_run source

theorem converse_folds_runs_failing :
    let declaration := "(defn f [x] (println x))"
    let failing := "(f 1) (add (define z 3) (f z)) z"
    let inputs : List Input := [.line (" " ++ declaration), .interrupted, .line " \t",
      .line (failing ++ " "), .line "z", .line "(f", .broken "closed", .line "z"]
    let e := Engine.fresh .working 1
    let t := Prompt.converse e inputs
    let declared := e.after [declaration]
    let r := declared.run failing
    t.code = 1 ∧ t.unread = 1 ∧ t.prompts.length = 7 ∧
      t.history = [declaration, failing, "z", "(f"] ∧
      t.output = Prompt.banner ++ "\n\n#<Function:f>\n1\n3\n" ++
        "TypeError\x7bexpected: Number, actual: List\x7d: " ++
        "add requires all arguments to be Numbers\n3\n" ++
        "MissingToken: input ended before a required token\n" ∧
      ∃ bs, r.engine = declared.within (declared.scopes.update bs) ∧ Told 0 r.trace bs := by
  -- one line fails after it has bound a name that the next asks for, and one cannot be read
  intro declaration failing inputs e t declared r
  have he : e.Reachable := .fresh .working 1
  have hend : ∀ r ∈ e.runAll ((inputs.takeWhile (!·.stops)).filterMap Input.source?),
    r.result ≠ .error .tooDeep := by decide +kernel
  have hstop : inputs.find? (·.stops) = some (.broken "closed") := by decide +kernel
  have hbefore : inputs.takeWhile (!·.stops) = inputs.take 6 := by decide +kernel
  have hsources : (inputs.take 6).filterMap Input.source? = [declaration, failing, "z", "(f"] := by
    decide +kernel
  obtain ⟨⟨-, hcode⟩, ⟨unread, hread, hunread⟩, hprompts, hhistory, houtput, -, -, hlines⟩ :=
    converse_folds_runs he inputs hend
  simp only [hstop, hbefore, hsources] at hcode hread hprompts hhistory houtput hlines
  refine ⟨hcode.2 ⟨_, rfl⟩, ?_, hprompts, hhistory, ?_, ?_⟩
  · have hleft : inputs.take 7 ++ [.line "z"] = inputs.take 7 ++ unread := hread
    obtain rfl := List.append_cancel_left hleft
    exact hunread
  · rw [houtput]
    decide +kernel
  · exact (hlines [declaration] failing ["z", "(f"] rfl).2

end Lisplet
