import Lisplet.Prompt
import Lisplet.Proofs.Sessions

namespace Lisplet

namespace Prompt

def trimmed (line : String) : String := String.ofList (Text.trim line.toList)

def sources (lines : List String) : List String := (lines.map trimmed).filter (· ≠ "")

section

variable {line : String}

theorem sources_cons_blank (h : trimmed line = "") (lines : List String) :
    sources (line :: lines) = sources lines := by
  simp [sources, h]

theorem sources_cons (h : trimmed line ≠ "") (lines : List String) :
    sources (line :: lines) = trimmed line :: sources lines := by
  simp [sources, h]

theorem sources_append (lines lines' : List String) :
    sources (lines ++ lines') = sources lines ++ sources lines' := by
  simp [sources]

theorem ofLine_eq (line : String) :
    Request.ofLine line =
      if trimmed line = "" then .nothing
      else if trimmed line = ":quit" then .quit else .run (trimmed line) := rfl

theorem ofLine_of_blank (h : trimmed line = "") : Request.ofLine line = .nothing := by
  rw [ofLine_eq, if_pos h]

theorem ofLine_of_quit (h : trimmed line = ":quit") : Request.ofLine line = .quit := by
  rw [ofLine_eq, h]
  rfl

theorem ofLine_of_text (h : trimmed line ≠ "") (hquit : trimmed line ≠ ":quit") :
    Request.ofLine line = .run (trimmed line) := by
  rw [ofLine_eq, if_neg h, if_neg hquit]

end

end Prompt

namespace Input

def stops : Input → Bool
  | .line text => Prompt.trimmed text = ":quit"
  | .interrupted => false
  | .broken _ => true

def source? : Input → Option String
  | .line text => if Prompt.trimmed text = "" then none else some (Prompt.trimmed text)
  | _ => none

theorem stops_line (text : String) : (line text).stops ↔ Prompt.trimmed text = ":quit" := by
  rw [stops, decide_eq_true_iff]

theorem source?_of_blank (h : Prompt.trimmed text = "") : (line text).source? = none := by
  rw [source?, if_pos h]

theorem source?_of_text (h : Prompt.trimmed text ≠ "") :
    (line text).source? = some (Prompt.trimmed text) := by
  rw [source?, if_neg h]

theorem filterMap_source?_line (lines : List String) :
    (lines.map line).filterMap source? = Prompt.sources lines := by
  induction lines with
  | nil => rfl
  | cons line lines ih =>
    rw [List.map_cons]
    by_cases hblank : Prompt.trimmed line = ""
    · rw [List.filterMap_cons_none (source?_of_blank hblank), ih,
        Prompt.sources_cons_blank hblank]
    · rw [List.filterMap_cons_some (source?_of_text hblank), ih, Prompt.sources_cons hblank]

end Input

namespace Prompt

/-- The transcript with what came before it: so many prompts, and the texts that were run on the
engine. -/
def Transcript.behind (prompts : Nat) (e : Engine) (sources : List String) (t : Transcript) :
    Transcript :=
  { t with
    output := String.join ((e.runAll sources).map shown) ++ t.output
    history := sources ++ t.history
    prompts := List.replicate prompts sign ++ t.prompts }

namespace Transcript

theorem behind_behind (m n : Nat) (e : Engine) (before after : List String) (t : Transcript) :
    (t.behind n (e.after before) after).behind m e before =
      t.behind (m + n) e (before ++ after) := by
  simp only [behind, Engine.runAll_append, List.map_append, String.join_append,
    String.append_assoc, List.append_assoc, List.replicate_add]

end Transcript

theorem step_of_goes {i : Input} (h : i.stops = false) (e : Engine) :
    step e i = .again i.source?.toList (String.join ((e.runAll i.source?.toList).map shown))
      (e.after i.source?.toList) := by
  cases i with
  | interrupted => rfl
  | broken reason => cases h
  | line text =>
    by_cases hblank : trimmed text = ""
    · rw [step, ofLine_of_blank hblank, Input.source?_of_blank hblank]
      rfl
    · have hquit : trimmed text ≠ ":quit" := by
        rw [Ne, ← Input.stops_line, h]
        exact Bool.false_ne_true
      rw [step, ofLine_of_text hblank hquit, Input.source?_of_text hblank]
      simp [Engine.runAll, Engine.after]

theorem step_of_stops {i : Input} (h : i.stops) (e : Engine) :
    ∃ halt, step e i = .halt halt ∧ halt.output = "" ∧ halt.code ≤ 1 ∧
      (halt.code = 1 ↔ ∃ reason, i = .broken reason) := by
  cases i with
  | interrupted => cases h
  | broken reason => exact ⟨_, rfl, rfl, by simp, by simp⟩
  | line text =>
    rw [step, ofLine_of_quit ((Input.stops_line text).1 h)]
    exact ⟨_, rfl, rfl, by simp, by simp⟩

theorem loop_cons {i : Input} (h : i.stops = false) (e : Engine) (rest : List Input) :
    loop e (i :: rest) =
      (loop (e.after i.source?.toList) rest).behind 1 e i.source?.toList := by
  rw [loop, step_of_goes h]
  rfl

theorem loop_append {before : List Input} (h : ∀ i ∈ before, i.stops = false) (e : Engine)
    (rest : List Input) :
    loop e (before ++ rest) =
      (loop (e.after (before.filterMap Input.source?)) rest).behind before.length e
        (before.filterMap Input.source?) := by
  induction before generalizing e with
  | nil => simp [Transcript.behind, Engine.after, Engine.runAll]
  | cons i before ih =>
    obtain ⟨hi, hbefore⟩ := List.forall_mem_cons.1 h
    have hsources : (i :: before).filterMap Input.source? =
        i.source?.toList ++ before.filterMap Input.source? := by
      cases hi : i.source? <;> simp [hi]
    rw [List.cons_append, loop_cons hi, ih hbefore, Transcript.behind_behind, hsources,
      Engine.after_append, List.length_cons, Nat.add_comm]

theorem loop_lines {lines : List String} (h : ∀ l ∈ lines, trimmed l ≠ ":quit") (e : Engine) :
    (loop e (lines.map .line)).output =
        String.join ((e.runAll (sources lines)).map shown) ++ "\n" ∧
      (loop e (lines.map .line)).engine = e.after (sources lines) := by
  have hgoes : ∀ i ∈ lines.map Input.line, i.stops = false := by
    intro i hi
    obtain ⟨l, hl, rfl⟩ := List.mem_map.1 hi
    rw [Bool.eq_false_iff, Ne, Input.stops_line]
    exact h l hl
  rw [← List.append_nil (lines.map Input.line), loop_append hgoes, Input.filterMap_source?_line]
  exact ⟨rfl, rfl⟩

theorem converse_lines {lines : List String} (h : ∀ l ∈ lines, trimmed l ≠ ":quit") (e : Engine) :
    (converse e (lines.map .line)).output =
        banner ++ "\n\n" ++ (String.join ((e.runAll (sources lines)).map shown) ++ "\n") ∧
      (converse e (lines.map .line)).engine = e.after (sources lines) := by
  obtain ⟨houtput, hengine⟩ := loop_lines h e
  exact ⟨congrArg (banner ++ "\n\n" ++ ·) houtput, hengine⟩

end Prompt

section

variable {line : String} (h : tokenize (line ++ "\n") = tokenize line)
include h

theorem tokenize_trimmed : tokenize (Prompt.trimmed line) = tokenize line := by
  have hclosed : isOpen line.toList = false := by
    apply (tokensOf_append_blank_iff (c := '\n') (by decide)).1
    simpa [tokenize_eq] using h
  rw [tokenize_eq, Prompt.trimmed, String.toList_ofList, tokensOf_trim hclosed, tokenize_eq]

theorem expressions_trimmed : expressions (Prompt.trimmed line) = expressions line := by
  rw [expressions, tokenize_trimmed h, expressions]

end

theorem readAll_empty : readAll (tokenize "") = .ok [] := by
  rw [tokenize_eq, String.toList_empty, tokensOf_nil, readAll]

theorem expressions_empty : expressions "" = [] := by
  rw [expressions, readAll_empty]
  rfl

theorem flatMap_expressions_sources {lines : List String}
    (h : ∀ l ∈ lines, tokenize (l ++ "\n") = tokenize l) :
    (Prompt.sources lines).flatMap expressions = lines.flatMap expressions := by
  induction lines with
  | nil => rfl
  | cons line lines ih =>
    obtain ⟨hline, hlines⟩ := List.forall_mem_cons.1 h
    rw [List.flatMap_cons, ← expressions_trimmed hline]
    by_cases hblank : Prompt.trimmed line = ""
    · rw [Prompt.sources_cons_blank hblank, ih hlines, hblank, expressions_empty, List.nil_append]
    · rw [Prompt.sources_cons hblank, List.flatMap_cons, ih hlines]

theorem output_flatMap_trace (reports : List Report) :
    output (reports.flatMap (·.trace)) = String.join (reports.map (output ·.trace)) := by
  induction reports with
  | nil => rfl
  | cons r reports ih =>
    rw [List.flatMap_cons, Flat.output_append, ih, List.map_cons, String.join_cons]

namespace Engine

theorem getLast_runAll (e : Engine) (sources : List String) :
    ((e.runAll sources).getLast?.map (·.engine)).getD e = e.after sources := by
  induction sources generalizing e with
  | nil => rfl
  | cons source sources ih =>
    rw [runAll, List.getLast?_cons, after_cons, ← ih]
    cases ((e.run source).engine.runAll sources).getLast? <;> rfl

theorem runEach_append {e : Engine} {before : List String}
    (h : ∀ r ∈ e.runAll before, r.result.isOk) (after : List String) :
    e.runEach (before ++ after) = e.runAll before ++ (e.after before).runEach after := by
  induction before generalizing e with
  | nil => rfl
  | cons source before ih =>
    obtain ⟨hfirst, hothers⟩ := List.forall_mem_cons.1 h
    cases hr : (e.run source).result with
    | error f => simp [hr, Except.isOk, Except.toBool] at hfirst
    | ok v => rw [List.cons_append, runEach_ok hr, ih hothers, runAll, after_cons, List.cons_append]

end Engine

theorem joins_sources {lines : List String}
    (h : ∀ l ∈ lines, (∃ ns, readAll (tokenize l) = .ok ns) ∧ tokenize (l ++ "\n") = tokenize l)
    (e : Engine) :
    (e.evaluateAll .nil (lines.flatMap expressions)).Joins e .nil (Prompt.sources lines)
      (e.runEach (Prompt.sources lines)) := by
  rw [← flatMap_expressions_sources fun l hl => (h l hl).2]
  apply joins_runEach
  intro source hsource
  obtain ⟨hmem, -⟩ := List.mem_filter.1 hsource
  obtain ⟨line, hline, rfl⟩ := List.mem_map.1 hmem
  rw [tokenize_trimmed (h line hline).2]
  exact (h line hline).1

section

variable {e : Engine} {source : String} (h : readAll (tokenize source) = .ok ns) (path : String)
include h

theorem execute_ok (hr : (e.evaluateAll .nil ns).result = .ok v) :
    (e.execute path (.ok source)).code = 0 ∧
      (e.execute path (.ok source)).output = output (e.evaluateAll .nil ns).trace ∧
      (e.execute path (.ok source)).engine = (e.evaluateAll .nil ns).engine := by
  simp only [Engine.execute, Engine.runFile, Engine.run, h, hr, true_and, and_true]
  rfl

theorem execute_error (hr : (e.evaluateAll .nil ns).result = .error f) :
    (e.execute path (.ok source)).code = 1 ∧
      (e.execute path (.ok source)).output =
        output (e.evaluateAll .nil ns).trace ++ f.text ++ "\n" ∧
      (e.execute path (.ok source)).engine = (e.evaluateAll .nil ns).engine := by
  simp only [Engine.execute, Engine.runFile, Engine.run, h, hr, true_and, and_true]
  rfl

end

section

variable {e : Engine} {lines : List String}
  (h : ∀ l ∈ lines, (∃ ns, readAll (tokenize l) = .ok ns) ∧ tokenize (l ++ "\n") = tokenize l)
  (path : String)
include h

theorem execute_lines_ok (hok : ∀ r ∈ e.runAll (Prompt.sources lines), r.result.isOk) :
    let finish := e.execute path (.ok ("\n".intercalate lines))
    finish.code = 0 ∧
      finish.output = String.join ((e.runAll (Prompt.sources lines)).map (output ·.trace)) ∧
      finish.engine = e.after (Prompt.sources lines) := by
  have heach := Engine.runEach_append hok []
  rw [List.append_nil, Engine.runEach, List.append_nil] at heach
  have hjoins := joins_sources h e
  rw [heach] at hjoins
  cases hr : (e.evaluateAll .nil (lines.flatMap expressions)).result with
  | error f =>
    obtain ⟨r, hmem, hf⟩ := (hjoins.failure f).1 hr
    have hisOk := hok r hmem
    simp [hf, Except.isOk, Except.toBool] at hisOk
  | ok v =>
    have hfinish := execute_ok (readAll_lines h) path hr
    rw [hjoins.trace, output_flatMap_trace, hjoins.engine, Engine.getLast_runAll] at hfinish
    exact hfinish

theorem execute_lines_error (hsources : Prompt.sources lines = before ++ source :: after)
    (hok : ∀ r ∈ e.runAll before, r.result.isOk)
    (hf : ((e.after before).run source).result = .error f) :
    let finish := e.execute path (.ok ("\n".intercalate lines))
    finish.code = 1 ∧
      finish.output =
        String.join ((e.runAll (before ++ [source])).map (output ·.trace)) ++ f.text ++ "\n" ∧
      finish.engine = e.after (before ++ [source]) := by
  have heach : e.runEach (Prompt.sources lines) = e.runAll (before ++ [source]) := by
    rw [hsources, Engine.runEach_append hok, Engine.runEach_error hf, Engine.runAll_append]
    rfl
  have hjoins := joins_sources h e
  rw [heach] at hjoins
  have hmem : (e.after before).run source ∈ e.runAll (before ++ [source]) := by
    rw [Engine.runAll_append]
    exact List.mem_append_right _ List.mem_cons_self
  have hfinish := execute_error (readAll_lines h) path ((hjoins.failure f).2 ⟨_, hmem, hf⟩)
  rw [hjoins.trace, output_flatMap_trace, hjoins.engine, Engine.getLast_runAll] at hfinish
  exact hfinish

end

/-- Lines typed at the prompt, one after the other, have the effect of a file with these lines, as
far as the first that fails: there the file ends, but the prompt goes on. -/
theorem execute_lines_agrees_with_converse (e : Engine) (path : String) {lines : List String}
    (h : ∀ l ∈ lines, (∃ ns, readAll (tokenize l) = .ok ns) ∧
      tokenize (l ++ "\n") = tokenize l ∧ Prompt.trimmed l ≠ ":quit") :
    let finish := e.execute path (.ok ("\n".intercalate lines))
    let session (typed : List String) := Prompt.converse e (typed.map .line)
    let reports (typed : List String) := e.runAll (Prompt.sources typed)
    let printed (typed : List String) := String.join ((reports typed).map (output ·.trace))
    (∀ typed, typed <+: lines → (session typed).output =
      Prompt.banner ++ "\n\n" ++ (String.join ((reports typed).map Prompt.shown) ++ "\n")) ∧
    ((∀ r ∈ reports lines, r.result.isOk) →
      finish.code = 0 ∧ finish.output = printed lines ∧ finish.engine = (session lines).engine) ∧
    ∀ before l after f, lines = before ++ l :: after → (∀ r ∈ reports before, r.result.isOk) →
      let r := (session before).engine.run (Prompt.trimmed l)
      r.result = .error f →
        reports (before ++ [l]) = reports before ++ [r] ∧
        Prompt.shown r = output r.trace ++ f.text ++ "\n" ∧
        finish.code = 1 ∧ finish.output = printed (before ++ [l]) ++ f.text ++ "\n" ∧
        finish.engine = (session (before ++ [l])).engine := by
  intro finish session reports printed
  have hlines : ∀ l ∈ lines, (∃ ns, readAll (tokenize l) = .ok ns) ∧
      tokenize (l ++ "\n") = tokenize l := fun l hl => ⟨(h l hl).1, (h l hl).2.1⟩
  have hquit : ∀ typed, typed <+: lines → ∀ l ∈ typed, Prompt.trimmed l ≠ ":quit" :=
    fun typed htyped l hl => (h l (htyped.subset hl)).2.2
  have hengines : ∀ typed, typed <+: lines →
      (session typed).engine = e.after (Prompt.sources typed) :=
    fun typed htyped => (Prompt.converse_lines (hquit typed htyped) e).2
  refine ⟨?_, ?_, ?_⟩
  · intro typed htyped
    exact (Prompt.converse_lines (hquit typed htyped) e).1
  · intro hok
    obtain ⟨hcode, houtput, hengine⟩ := execute_lines_ok hlines path hok
    exact ⟨hcode, houtput, hengine.trans (hengines lines List.prefix_rfl).symm⟩
  · intro before l after f hsplit hok r hf
    have hbefore := hengines before ⟨l :: after, hsplit.symm⟩
    have hthrough := hengines (before ++ [l]) ⟨after, by simp [hsplit]⟩
    -- a blank line does not fail, so this one is among those that are run
    have hl : Prompt.trimmed l ≠ "" := by
      intro hblank
      simp [r, hblank, Engine.run, readAll_empty, Engine.evaluateAll] at hf
    have hsources : Prompt.sources (before ++ [l]) =
        Prompt.sources before ++ [Prompt.trimmed l] := by
      rw [Prompt.sources_append, Prompt.sources_cons hl]
      rfl
    have hall : Prompt.sources lines =
        Prompt.sources before ++ Prompt.trimmed l :: Prompt.sources after := by
      rw [hsplit, Prompt.sources_append, Prompt.sources_cons hl]
    simp only [r, hbefore] at hf ⊢
    refine ⟨?_, ?_, ?_⟩
    · simp only [reports, hsources, Engine.runAll_append]
      rfl
    · simp only [Prompt.shown, hf]
    · obtain ⟨hcode, houtput, hengine⟩ := execute_lines_error hlines path hall hok hf
      rw [← hsources] at houtput hengine
      exact ⟨hcode, houtput, hengine.trans hthrough.symm⟩

theorem execute_lines_agrees_with_converse_failing :
    let lines := ["(println 1)", " ", " (define x (println 2)) (m) ", "x"]
    let e := Engine.fresh .working 0
    let finish := e.execute "p" (.ok ("\n".intercalate lines))
    let session (typed : List String) := Prompt.converse e (typed.map .line)
    (∀ l ∈ lines, (∃ ns, readAll (tokenize l) = .ok ns) ∧ tokenize (l ++ "\n") = tokenize l ∧
      Prompt.trimmed l ≠ ":quit") ∧
      (session lines).output = Prompt.banner ++
        "\n\n1\n(1)\n2\nUndefinedFunction(\"m\"): undefined\n(2)\n\n" ∧
      finish.code = 1 ∧ finish.output = "1\n2\nUndefinedFunction(\"m\"): undefined\n" ∧
      finish.engine = (session (lines.take 3)).engine := by
  -- the second line is blank, and the third prints and binds before it fails
  intro lines e finish session
  have hlines : ∀ l ∈ lines, readAll (tokenize l) = .ok (expressions l) ∧
      tokenize (l ++ "\n") = tokenize l ∧ Prompt.trimmed l ≠ ":quit" := by decide +kernel
  have h : ∀ l ∈ lines, (∃ ns, readAll (tokenize l) = .ok ns) ∧ tokenize (l ++ "\n") = tokenize l ∧
      Prompt.trimmed l ≠ ":quit" := fun l hl => ⟨⟨_, (hlines l hl).1⟩, (hlines l hl).2⟩
  obtain ⟨hsession, -, hfailing⟩ := execute_lines_agrees_with_converse e "p" h
  have hok : ∀ r ∈ e.runAll (Prompt.sources (lines.take 2)), r.result.isOk := by decide +kernel
  have hf : ((session (lines.take 2)).engine.run (Prompt.trimmed (lines[2]))).result =
    .error (.error (.undefinedFunction "m")) := by decide +kernel
  obtain ⟨-, -, hcode, houtput, hengine⟩ := hfailing (lines.take 2) lines[2] ["x"] _ rfl hok hf
  refine ⟨h, ?_, hcode, ?_, hengine⟩
  · rw [hsession lines List.prefix_rfl]
    decide +kernel
  · rw [houtput]
    decide +kernel

end Lisplet
