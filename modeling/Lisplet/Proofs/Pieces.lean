import Lisplet.Engine
import Lisplet.Proofs.Extension
import Lisplet.Proofs.Seams
import Mathlib.Algebra.Ring.Nat

namespace Lisplet

def expressions (source : String) : List Node := (readAll (tokenize source)).toOption.getD []

theorem readAll_eq_expressions {source : String} (h : ∃ ns, readAll (tokenize source) = .ok ns) :
    readAll (tokenize source) = .ok (expressions source) := by
  obtain ⟨ns, h⟩ := h
  rw [expressions, h]
  rfl

theorem tokenize_line {source : String} (h : tokenize (source ++ "\n") = tokenize source)
    (rest : String) : tokenize (source ++ "\n" ++ rest) = tokenize source ++ tokenize rest := by
  have hblank : Text.isBlank '\n' := by decide
  have hline : (source ++ "\n").toList = source.toList ++ ['\n'] := by simp
  have hclosed : isOpen source.toList = false := by
    apply (tokensOf_append_blank_iff hblank).1
    rw [← hline]
    exact h
  rw [tokenize_eq, String.toList_append, hline, List.append_assoc, List.singleton_append,
    tokensOf_append (stops_blank hblank rest.toList) hclosed, tokensOf_blank hblank]
  rfl

theorem readAll_lines {sources : List String}
    (h : ∀ s ∈ sources, (∃ ns, readAll (tokenize s) = .ok ns) ∧
      tokenize (s ++ "\n") = tokenize s) :
    readAll (tokenize ("\n".intercalate sources)) = .ok (sources.flatMap expressions) := by
  induction sources with
  | nil =>
    rw [String.intercalate_nil, tokenize_eq, String.toList_empty, tokensOf_nil, readAll,
      List.flatMap_nil]
  | cons s sources ih =>
    obtain ⟨⟨hread, hline⟩, hrest⟩ := List.forall_mem_cons.1 h
    have hfirst := readAll_eq_expressions hread
    rw [List.flatMap_cons]
    cases sources with
    | nil => rw [String.intercalate_singleton, hfirst, List.flatMap_nil, List.append_nil]
    | cons s' sources =>
      rw [String.intercalate_cons_cons, tokenize_line hline, readAll_append hfirst, ih hrest]
      rfl

namespace Tally

theorem eq_of_counts {a b : Tally} (hok : a.ok = b.ok) (herror : a.error = b.error)
    (heval : a.eval = b.eval) (hparse : a.parse = b.parse) : a = b := by
  cases a
  cases b
  simp_all

theorem zero_add (a : Tally) : zero + a = a := by
  apply eq_of_counts <;> simp [zero]

theorem add_assoc (a b c : Tally) : a + b + c = a + (b + c) := by
  apply eq_of_counts <;> simp [Nat.add_assoc]

end Tally

namespace Report

def andThen (first : Report) (next : Value → Engine → Report) : Report :=
  match first.result with
  | .ok v =>
    let others := next v first.engine
    { others with trace := first.trace ++ others.trace, tally := first.tally + others.tally }
  | .error _ => first

theorem andThen_ok {first : Report} (h : first.result = .ok v) (next : Value → Engine → Report) :
    first.andThen next =
      { next v first.engine with
        trace := first.trace ++ (next v first.engine).trace
        tally := first.tally + (next v first.engine).tally } := by
  simp only [andThen, h]

theorem andThen_error {first : Report} (h : first.result = .error f)
    (next : Value → Engine → Report) : first.andThen next = first := by
  simp only [andThen, h]

theorem andThen_assoc (first : Report) (next last : Value → Engine → Report) :
    (first.andThen next).andThen last = first.andThen fun v e => (next v e).andThen last := by
  cases hfirst : first.result with
  | error f => rw [andThen_error hfirst, andThen_error hfirst, andThen_error hfirst]
  | ok v =>
    rw [andThen_ok hfirst, andThen_ok hfirst]
    cases hnext : (next v first.engine).result with
    | error f => rw [andThen_error hnext, andThen_error (by exact hnext)]
    | ok w =>
      rw [andThen_ok hnext, andThen_ok (by exact hnext)]
      simp only [List.append_assoc, Tally.add_assoc]

end Report

namespace Engine

theorem evaluateAll_cons (e : Engine) (last : Value) (n : Node) (ns : List Node) :
    e.evaluateAll last (n :: ns) = (e.evaluate n).andThen fun v e' => e'.evaluateAll v ns := rfl

theorem evaluateAll_append (e : Engine) (last : Value) (ns ms : List Node) :
    e.evaluateAll last (ns ++ ms) =
      (e.evaluateAll last ns).andThen fun v e' => e'.evaluateAll v ms := by
  induction ns generalizing e last with
  | nil =>
    rw [List.nil_append, evaluateAll, Report.andThen_ok rfl]
    simp only [List.nil_append, Tally.zero_add]
  | cons n ns ih =>
    rw [List.cons_append, evaluateAll_cons, evaluateAll_cons, Report.andThen_assoc]
    simp only [ih]

def runEach (e : Engine) : List String → List Report
  | [] => []
  | source :: sources =>
    let first := e.run source
    match first.result with
    | .ok _ => first :: first.engine.runEach sources
    | .error _ => [first]

theorem runEach_ok {e : Engine} (h : (e.run source).result = .ok v) (sources : List String) :
    e.runEach (source :: sources) = e.run source :: (e.run source).engine.runEach sources := by
  simp only [runEach, h]

theorem runEach_error {e : Engine} (h : (e.run source).result = .error f) (sources : List String) :
    e.runEach (source :: sources) = [e.run source] := by
  simp only [runEach, h]

theorem run_eq {source : String} (h : ∃ ns, readAll (tokenize source) = .ok ns) (e : Engine) :
    e.run source =
      { e.evaluateAll .nil (expressions source) with
        tally := ⟨0, 0, 0, 1⟩ + (e.evaluateAll .nil (expressions source)).tally } := by
  rw [run, readAll_eq_expressions h]

end Engine

def lastOutcome (last : Except Failure Value) (runs : List (String × Report)) :
    Except Failure Value :=
  runs.foldl (fun last run => if expressions run.1 = [] then last else run.2.result) last

/-- The report on a whole program in terms of the reports on its pieces. -/
structure Report.Joins (whole : Report) (e : Engine) (last : Value) (sources : List String)
    (pieces : List Report) : Prop where
  result : whole.result = lastOutcome (.ok last) (sources.zip pieces)
  failure : ∀ f, whole.result = .error f ↔ ∃ r ∈ pieces, r.result = .error f
  length : ∀ v, whole.result = .ok v → pieces.length = sources.length
  trace : whole.trace = pieces.flatMap (·.trace)
  engine : whole.engine = (pieces.getLast?.map (·.engine)).getD e
  counts : ∀ count ∈ [Tally.ok, Tally.error, Tally.eval],
    count whole.tally = (pieces.map (count ·.tally)).sum
  parse : whole.tally.parse = 0 ∧ (pieces.map (·.tally.parse)).sum = pieces.length

theorem Report.Joins.nil (e : Engine) (last : Value) :
    Report.Joins ⟨.ok last, [], .zero, e⟩ e last [] [] where
  result := rfl
  failure f := by simp
  length _ _ := rfl
  trace := rfl
  engine := rfl
  counts := by simp [Tally.zero]
  parse := ⟨rfl, rfl⟩

namespace Engine

theorem parse_evaluate (e : Engine) (n : Node) : (e.evaluate n).tally.parse = 0 := by
  simp only [evaluate]
  split <;> rfl

theorem parse_evaluateAll (e : Engine) (last : Value) (ns : List Node) :
    (e.evaluateAll last ns).tally.parse = 0 := by
  induction ns generalizing e last with
  | nil => rfl
  | cons n ns ih =>
    rw [evaluateAll_cons]
    cases h : (e.evaluate n).result with
    | error f => rw [Report.andThen_error h, parse_evaluate]
    | ok v => rw [Report.andThen_ok h, Tally.parse_add, parse_evaluate, ih]

theorem evaluateAll_last {ns : List Node} (h : ns ≠ []) (e : Engine) (last last' : Value) :
    e.evaluateAll last ns = e.evaluateAll last' ns := by
  cases ns with
  | nil => exact absurd rfl h
  | cons n ns => rfl

end Engine

/-- What one piece, run by itself, has in common with its part in the whole. -/
structure Report.Piece (part : Report) (last : Value) (source : String) (piece : Report) :
    Prop where
  trace : piece.trace = part.trace
  engine : piece.engine = part.engine
  counts : ∀ count ∈ [Tally.ok, Tally.error, Tally.eval], count piece.tally = count part.tally
  parse : part.tally.parse = 0 ∧ piece.tally.parse = 1
  result : part.result = if expressions source = [] then .ok last else piece.result
  failure : ∀ f, part.result = .error f ↔ piece.result = .error f

theorem piece_run {source : String} (h : ∃ ns, readAll (tokenize source) = .ok ns) (e : Engine)
    (last : Value) :
    (e.evaluateAll last (expressions source)).Piece last source (e.run source) := by
  rw [Engine.run_eq h]
  by_cases hnil : expressions source = []
  · simp only [hnil]
    constructor <;> simp [Engine.evaluateAll, Tally.zero, hnil]
  · rw [Engine.evaluateAll_last hnil e last .nil]
    constructor <;> simp [hnil, Engine.parse_evaluateAll]

theorem Report.Piece.joins_of_error {part piece : Report} (h : part.Piece last source piece)
    (hpart : part.result = .error f) (e : Engine) (sources : List String) :
    part.Joins e last (source :: sources) [piece] where
  result := by simp [lastOutcome, h.result]
  failure g := by simp [h.failure]
  length v hv := by simp [hpart] at hv
  trace := by simp [h.trace]
  engine := by simp [h.engine]
  counts count hcount := by simp [h.counts count hcount]
  parse := by simp [h.parse]

theorem Report.Piece.exists_ok {part piece : Report} (h : part.Piece last source piece)
    (hpart : part.result = .ok v) : ∃ w, piece.result = .ok w := by
  cases hpiece : piece.result with
  | ok w => exact ⟨w, rfl⟩
  | error f => simp [(h.failure f).2 hpiece] at hpart

theorem Report.Piece.joins_of_ok {part piece rest : Report} (h : part.Piece last source piece)
    (hpart : part.result = .ok v) (hrest : rest.Joins part.engine v sources pieces) (e : Engine) :
    Report.Joins
      { rest with trace := part.trace ++ rest.trace, tally := part.tally + rest.tally } e last
      (source :: sources) (piece :: pieces) where
  result := by
    rw [List.zip_cons_cons, lastOutcome, List.foldl_cons, ← h.result, hpart]
    exact hrest.result
  failure f := by
    have hne : piece.result ≠ .error f := by simp [← h.failure, hpart]
    simp [hrest.failure, hne]
  length w hw := by simp [hrest.length w hw]
  trace := by simp [h.trace, hrest.trace]
  engine := by
    rw [List.getLast?_cons, hrest.engine]
    cases pieces.getLast? with
    | none => exact h.engine.symm
    | some r => rfl
  counts := by
    have hc := h.counts
    have hc' := hrest.counts
    simp at hc hc' ⊢
    simp [hc, hc']
  parse := by simp [h.parse, hrest.parse, Nat.add_comm]

theorem joins_runEach {sources : List String}
    (h : ∀ s ∈ sources, ∃ ns, readAll (tokenize s) = .ok ns) (e : Engine) (last : Value) :
    (e.evaluateAll last (sources.flatMap expressions)).Joins e last sources
      (e.runEach sources) := by
  induction sources generalizing e last with
  | nil => exact .nil e last
  | cons s sources ih =>
    obtain ⟨hs, hsources⟩ := List.forall_mem_cons.1 h
    have hpiece := piece_run hs e last
    rw [List.flatMap_cons, Engine.evaluateAll_append]
    cases hr : (e.evaluateAll last (expressions s)).result with
    | error f =>
      rw [Report.andThen_error hr, Engine.runEach_error ((hpiece.failure f).1 hr)]
      exact hpiece.joins_of_error hr e sources
    | ok v =>
      -- the values differ where the text has no expression: in the whole, the one before stays
      obtain ⟨w, hw⟩ := hpiece.exists_ok hr
      rw [Report.andThen_ok hr, Engine.runEach_ok hw, hpiece.engine]
      exact hpiece.joins_of_ok hr (ih hsources _ v) e

/-- Texts that can each be read by itself, put on lines below each other, are run as they are in
turn, up to the first that fails. -/
theorem run_lines_eq_runEach (e : Engine) {sources : List String}
    (h : ∀ s ∈ sources, (∃ ns, readAll (tokenize s) = .ok ns) ∧
      tokenize (s ++ "\n") = tokenize s) :
    let whole := e.run ("\n".intercalate sources)
    let pieces := e.runEach sources
    (∀ f, whole.result = .error f ↔ ∃ r ∈ pieces, r.result = .error f) ∧
      (∀ v, whole.result = .ok v → pieces.length = sources.length ∧
        lastOutcome (.ok .nil) (sources.zip pieces) = .ok v) ∧
      whole.trace = pieces.flatMap (·.trace) ∧
      whole.engine = (pieces.getLast?.map (·.engine)).getD e ∧
      (∀ count ∈ [Tally.ok, Tally.error, Tally.eval],
        count whole.tally = (pieces.map (count ·.tally)).sum) ∧
      whole.tally.parse = 1 ∧ (pieces.map (·.tally.parse)).sum = pieces.length := by
  intro whole pieces
  have hread := readAll_lines h
  have hwhole : whole = { e.evaluateAll .nil (sources.flatMap expressions) with
      tally := ⟨0, 0, 0, 1⟩ + (e.evaluateAll .nil (sources.flatMap expressions)).tally } := by
    simp only [whole, Engine.run, hread]
  have hjoins := joins_runEach (fun s hs => (h s hs).1) e .nil
  rw [hwhole]
  refine ⟨hjoins.failure, ?_, hjoins.trace, hjoins.engine, ?_, ?_, hjoins.parse.2⟩
  · intro v hv
    exact ⟨hjoins.length v hv, hjoins.result.symm.trans hv⟩
  · have hcounts := hjoins.counts
    simpa using hcounts
  · rw [Tally.parse_add, hjoins.parse.1]

theorem run_lines_eq_runEach_failing :
    let sources := ["(define x 1)", " ", "(println x) (car x) 7", "(define x 2)"]
    let e := Engine.fresh .working 0
    let whole := e.run ("\n".intercalate sources)
    let pieces := e.runEach sources
    (∀ s ∈ sources, (∃ ns, readAll (tokenize s) = .ok ns) ∧ tokenize (s ++ "\n") = tokenize s) ∧
      (∃ f, whole.result = .error f ∧ ∃ r ∈ pieces, r.result = .error f) ∧
      whole.trace = pieces.flatMap (·.trace) ∧ output whole.trace = "1\n" ∧
      whole.tally = ⟨2, 1, 3, 1⟩ ∧ (pieces.map (·.tally.parse)).sum = 3 := by
  -- the second text has no expression, and the third fails halfway
  intro sources e whole pieces
  have hread : ∀ s ∈ sources, (readAll (tokenize s)).isOk := by decide +kernel
  have hline : ∀ s ∈ sources, tokenize (s ++ "\n") = tokenize s := by decide +kernel
  have h : ∀ s ∈ sources, (∃ ns, readAll (tokenize s) = .ok ns) ∧
      tokenize (s ++ "\n") = tokenize s := by
    intro s hs
    refine ⟨?_, hline s hs⟩
    have := hread s hs
    cases hr : readAll (tokenize s) with
    | ok ns => exact ⟨ns, rfl⟩
    | error err => simp [hr, Except.isOk, Except.toBool] at this
  obtain ⟨hfailure, -, htrace, -, hcounts, hparse, hparses⟩ := run_lines_eq_runEach e h
  have hfailed : ∃ r ∈ pieces, r.result.isOk = false := by decide +kernel
  obtain ⟨r, hr, hnot⟩ := hfailed
  obtain ⟨f, hf⟩ : ∃ f, r.result = .error f := by
    cases hresult : r.result with
    | ok v => simp [hresult, Except.isOk, Except.toBool] at hnot
    | error f => exact ⟨f, rfl⟩
  have hpieces : output (pieces.flatMap (·.trace)) = "1\n" ∧ pieces.length = 3 ∧
      (pieces.map (·.tally.ok)).sum = 2 ∧ (pieces.map (·.tally.error)).sum = 1 ∧
      (pieces.map (·.tally.eval)).sum = 3 := by decide +kernel
  obtain ⟨houtput, hlength, hok, herror, heval⟩ := hpieces
  refine ⟨h, ⟨f, (hfailure f).2 ⟨r, hr, hf⟩, r, hr, hf⟩, htrace, ?_, ?_, ?_⟩
  · rw [htrace, houtput]
  · exact Tally.eq_of_counts ((hcounts _ (by simp)).trans hok) ((hcounts _ (by simp)).trans herror)
      ((hcounts _ (by simp)).trans heval) hparse
  · rw [hparses, hlength]

end Lisplet
