import Lisplet.Proofs.Sessions

namespace Lisplet

theorem exists_read_of_readAll (h : readAll ts = .ok (n :: ns)) :
    ∃ rest, read ts = (.ok n, rest) := by
  cases ts with
  | nil => simp [readAll] at h
  | cons t ts =>
    rcases hread : read (t :: ts) with ⟨r | m, rest⟩
    · simp [readAll_of_read_error hread] at h
    · rw [readAll_of_read_ok hread] at h
      cases hrest : readAll rest with
      | error err => simp [hrest, Except.map] at h
      | ok ms =>
        obtain ⟨rfl, -⟩ : m = n ∧ ms = ns := by simpa [hrest, Except.map] using h
        exact ⟨rest, rfl⟩

theorem tokenize_below {source : String} (h : isOpen source.toList = false) (more : String) :
    tokenize (source ++ "\n" ++ more) = tokenize source ++ tokenize more := by
  apply tokenize_line
  rw [tokenize_eq, String.toList_append]
  exact (tokensOf_append_blank_iff (c := '\n') (by decide)).2 h

theorem evaluateFirst_of_read (h : read (tokenize source) = (.ok n, rest)) (limit : Nat) :
    evaluateFirst limit source = eval limit n .working .fresh := by
  simp only [evaluateFirst, h]

theorem evaluateFirst_of_error (h : read (tokenize source) = (.error err, rest)) (limit : Nat) :
    evaluateFirst limit source = ⟨.error (.error (.ofSyntax err)), .fresh, []⟩ := by
  simp only [evaluateFirst, h]

def Report.Shows (r : Report) (x : Effect Value) : Prop :=
  r.result = x.result ∧ output r.trace = output x.trace

namespace Engine

theorem shows_evaluate (e : Engine) (n : Node) :
    (e.evaluate n).Shows (eval e.callLimit n e.outlet e.scopes) := by
  refine ⟨result_evaluate e n, ?_⟩
  rw [evaluate]
  split
  · rfl
  · -- the failure is noted in the log, but not printed
    rw [Flat.output_append]
    exact String.append_empty
  · rfl

theorem shows_run {e : Engine} (h : readAll (tokenize source) = .ok [n]) :
    (e.run source).Shows (eval e.callLimit n e.outlet e.scopes) := by
  obtain ⟨hresult, houtput⟩ := shows_evaluate e n
  rw [run, h]
  simp only [evaluateAll_cons]
  cases hr : (e.evaluate n).result with
  | error f =>
    rw [Report.andThen_error hr]
    exact ⟨hresult, houtput⟩
  | ok v =>
    rw [Report.andThen_ok hr]
    refine ⟨hr.symm.trans hresult, ?_⟩
    simpa only [evaluateAll, List.append_nil] using houtput

end Engine

/-- Nothing that stands behind the first expression matters to it, not even whether it can be read;
and a token that cannot stand where it does is blamed whatever follows. -/
theorem evaluateFirst_agrees_with_run (limit : Nat) (source : String) :
    (∀ n rest, read (tokenize source) = (.ok n, rest) →
      ∃ printed, n.print? = some printed ∧
        ((Engine.fresh .working limit).run printed).Shows (evaluateFirst limit source)) ∧
    (isOpen source.toList = false → ∀ more,
      (∀ n rest, read (tokenize source) = (.ok n, rest) →
        evaluateFirst limit (source ++ "\n" ++ more) = evaluateFirst limit source) ∧
      ∀ t rest, read (tokenize source) = (.error (.unexpected t), rest) →
        (evaluateFirst limit source).result = .error (.error (.unexpectedToken t)) ∧
          evaluateFirst limit (source ++ "\n" ++ more) = evaluateFirst limit source) ∧
    ∀ n, readAll (tokenize source) = .ok [n] →
      ((Engine.fresh .working limit).run source).Shows (evaluateFirst limit source) := by
  refine ⟨?_, ?_, ?_⟩
  · intro n rest h
    have hn := Node.isWritable_of_read h
    rw [evaluateFirst_of_read h]
    exact ⟨n.render, Node.print?_of_isWritable hn, Engine.shows_run (Node.readAll_render hn)⟩
  · intro hclosed more
    have htokens := tokenize_below hclosed more
    refine ⟨?_, ?_⟩
    · intro n rest h
      have hmore := read_append h (by simp) (tokenize more)
      rw [← htokens] at hmore
      rw [evaluateFirst_of_read h, evaluateFirst_of_read hmore]
    · intro t rest h
      have hmore := read_append h (by simp) (tokenize more)
      rw [← htokens] at hmore
      rw [evaluateFirst_of_error h, evaluateFirst_of_error hmore]
      exact ⟨rfl, rfl⟩
  · intro n h
    obtain ⟨rest, hread⟩ := exists_read_of_readAll h
    rw [evaluateFirst_of_read hread]
    exact Engine.shows_run h

theorem evaluateFirst_agrees_with_run_before_rubbish :
    let source := "(add (println 1) x) ]"
    let n : Node := .call "add" [.call "println" [.number 1], .identifier "x"]
    let misplaced := "(defn \"f\" ["
    let single := " (println -2) "
    let e := Engine.fresh .working 0
    (isOpen source.toList = false ∧ read (tokenize source) = (.ok n, [.closeBracket]) ∧
      (e.run "(add (println 1) x)").Shows (evaluateFirst 0 (source ++ "\n" ++ "(\"")) ∧
      output (evaluateFirst 0 source).trace = "1\n") ∧
    (isOpen misplaced.toList = false ∧
      read (tokenize misplaced) = (.error (.unexpected (.text "f")), [.openBracket]) ∧
      (evaluateFirst 0 (misplaced ++ "\n" ++ "x] 1)")).result =
        .error (.error (.unexpectedToken (.text "f")))) ∧
    readAll (tokenize single) = .ok [.call "println" [.number (-2)]] ∧
      (e.run single).Shows (evaluateFirst 0 single) := by
  -- the expression prints and fails, and a bracket that belongs to nothing stands behind it
  intro source n misplaced single e
  have hclosed : isOpen source.toList = false ∧ isOpen misplaced.toList = false := by decide +kernel
  have hread : read (tokenize source) = (.ok n, [.closeBracket]) := by decide +kernel
  have hblamed : read (tokenize misplaced) =
    (.error (.unexpected (.text "f")), [.openBracket]) := by decide +kernel
  have hsingle : readAll (tokenize single) = .ok [.call "println" [.number (-2)]] := by
    decide +kernel
  have hprinted : n.print? = some "(add (println 1) x)" := by decide +kernel
  obtain ⟨hshows, hbelow, -⟩ := evaluateFirst_agrees_with_run 0 source
  obtain ⟨-, hbelow', -⟩ := evaluateFirst_agrees_with_run 0 misplaced
  obtain ⟨printed, hprint, hrun⟩ := hshows n _ hread
  obtain rfl : printed = "(add (println 1) x)" := Option.some.inj (hprint.symm.trans hprinted)
  have hsame := (hbelow hclosed.1 "(\"").1 n _ hread
  obtain ⟨hresult, hsame'⟩ := (hbelow' hclosed.2 "x] 1)").2 _ _ hblamed
  refine ⟨⟨hclosed.1, hread, ?_, by decide +kernel⟩, ⟨hclosed.2, hblamed, ?_⟩, hsingle, ?_⟩
  · rw [hsame]
    exact hrun
  · rw [hsame']
    exact hresult
  · exact (evaluateFirst_agrees_with_run 0 single).2.2 _ hsingle

end Lisplet
