import Lisplet.Proofs.Declarations
import Lisplet.Proofs.Outlets
import Lisplet.Proofs.Pieces

namespace Lisplet

namespace Entry

def opens (e : Entry) : Bool := e.message == "entering function"

def closes (e : Entry) : Bool := e.message == "leaving function"

def binds (e : Entry) : Bool := e.message == "defined" || e.message == "declared function"

def fails (e : Entry) : Bool := e.message == "evaluation failed"

def text? (key : String) (e : Entry) : Option String :=
  match e.details.lookup key with
  | some (.text s) => some s
  | _ => none

def depth? (e : Entry) : Option Nat :=
  match e.details.lookup "depth" with
  | some (.count n) => some n
  | _ => none

end Entry

/-- The entries from one moment to another at which the same calls, so many of them, are open. -/
inductive Nested : Nat → List Entry → Prop
  | nil : Nested d []
  | note : e.opens = false → e.closes = false → (e.binds → e.depth? = some d) → Nested d es →
      Nested d (e :: es)
  | call : enter.opens → enter.depth? = some (d + 1) → enter.text? "name" = some f →
      leave.closes → leave.depth? = some d → leave.text? "name" = some f →
      Nested (d + 1) inside → Nested d es → Nested d (enter :: (inside ++ leave :: es))

namespace Nested

theorem append (h : Nested d es) (h' : Nested d es') : Nested d (es ++ es') := by
  induction h with
  | nil => exact h'
  | note hopens hcloses hdepth _ ih => exact .note hopens hcloses hdepth (ih h')
  | call henter hdepth hname hleave hdepth' hname' hinside _ _ ih =>
    rw [List.cons_append, List.append_assoc, List.cons_append]
    exact .call henter hdepth hname hleave hdepth' hname' hinside (ih h')

theorem closes_of_opens {e : Entry} (h : e.opens) : e.closes = false := by
  simp_all [Entry.opens, Entry.closes]

theorem opens_of_closes {e : Entry} (h : e.closes) : e.opens = false := by
  simp_all [Entry.opens, Entry.closes]

theorem countP_closes (h : Nested d es) : es.countP Entry.closes = es.countP Entry.opens := by
  induction h with
  | nil => rfl
  | note hopens hcloses _ _ ih => simp [hopens, hcloses, ih]
  | call henter _ _ hleave _ _ _ _ ih ih' =>
    simp only [List.countP_cons, List.countP_append, henter, hleave, closes_of_opens henter,
      opens_of_closes hleave, ih, ih', if_true, Bool.false_eq_true, if_false]
    omega

theorem split_append_cons {inside es before after : List Entry} {leave e : Entry}
    (h : inside ++ leave :: es = before ++ e :: after) :
    (∃ between, inside = before ++ e :: between) ∨ (before = inside ∧ e = leave) ∨
      ∃ between, before = inside ++ leave :: between ∧ es = between ++ e :: after := by
  obtain ⟨between, rfl, hes⟩ | ⟨between, rfl, hes⟩ := List.append_eq_append_iff.1 h
  · cases between with
    | nil => exact .inr (.inl ⟨by simp, (List.cons.inj hes).1.symm⟩)
    | cons b between =>
      obtain ⟨rfl, rfl⟩ := List.cons.inj hes
      exact .inr (.inr ⟨between, rfl, rfl⟩)
  · cases between with
    | nil => exact .inr (.inl ⟨by simp, (List.cons.inj hes).1⟩)
    | cons b between =>
      obtain ⟨rfl, -⟩ := List.cons.inj hes
      exact .inl ⟨between, rfl⟩

theorem depth_eq (h : Nested d es) (hes : es = before ++ e :: after)
    (he : e.opens ∨ e.closes ∨ e.binds) :
    ∃ k, e.depth? = some k ∧
      (before ++ [e]).countP Entry.closes + k = d + (before ++ [e]).countP Entry.opens := by
  induction h generalizing before after with
  | nil => simp at hes
  | @note d es' e' hopens hcloses hdepth _ ih =>
    cases before with
    | nil =>
      obtain ⟨rfl, -⟩ := List.cons.inj hes
      simp only [hopens, hcloses, Bool.false_eq_true, false_or] at he
      exact ⟨d, hdepth he, by simp [hopens, hcloses]⟩
    | cons b before =>
      obtain ⟨rfl, htail⟩ := List.cons.inj hes
      obtain ⟨k, hk, hcount⟩ := ih htail
      exact ⟨k, hk, by simpa [hopens, hcloses] using hcount⟩
  | @call d f inside es' enter leave henter hdepth _ hleave hdepth' _ hinside _ ih ih' =>
    have henter' := closes_of_opens henter
    have hleave' := opens_of_closes hleave
    have hbalance := hinside.countP_closes
    cases before with
    | nil =>
      obtain ⟨rfl, -⟩ := List.cons.inj hes
      exact ⟨d + 1, hdepth, by simp [henter, henter']⟩
    | cons b before =>
      obtain ⟨rfl, htail⟩ := List.cons.inj hes
      -- inside the call, where it is left, or after it
      obtain ⟨between, hwithin⟩ | ⟨rfl, rfl⟩ | ⟨between, rfl, hlater⟩ := split_append_cons htail
      · obtain ⟨k, hk, hcount⟩ := ih hwithin
        refine ⟨k, hk, ?_⟩
        rw [List.cons_append, List.countP_cons_of_neg (by simp [henter']),
          List.countP_cons_of_pos henter]
        omega
      · refine ⟨d, hdepth', ?_⟩
        simp only [List.cons_append, List.countP_cons, List.countP_append, henter, henter', hleave,
          hleave', hbalance, List.countP_nil, if_true, Bool.false_eq_true, if_false]
        omega
      · obtain ⟨k, hk, hcount⟩ := ih' hlater
        refine ⟨k, hk, ?_⟩
        simp only [List.cons_append, List.append_assoc, List.countP_cons, List.countP_append,
          henter, henter', hleave, hleave', hbalance, if_true, Bool.false_eq_true, if_false] at hcount ⊢
        omega

end Nested

theorem log_append (t t' : List Event) : log (t ++ t') = log t ++ log t' := List.filterMap_append

structure Effect.Nests (s : Scopes) (e : Effect α) : Prop where
  depth : e.scopes.depth = s.depth
  nested : Nested s.depth (log e.trace)
  unfailed : ∀ entry ∈ log e.trace, entry.fails = false

namespace Action

def Nests (x : Action α) : Prop := ∀ outlet s, (x outlet s).Nests s

theorem Nests.bind {x : Action α} {f : α → Action β} (hx : x.Nests) (hf : ∀ a, (f a).Nests) :
    (x >>= f).Nests := by
  intro outlet s
  obtain ⟨hdepth, hnested, hunfailed⟩ := hx outlet s
  cases hr : (x outlet s).result with
  | error e =>
    rw [bind_error hr]
    exact ⟨hdepth, hnested, hunfailed⟩
  | ok a =>
    rw [bind_ok hr]
    obtain ⟨hdepth', hnested', hunfailed'⟩ := hf a outlet (x outlet s).scopes
    rw [hdepth] at hdepth' hnested'
    refine ⟨hdepth', ?_, ?_⟩
    · rw [log_append]
      exact hnested.append hnested'
    · rw [log_append]
      exact List.forall_mem_append.2 ⟨hunfailed, hunfailed'⟩

theorem nests_congruence : Congruence fun {_} x _ => Nests x where
  pure _ _ _ := ⟨rfl, .nil, List.forall_mem_nil _⟩
  fail _ _ _ := ⟨rfl, .nil, List.forall_mem_nil _⟩
  lookup _ _ _ := ⟨rfl, .nil, List.forall_mem_nil _⟩
  define x v outlet s := by
    refine ⟨rfl, .note rfl rfl (fun _ => rfl) .nil, fun entry h => ?_⟩
    obtain rfl := List.mem_singleton.1 h
    rfl
  declare f outlet s := by
    refine ⟨rfl, .note rfl rfl (fun _ => rfl) .nil, fun entry h => ?_⟩
    obtain rfl := List.mem_singleton.1 h
    rfl
  print line outlet s := by
    cases outlet with
    | working => exact ⟨rfl, .nil, List.forall_mem_nil _⟩
    | broken reason =>
      refine ⟨rfl, .note rfl rfl (nomatch ·) .nil, fun entry h => ?_⟩
      obtain rfl := List.mem_singleton.1 h
      rfl
  bind := .bind

theorem Nests.within {body : Action Value} (h : body.Nests) (f : Procedure) (vs : List Value) :
    (within f vs body).Nests := by
  intro outlet s
  obtain ⟨hdepth, hnested, hunfailed⟩ := h outlet (s.push (.ofList (f.parameters.zip vs)))
  rw [Scopes.depth_push] at hdepth hnested
  simp only [Action.within]
  generalize body outlet (s.push (.ofList (f.parameters.zip vs))) = inside at *
  have hleft := Scopes.depth_popped hdepth
  refine ⟨hleft, ?_, ?_⟩
  · simp only [hleft, List.cons_append, log_cons, log_append]
    exact .call rfl rfl rfl rfl rfl rfl hnested .nil
  · intro entry hentry
    simp only [List.cons_append, log_cons, log_append] at hentry
    obtain rfl | hentry | rfl : entry = _ ∨ entry ∈ log inside.trace ∨ entry = _ := by
      simpa [Event.entry?, log] using hentry
    · rfl
    · exact hunfailed entry hentry
    · rfl

end Action

theorem Eval.nests_apply (limit : Nat) (f : Procedure) (vs : List Value) :
    (apply limit f vs).Nests := by
  induction limit generalizing f vs with
  | zero => exact Action.nests_congruence.fail .tooDeep
  | succ limit ih =>
    apply Action.Nests.within
    exact @evalWith_congr _ Action.nests_congruence (apply limit) (apply limit) ih f.body

theorem nests_eval (limit : Nat) (n : Node) : (eval limit n).Nests :=
  @Eval.evalWith_congr _ Action.nests_congruence (Eval.apply limit) (Eval.apply limit)
    (Eval.nests_apply limit) n

def Entry.failure (n : Node) (err : Error) : Entry :=
  ⟨.debug, "evaluation failed", [("expression", .text n.render), ("error", .text err.text)]⟩

/-- The log of an evaluation with the result: an error is noted once, as the last entry, when every
call is closed. -/
inductive Notes (d : Nat) : Except Failure Value → List Entry → Prop
  | nothing : (∀ err, result ≠ .error (.error err)) → Nested d entries →
      (∀ entry ∈ entries, entry.fails = false) → Notes d result entries
  | failure (n : Node) (err : Error) : Nested d entries → (∀ entry ∈ entries, entry.fails = false) →
      Notes d (.error (.error err)) (entries ++ [.failure n err])

namespace Notes

theorem ok (h : Nested d entries) (h' : ∀ entry ∈ entries, entry.fails = false) :
    Notes d (.ok v) entries := .nothing nofun h h'

theorem nested (h : Notes d result entries) : Nested d entries := by
  cases h with
  | nothing _ hnested _ => exact hnested
  | failure n err hnested _ => exact hnested.append (.note rfl rfl (nomatch ·) .nil)

theorem append (h : Notes d (.ok v) entries) (h' : Notes d result entries') :
    Notes d result (entries ++ entries') := by
  cases h with
  | nothing _ hnested hunfailed =>
    cases h' with
    | nothing hresult hnested' hunfailed' =>
      exact .nothing hresult (hnested.append hnested')
        (List.forall_mem_append.2 ⟨hunfailed, hunfailed'⟩)
    | failure n err hnested' hunfailed' =>
      rw [← List.append_assoc]
      exact .failure n err (hnested.append hnested')
        (List.forall_mem_append.2 ⟨hunfailed, hunfailed'⟩)

theorem exists_fails_iff (h : Notes d result entries) :
    (∃ entry ∈ entries, entry.fails) ↔ ∃ err, result = .error (.error err) := by
  cases h with
  | nothing hresult _ hunfailed =>
    simp only [hresult, exists_false, iff_false]
    rintro ⟨entry, hentry, hfails⟩
    simp [hunfailed entry hentry] at hfails
  | failure n err _ _ => exact ⟨fun _ => ⟨err, rfl⟩, fun _ => ⟨.failure n err, by simp, rfl⟩⟩

theorem eq_append_of_fails (h : Notes d result entries) (hentry : entry ∈ entries)
    (hfails : entry.fails) :
    ∃ before err, entries = before ++ [entry] ∧ (∀ other ∈ before, other.fails = false) ∧
      before.countP Entry.closes = before.countP Entry.opens ∧ result = .error (.error err) ∧
      entry.text? "error" = some err.text := by
  cases h with
  | nothing _ _ hunfailed => simp [hunfailed entry hentry] at hfails
  | @failure before n err hnested hunfailed =>
    obtain hentry | hentry := List.mem_append.1 hentry
    · simp [hunfailed entry hentry] at hfails
    · obtain rfl := List.mem_singleton.1 hentry
      exact ⟨before, err, rfl, hunfailed, hnested.countP_closes, rfl, rfl⟩

end Notes

namespace Engine

theorem depth_evaluate (e : Engine) (n : Node) :
    (e.evaluate n).engine.scopes.depth = e.scopes.depth := by
  rw [Scopes.depth, outer_evaluate, Scopes.depth]

theorem notes_evaluate (e : Engine) (n : Node) :
    Notes e.scopes.depth (e.evaluate n).result (log (e.evaluate n).trace) := by
  obtain ⟨-, hnested, hunfailed⟩ := nests_eval e.callLimit n e.outlet e.scopes
  rw [evaluate]
  split
  · exact .ok hnested hunfailed
  · rw [log_append]
    exact .failure n _ hnested hunfailed
  · rename_i hne _
    exact .nothing (fun err herr => hne err (Except.error.inj herr)) hnested hunfailed

theorem notes_evaluateAll (e : Engine) (last : Value) (ns : List Node) :
    Notes e.scopes.depth (e.evaluateAll last ns).result (log (e.evaluateAll last ns).trace) := by
  induction ns generalizing e last with
  | nil => exact .ok .nil (List.forall_mem_nil _)
  | cons n ns ih =>
    have hfirst := e.notes_evaluate n
    rw [evaluateAll_cons]
    cases hr : (e.evaluate n).result with
    | error f =>
      rw [Report.andThen_error hr]
      exact hfirst
    | ok v =>
      have hothers := ih (e.evaluate n).engine v
      rw [hr] at hfirst
      rw [depth_evaluate] at hothers
      rw [Report.andThen_ok hr, log_append]
      exact hfirst.append hothers

theorem notes_run {source : String} (h : readAll (tokenize source) = .ok ns) (e : Engine) :
    Notes e.scopes.depth (e.run source).result (log (e.run source).trace) := by
  rw [run, h]
  exact e.notes_evaluateAll .nil ns

theorem Reachable.depth_eq {e : Engine} (h : e.Reachable) : e.scopes.depth = 0 := by
  rw [Scopes.depth, h.outer_eq]
  rfl

end Engine

/-- Calls are left in the reverse order in which they are entered, and the depth in an entry counts
those that are open. A failure is noted once, at the end, when every call is closed. -/
theorem run_log_nested {e : Engine} (he : e.Reachable) {source : String}
    (hend : (e.run source).result ≠ .error .tooDeep) :
    let entries := log (e.run source).trace
    Nested 0 entries ∧
      (∀ before entry after, entries = before ++ entry :: after →
        entry.opens ∨ entry.closes ∨ entry.binds →
        ∃ depth, entry.depth? = some depth ∧ (before ++ [entry]).countP Entry.closes + depth =
          (before ++ [entry]).countP Entry.opens) ∧
      ((∃ entry ∈ entries, entry.fails) ↔
        (∃ ns, readAll (tokenize source) = .ok ns) ∧ ∃ f, (e.run source).result = .error f) ∧
      ∀ entry ∈ entries, entry.fails →
        ∃ before err, entries = before ++ [entry] ∧ (∀ other ∈ before, other.fails = false) ∧
          before.countP Entry.closes = before.countP Entry.opens ∧
          (e.run source).result = .error (.error err) ∧ entry.text? "error" = some err.text := by
  intro entries
  cases hread : readAll (tokenize source) with
  | error err =>
    have hnone : entries = [] := by simp only [entries, Engine.run, hread]; rfl
    simp [hnone, Nested.nil]
  | ok ns =>
    have hnotes := e.notes_run hread
    rw [he.depth_eq] at hnotes
    refine ⟨hnotes.nested, ?_, ?_, ?_⟩
    · intro before entry after hentries hkind
      simpa using hnotes.nested.depth_eq hentries hkind
    · rw [hnotes.exists_fails_iff]
      constructor
      · rintro ⟨err, herr⟩
        exact ⟨⟨ns, rfl⟩, .error err, herr⟩
      · rintro ⟨-, f, hf⟩
        cases f with
        | error err => exact ⟨err, hf⟩
        | missingNode =>
          have hregular := (Checked.run_eq_of_readAll he.isWritable hread).2
          exact absurd hf hregular.complete
        | tooDeep => exact absurd hf hend
    · intro entry hentry hfails
      exact hnotes.eq_append_of_fails hentry hfails

theorem run_log_nested_failing_call :
    let e := ((Engine.fresh .working 2).run
      "(defn g [x] (car (define y x))) (defn f [x] (g (define z x)))").engine
    let source := "(f (list 1)) (f 2) (f 3)"
    let entries := log (e.run source).trace
    (e.Reachable ∧ (e.run source).result ≠ .error .tooDeep) ∧
      entries.map (fun entry => (entry.message, entry.depth?)) =
        [("entering function", some 1), ("defined", some 1), ("entering function", some 2),
          ("defined", some 2), ("leaving function", some 1), ("leaving function", some 0),
          ("entering function", some 1), ("defined", some 1), ("entering function", some 2),
          ("defined", some 2), ("leaving function", some 1), ("leaving function", some 0),
          ("evaluation failed", none)] ∧
      Nested 0 entries ∧
      ∃ (before : List Entry) (entry : Entry) (err : Error), entries = before ++ [entry] ∧
        before.countP Entry.closes = before.countP Entry.opens ∧
        (e.run source).result = .error (.error err) ∧ entry.text? "error" = some err.text := by
  -- the second call fails inside the call that it makes, and the third is not made
  intro e source entries
  have he : e.Reachable := .run _ (.fresh .working 2) (by decide +kernel)
  have hend : (e.run source).result ≠ .error .tooDeep := by decide +kernel
  have hentries : entries.map (fun entry => (entry.message, entry.depth?)) =
      [("entering function", some 1), ("defined", some 1), ("entering function", some 2),
        ("defined", some 2), ("leaving function", some 1), ("leaving function", some 0),
        ("entering function", some 1), ("defined", some 1), ("entering function", some 2),
        ("defined", some 2), ("leaving function", some 1), ("leaving function", some 0),
        ("evaluation failed", none)] := by decide +kernel
  have hnoted : ("evaluation failed", none) ∈
      entries.map fun entry => (entry.message, entry.depth?) := by simp [hentries]
  obtain ⟨entry, hentry, hmessage⟩ := List.mem_map.1 hnoted
  have hfails : entry.fails := by simp [Entry.fails, (Prod.mk.inj hmessage).1]
  obtain ⟨hnested, -, -, hlast⟩ := run_log_nested he hend
  obtain ⟨before, err, heq, -, hclosed, hresult, htext⟩ := hlast entry hentry hfails
  exact ⟨⟨he, hend⟩, hentries, hnested, before, entry, err, heq, hclosed, hresult, htext⟩

end Lisplet
