import Lisplet.Proofs.Declarations

namespace Lisplet

namespace Node

theorem intercalate_spell (w : List Char) (as : List Node) :
    [' '].intercalate (w :: as.map spell) = w ++ spellEach as := by
  induction as generalizing w with
  | nil => simp [spellEach]
  | cons a as ih =>
    rw [List.map_cons, List.intercalate_cons_cons, ih]
    simp [spellEach]

theorem isWritable_number {n : Int64} (h : n ≠ Int64.minValue) : (number n).isWritable :=
  bne_iff_ne.2 h

theorem allWritable_numbers {ns : List Int64} (h : Int64.minValue ∉ ns) :
    allWritable (ns.map number) := by
  apply allWritable_iff.2
  intro a ha
  obtain ⟨n, hn, rfl⟩ := List.mem_map.1 ha
  exact isWritable_number fun hmin => h (hmin ▸ hn)

end Node

def listText (ns : List Int64) : String :=
  "(" ++ " ".intercalate ("list" :: ns.map fun n => (Value.number n).display) ++ ")"

theorem display_number (n : Int64) : (Value.number n).display = (Node.number n).render := rfl

theorem listText_eq_render (ns : List Int64) :
    listText ns = (Node.list (ns.map .number)).render := by
  have hspell : (ns.map fun n => (Value.number n).display).map String.toList =
      (ns.map Node.number).map Node.spell := by
    simp only [List.map_map]
    apply List.map_congr_left
    intro n _
    rw [Function.comp_apply, display_number, Node.render, String.toList_ofList]
    rfl
  apply String.toList_inj.1
  rw [listText, String.toList_append, String.toList_append, String.toList_intercalate,
    List.map_cons, hspell]
  change '(' :: ([' '].intercalate _ ++ [')']) = _
  rw [Node.intercalate_spell]
  exact String.toList_ofList.symm

namespace Eval

theorem evalAll_numbers (call : Procedure → List Value → Action Value) (ns : List Int64)
    (outlet : Outlet) (s : Scopes) :
    evalAll call (ns.map .number) outlet s = ⟨.ok (ns.map .number), s, []⟩ := by
  induction ns with
  | nil => rfl
  | cons n ns ih =>
    rw [List.map_cons, evalAll_cons_ok (v := .number n) rfl]
    change ((evalAll call (ns.map .number) outlet s).map _).behind [] = _
    rw [ih]
    rfl

end Eval

theorem Engine.run_of_eval {e : Engine} (hread : readAll (tokenize source) = .ok [n])
    (h : eval e.callLimit n e.outlet e.scopes = ⟨.ok v, e.scopes, []⟩) :
    e.run source = ⟨.ok v, [], ⟨1, 0, 1, 1⟩, e⟩ := by
  rw [run, hread]
  simp only [evaluateAll, evaluate, h]
  rfl

/-- What is displayed of a number has this number as its value, also among others in a list. -/
theorem run_displayed_numbers (e : Engine) :
    (∀ n : Int64, n ≠ Int64.minValue →
      e.run (Value.number n).display = ⟨.ok (.number n), [], ⟨1, 0, 1, 1⟩, e⟩) ∧
    ∀ ns : List Int64, Int64.minValue ∉ ns →
      e.run (listText ns) = ⟨.ok (.list (ns.map .number)), [], ⟨1, 0, 1, 1⟩, e⟩ := by
  refine ⟨?_, ?_⟩
  · intro n hn
    rw [display_number]
    exact Engine.run_of_eval (Node.readAll_render (Node.isWritable_number hn)) rfl
  · intro ns hns
    have hwritable : (Node.list (ns.map Node.number)).isWritable := Node.allWritable_numbers hns
    rw [listText_eq_render]
    apply Engine.run_of_eval (Node.readAll_render hwritable)
    rw [eval, Eval.evalWith, Action.bind_ok (by rw [Eval.evalAll_numbers]), Eval.evalAll_numbers]
    rfl

theorem run_displayed_numbers_at_ends :
    let ns : List Int64 := [Int64.minValue + 1, 0, -1, Int64.maxValue]
    let e := ((Engine.fresh .working 0).run "(define x 1) (m)").engine
    Int64.minValue ∉ ns ∧ (Value.number Int64.maxValue).display = "9223372036854775807" ∧
      e.run "9223372036854775807" = ⟨.ok (.number Int64.maxValue), [], ⟨1, 0, 1, 1⟩, e⟩ ∧
      e.run "(list -9223372036854775807 0 -1 9223372036854775807)" =
        ⟨.ok (.list (ns.map .number)), [], ⟨1, 0, 1, 1⟩, e⟩ := by
  -- the numbers next to both ends, on an engine whose last run failed
  intro ns e
  have hns : Int64.minValue ∉ ns := by decide
  have hmax : (Value.number Int64.maxValue).display = "9223372036854775807" := by decide +kernel
  have htext : listText ns = "(list -9223372036854775807 0 -1 9223372036854775807)" := by
    decide +kernel
  obtain ⟨hnumber, hlist⟩ := run_displayed_numbers e
  exact ⟨hns, hmax, hmax ▸ hnumber _ (by decide), htext ▸ hlist ns hns⟩

/-- The least number is the exception: the digits behind its sign, which are read apart from it,
write a number that is too large. -/
theorem run_displayed_least :
    let e := Engine.fresh .working 0
    (e.run "(subtract -9223372036854775807 1)").result = .ok (.number Int64.minValue) ∧
      (e.run (Value.number Int64.minValue).display).result = .error (.error .missingToken) ∧
      (e.run (listText [Int64.minValue, 5])).result = .ok (.list [.number (-5)]) := by
  decide +kernel

end Lisplet
