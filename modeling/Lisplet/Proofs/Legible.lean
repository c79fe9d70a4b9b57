import Lisplet.Proofs.RoundTrip

namespace Lisplet

namespace Node

mutual

def subtrees : Node → List Node
  | .list as => .list as :: subtreesAll as
  | .call f as => .call f as :: subtreesAll as
  | .cond a b c => .cond a b c :: (subtrees a ++ subtrees b ++ subtrees c)
  | .defn f ps a => .defn f ps a :: subtrees a
  | n => [n]

def subtreesAll : List Node → List Node
  | [] => []
  | a :: as => subtrees a ++ subtreesAll as

end

def rootNames : Node → List String
  | .identifier x => [x]
  | .call f _ => [f]
  | .defn f ps _ => f :: ps
  | _ => []

/-- Whether the root of a tree is spelled so that it can be read. -/
def isLegible : Node → Bool
  | .number v => v != Int64.minValue
  | .text s => s.toList.all notQuote
  | .call f _ => isName f && f != "list"
  | n => n.rootNames.all isName

mutual

theorem isWritable_iff_legible : ∀ n : Node, n.isComplete →
    (n.isWritable ↔ ∀ m ∈ n.subtrees, m.isLegible)
  | .missing, h => absurd h (by simp [isComplete])
  | .number _, _ => by simp [isWritable, subtrees, isLegible]
  | .boolean _, _ => by simp [isWritable, subtrees, isLegible, rootNames]
  | .text _, _ => by simp [isWritable, subtrees, isLegible]
  | .identifier _, _ => by simp [isWritable, subtrees, isLegible, rootNames]
  | .list as, h => by
    simp [isWritable, subtrees, isLegible, rootNames, allWritable_iff_legible as h]
  | .call f as, h => by
    simp [isWritable_call, subtrees, isLegible, allWritable_iff_legible as h, and_assoc]
  | .cond a b c, h => by
    simp only [isComplete, Bool.and_eq_true, and_assoc] at h
    obtain ⟨ha, hb, hc⟩ := h
    simp [isWritable_cond, subtrees, isLegible, rootNames, isWritable_iff_legible a ha,
      isWritable_iff_legible b hb, isWritable_iff_legible c hc, or_imp, forall_and]
  | .defn f ps a, h => by
    simp [isWritable_defn, subtrees, isLegible, rootNames, isWritable_iff_legible a h, and_assoc]

theorem allWritable_iff_legible : ∀ as : List Node, allComplete as →
    (allWritable as ↔ ∀ m ∈ subtreesAll as, m.isLegible)
  | [], _ => by simp [allWritable, subtreesAll]
  | a :: as, h => by
    simp only [allComplete, Bool.and_eq_true] at h
    obtain ⟨ha, has⟩ := h
    simp [allWritable_cons, subtreesAll, isWritable_iff_legible a ha,
      allWritable_iff_legible as has, or_imp, forall_and]

end

theorem isLegible_iff {m : Node} :
    m.isLegible ↔ (∀ v, m = .number v → v ≠ Int64.minValue) ∧ (∀ s, m = .text s → '"' ∉ s.toList) ∧
      (∀ f as, m = .call f as → f ≠ "list") ∧ ∀ x ∈ m.rootNames, isName x := by
  cases m with
  | text s => simp [isLegible, rootNames, notQuote, List.forall_mem_ne']
  | _ => simp [isLegible, rootNames, and_comm]

theorem isWritable_iff {n : Node} (h : n.isComplete) :
    n.isWritable ↔ (∀ v, .number v ∈ n.subtrees → v ≠ Int64.minValue) ∧
      (∀ s, .text s ∈ n.subtrees → '"' ∉ s.toList) ∧
      (∀ f as, .call f as ∈ n.subtrees → f ≠ "list") ∧
      ∀ m ∈ n.subtrees, ∀ x ∈ m.rootNames, isName x := by
  rw [isWritable_iff_legible n h]
  simp only [isLegible_iff]
  grind

theorem isWritable_of_read {source : String} {n : Node} {rest : List Token}
    (h : read (tokenize source) = (.ok n, rest)) : n.isWritable := by
  obtain ⟨us, htokens, hn⟩ := read_eq_ok_iff.1 h
  apply isWritable_of_derives hn
  intro t ht
  have hmem : t ∈ tokenize source := htokens ▸ List.mem_append_left rest ht
  exact isLexable_of_mem_tokensOf hmem

theorem read_render {n : Node} (h : n.isWritable) : read (tokenize n.render) = (.ok n, []) := by
  have htokens := tokensOf_spell n [] h trivial
  rw [List.append_nil, tokensOf_nil] at htokens
  rw [tokenize_eq, render, String.toList_ofList, htokens]
  exact read_of_derives (derives_tokens n h) []

end Node

/-- A tree is read back from its own text just if every literal, call and name in it is legible,
wherever it stands. -/
theorem read_printed_iff {n : Node} (h : n.isComplete) :
    ∃ source, n.print? = some source ∧
      ((∃ m rest, read (tokenize source) = (.ok m, rest) ∧ m.same n) ↔
        (∀ v, .number v ∈ n.subtrees → v ≠ Int64.minValue) ∧
        (∀ s, .text s ∈ n.subtrees → '"' ∉ s.toList) ∧
        (∀ f as, .call f as ∈ n.subtrees → f ≠ "list") ∧
        ∀ m ∈ n.subtrees, ∀ x ∈ m.rootNames, isName x) ∧
      ∀ m rest, read (tokenize source) = (.ok m, rest) → m.same n → rest = [] := by
  refine ⟨n.render, if_pos h, ?_, ?_⟩
  · rw [← Node.isWritable_iff h]
    constructor
    · rintro ⟨m, rest, hread, hsame⟩
      obtain rfl := (Node.same_iff m n).1 hsame
      exact Node.isWritable_of_read hread
    · intro hn
      exact ⟨n, [], Node.read_render hn, (Node.same_iff n n).2 rfl⟩
  · intro m rest hread hsame
    obtain rfl := (Node.same_iff m n).1 hsame
    rw [Node.read_render (Node.isWritable_of_read hread)] at hread
    simpa using hread.symm

theorem read_printed_iff_at_calls :
    let part : Node := .defn "list" ["a\"b"] (.list [.number (Int64.minValue + 1), .text ")"])
    let good : Node := .call "f(" [part, .identifier "list"]
    let bad : Node := .call "f g" [part]
    (good.isComplete ∧ ∃ source, good.print? = some source ∧
      ∃ m rest, read (tokenize source) = (.ok m, rest) ∧ m.same good ∧ rest = []) ∧
    (bad.isComplete ∧ ∃ source, bad.print? = some source ∧
      ¬∃ m rest, read (tokenize source) = (.ok m, rest) ∧ m.same bad) := by
  -- with a blank in the name of the call, the text begins with another expression
  intro part good bad
  have hgood : good.isComplete := by decide
  have hbad : bad.isComplete := by decide
  have hwritable : good.isWritable := by decide
  have hunwritable : ¬bad.isWritable := by decide
  obtain ⟨source, hprint, hiff, hrest⟩ := read_printed_iff hgood
  obtain ⟨source', hprint', hiff', -⟩ := read_printed_iff hbad
  refine ⟨⟨hgood, source, hprint, ?_⟩, hbad, source', hprint', ?_⟩
  · obtain ⟨m, rest, hread, hsame⟩ := hiff.2 ((Node.isWritable_iff hgood).1 hwritable)
    exact ⟨m, rest, hread, hsame, hrest m rest hread hsame⟩
  · intro hread
    exact hunwritable ((Node.isWritable_iff hbad).2 (hiff'.1 hread))

end Lisplet
