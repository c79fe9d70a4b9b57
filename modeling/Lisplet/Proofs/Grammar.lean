import Lisplet.Node.Reader

namespace Lisplet

/-- The tokens write the tree. The parts of a form are given with the tokens of each. -/
inductive Derives : List Token → Node → Prop
  | number : Derives [.number v] (.number v)
  | boolean : Derives [.boolean b] (.boolean b)
  | text : Derives [.text s] (.text s)
  | name : Derives [.name x] (.identifier x)
  | negative : Derives ts (.number v) → Derives (.minus :: ts) (.number (-v))
  | call {ps : List (List Token × Node)} : f ≠ "list" → (∀ p ∈ ps, Derives p.1 p.2) →
      Derives (.openParen :: .name f :: (ps.flatMap Prod.fst ++ [.closeParen]))
        (.call f (ps.map Prod.snd))
  | list {ps : List (List Token × Node)} : (∀ p ∈ ps, Derives p.1 p.2) →
      Derives (.openParen :: .name "list" :: (ps.flatMap Prod.fst ++ [.closeParen]))
        (.list (ps.map Prod.snd))
  | cond : Derives ts a → Derives us b → Derives vs c →
      Derives (.openParen :: .ifKeyword :: (ts ++ (us ++ (vs ++ [.closeParen])))) (.cond a b c)
  | defn {ps : List String} : Derives ts a →
      Derives (.openParen :: .defnKeyword :: .name f :: .openBracket ::
        (ps.map .name ++ .closeBracket :: (ts ++ [.closeParen]))) (.defn f ps a)

def DerivesEach (ts : List Token) (ns : List Node) : Prop :=
  ∃ ps : List (List Token × Node), (∀ p ∈ ps, Derives p.1 p.2) ∧
    ps.flatMap Prod.fst = ts ∧ ps.map Prod.snd = ns

theorem derivesEach_nil : DerivesEach [] [] := ⟨[], by simp, rfl, rfl⟩

theorem DerivesEach.cons (h : Derives ts n) (hs : DerivesEach us ns) :
    DerivesEach (ts ++ us) (n :: ns) := by
  obtain ⟨ps, hps, rfl, rfl⟩ := hs
  exact ⟨(ts, n) :: ps, List.forall_mem_cons.2 ⟨h, hps⟩, rfl, rfl⟩

theorem Derives.form {ps : List (List Token × Node)} (h : ∀ p ∈ ps, Derives p.1 p.2) :
    Derives (.openParen :: .name f :: (ps.flatMap Prod.fst ++ [.closeParen]))
      ((Reader.Head.ofName f).node (ps.map Prod.snd)) := by
  rw [Reader.Head.ofName]
  split
  · subst f
    exact .list h
  · rename_i hf
    exact .call hf h

theorem Derives.exists_cons (h : Derives ts n) : ∃ t us, ts = t :: us ∧ t ≠ .closeParen := by
  cases h <;> exact ⟨_, _, rfl, by simp⟩

namespace Reader

def proceed : Step → List Token → Except SyntaxError Node × List Token
  | .next w fs, ts => resume w fs ts
  | .done n, ts => (.ok n, ts)
  | .fail e, ts => (.error e, ts)
  | .refuse e, ts => (.error e, ts)

theorem finish_ne_refuse (t : Token) (n : Node) (fs : List Frame) (e : SyntaxError) :
    finish t n fs ≠ .refuse e := by
  fun_induction finish t n fs <;> simp_all

theorem resume_of_step_finish (h : step w fs t = finish first n fs') (ts : List Token) :
    resume w fs (t :: ts) = proceed (finish first n fs') ts := by
  rw [resume, h]
  cases hs : finish first n fs' with
  | refuse e => exact absurd hs (finish_ne_refuse first n fs' e)
  | _ => rfl

theorem resume_item (h : t ≠ .closeParen) (hd : Head) (ns : List Node) (fs : List Frame)
    (ts : List Token) :
    resume (.item hd ns) fs (t :: ts) = resume .expression (.item hd ns :: fs) (t :: ts) := by
  cases t with
  | closeParen => exact absurd rfl h
  | _ => rfl

theorem resume_parameters (f : String) (ps qs : List String) (fs : List Frame) (ts : List Token) :
    resume (.parameter f qs) fs (ps.map .name ++ .closeBracket :: ts) =
      resume .expression (.body f (qs ++ ps) :: fs) ts := by
  induction ps generalizing qs with
  | nil =>
    rw [List.append_nil]
    rfl
  | cons p ps ih =>
    rw [List.append_cons qs p ps]
    exact ih (qs ++ [p])

/-- Wherever the tokens stand, they are read as the tree, which goes to the frames around it. -/
def Reads (ts : List Token) (n : Node) : Prop :=
  ∀ fs, ∃ t, ∀ rest, resume .expression fs (ts ++ rest) = proceed (finish t n fs) rest

theorem resume_items {ps : List (List Token × Node)} (hd : Head) (ns : List Node)
    (fs : List Frame) (ts : List Token) (hps : ∀ p ∈ ps, Derives p.1 p.2)
    (hread : ∀ p ∈ ps, Reads p.1 p.2) :
    resume (.item hd ns) fs (ps.flatMap Prod.fst ++ .closeParen :: ts) =
      proceed (finish .openParen (hd.node (ns ++ ps.map Prod.snd)) fs) ts := by
  induction ps generalizing ns with
  | nil => simpa using resume_of_step_finish (w := .item hd ns) rfl ts
  | cons p ps ih =>
    obtain ⟨t, us, hp, ht⟩ := (hps p List.mem_cons_self).exists_cons
    obtain ⟨first, hfirst⟩ := hread p List.mem_cons_self (.item hd ns :: fs)
    have hrest := ih (ns ++ [p.2]) (fun q hq => hps q (List.mem_cons_of_mem p hq))
      fun q hq => hread q (List.mem_cons_of_mem p hq)
    calc
      resume (.item hd ns) fs ((p :: ps).flatMap Prod.fst ++ .closeParen :: ts) =
          resume .expression (.item hd ns :: fs)
            (p.1 ++ (ps.flatMap Prod.fst ++ .closeParen :: ts)) := by
        simp [hp, resume_item ht]
      _ = resume (.item hd (ns ++ [p.2])) fs (ps.flatMap Prod.fst ++ .closeParen :: ts) :=
        hfirst _
      _ = proceed (finish .openParen (hd.node (ns ++ (p :: ps).map Prod.snd)) fs) ts := by
        simpa using hrest

theorem reads_form {ps : List (List Token × Node)} (f : String)
    (hps : ∀ p ∈ ps, Derives p.1 p.2) (hread : ∀ p ∈ ps, Reads p.1 p.2) :
    Reads (.openParen :: .name f :: (ps.flatMap Prod.fst ++ [.closeParen]))
      ((Head.ofName f).node (ps.map Prod.snd)) := by
  intro fs
  refine ⟨.openParen, fun rest => ?_⟩
  rw [List.cons_append, List.cons_append, List.append_assoc]
  exact resume_items (Head.ofName f) [] fs rest hps hread

theorem reads_of_derives (h : Derives ts n) : Reads ts n := by
  induction h with
  | number => exact fun fs => ⟨_, resume_of_step_finish rfl⟩
  | boolean => exact fun fs => ⟨_, resume_of_step_finish rfl⟩
  | text => exact fun fs => ⟨_, resume_of_step_finish rfl⟩
  | name => exact fun fs => ⟨_, resume_of_step_finish rfl⟩
  | negative _ ih =>
    intro fs
    obtain ⟨t, ht⟩ := ih (.sign :: fs)
    exact ⟨t, ht⟩
  | @call f ps hf hps ih =>
    have hd : Head.ofName f = .call f := if_neg hf
    have hform := reads_form f hps ih
    rwa [hd] at hform
  | list hps ih => exact reads_form "list" hps ih
  | @cond ts a us b vs c _ _ _ iha ihb ihc =>
    intro fs
    refine ⟨.openParen, fun rest => ?_⟩
    obtain ⟨ta, ha⟩ := iha (.test :: fs)
    obtain ⟨tb, hb⟩ := ihb (.onTrue a :: fs)
    obtain ⟨tc, hc⟩ := ihc (.onFalse a b :: fs)
    calc
      _ = resume .expression (.test :: fs) (ts ++ (us ++ (vs ++ .closeParen :: rest))) := by
        rw [List.cons_append, List.cons_append, List.append_assoc, List.append_assoc,
          List.append_assoc]
        rfl
      _ = resume .expression (.onTrue a :: fs) (us ++ (vs ++ .closeParen :: rest)) := ha _
      _ = resume .expression (.onFalse a b :: fs) (vs ++ .closeParen :: rest) := hb _
      _ = resume (.close (.cond a b c)) fs (.closeParen :: rest) := hc _
      _ = proceed (finish .openParen (.cond a b c) fs) rest := resume_of_step_finish rfl rest
  | @defn ts a f ps _ ih =>
    intro fs
    refine ⟨.openParen, fun rest => ?_⟩
    obtain ⟨t, ht⟩ := ih (.body f ps :: fs)
    calc
      _ = resume (.parameter f []) fs
            (ps.map .name ++ .closeBracket :: (ts ++ .closeParen :: rest)) := by
        rw [List.cons_append, List.cons_append, List.cons_append, List.cons_append,
          List.append_assoc, List.cons_append, List.append_assoc]
        rfl
      _ = resume .expression (.body f ps :: fs) (ts ++ .closeParen :: rest) :=
        resume_parameters f ps [] fs _
      _ = resume (.close (.defn f ps a)) fs (.closeParen :: rest) := ht _
      _ = proceed (finish .openParen (.defn f ps a) fs) rest := resume_of_step_finish rfl rest

def Wanted : Want → List Token → Node → Prop
  | .expression, ts, n => Derives ts n
  | .head, ts, n => Derives (.openParen :: ts) n
  | .item h ns, ts, n => ∃ us ms, DerivesEach us ms ∧ ts = us ++ [.closeParen] ∧
      n = h.node (ns ++ ms)
  | .close m, ts, n => ts = [.closeParen] ∧ n = m
  | .name, ts, n => Derives (.openParen :: .defnKeyword :: ts) n
  | .bracket f, ts, n => Derives (.openParen :: .defnKeyword :: .name f :: ts) n
  | .parameter f ps, ts, n =>
      Derives (.openParen :: .defnKeyword :: .name f :: .openBracket :: (ps.map .name ++ ts)) n

/-- With the first tree finished, the tokens complete the frames around it to the second tree. -/
def Around : List Frame → Node → List Token → Node → Prop
  | [], m, ts, n => ts = [] ∧ n = m
  | .sign :: fs, m, ts, n => ∃ v, m = .number v ∧ Around fs (.number (-v)) ts n
  | .item h ns :: fs, m, ts, n => ∃ us vs k, ts = us ++ vs ∧
      Wanted (.item h (ns ++ [m])) us k ∧ Around fs k vs n
  | .test :: fs, m, ts, n => ∃ us b vs c ws, Derives us b ∧ Derives vs c ∧
      ts = us ++ (vs ++ .closeParen :: ws) ∧ Around fs (.cond m b c) ws n
  | .onTrue a :: fs, m, ts, n => ∃ vs c ws, Derives vs c ∧ ts = vs ++ .closeParen :: ws ∧
      Around fs (.cond a m c) ws n
  | .onFalse a b :: fs, m, ts, n => ∃ ws, ts = .closeParen :: ws ∧ Around fs (.cond a b m) ws n
  | .body f ps :: fs, m, ts, n => ∃ ws, ts = .closeParen :: ws ∧ Around fs (.defn f ps m) ws n

def Completes (w : Want) (fs : List Frame) (ts : List Token) (n : Node) : Prop :=
  ∃ us m vs, ts = us ++ vs ∧ Wanted w us m ∧ Around fs m vs n

def Leads : Step → List Token → Node → Prop
  | .next w fs, ts, n => Completes w fs ts n
  | .done m, ts, n => ts = [] ∧ n = m
  | _, _, _ => False

theorem around_of_leads_finish (h : Leads (finish t m fs) ts n) : Around fs m ts n := by
  fun_induction finish t m fs with
  | case1 => exact h
  | case2 fs v ih => exact ⟨v, rfl, ih h⟩
  | case3 => exact h.elim
  | case4 m hd ns fs =>
    obtain ⟨us, k, vs, rfl, hk, hfs⟩ := h
    exact ⟨us, vs, k, rfl, hk, hfs⟩
  | case5 m fs =>
    obtain ⟨us, b, _, rfl, hb, vs, c, ws, hc, rfl, hfs⟩ := h
    exact ⟨us, b, vs, c, ws, hb, hc, rfl, hfs⟩
  | case6 m a fs =>
    obtain ⟨vs, c, _, rfl, hc, ws, rfl, hfs⟩ := h
    exact ⟨vs, c, ws, hc, rfl, hfs⟩
  | case7 m a b fs =>
    obtain ⟨_, _, ws, rfl, ⟨rfl, rfl⟩, hfs⟩ := h
    exact ⟨ws, rfl, hfs⟩
  | case8 m f ps fs =>
    obtain ⟨_, _, ws, rfl, ⟨rfl, rfl⟩, hfs⟩ := h
    exact ⟨ws, rfl, hfs⟩

theorem completes_of_leads_start (h : Leads (start fs t) ts n) :
    Completes .expression fs (t :: ts) n := by
  cases t with
  | number v => exact ⟨[.number v], _, ts, rfl, .number, around_of_leads_finish h⟩
  | boolean b => exact ⟨[.boolean b], _, ts, rfl, .boolean, around_of_leads_finish h⟩
  | text s => exact ⟨[.text s], _, ts, rfl, .text, around_of_leads_finish h⟩
  | name x => exact ⟨[.name x], _, ts, rfl, .name, around_of_leads_finish h⟩
  | minus =>
    obtain ⟨us, _, vs, rfl, hd, v, rfl, hfs⟩ := h
    exact ⟨.minus :: us, _, vs, rfl, .negative hd, hfs⟩
  | openParen =>
    obtain ⟨us, m, vs, rfl, hd, hfs⟩ := h
    exact ⟨.openParen :: us, m, vs, rfl, hd, hfs⟩
  | _ => exact h.elim

theorem completes_head_of_leads (h : Leads (step .head fs t) ts n) :
    Completes .head fs (t :: ts) n := by
  cases t with
  | ifKeyword =>
    obtain ⟨us, a, _, rfl, ha, vs, b, ws, c, rest, hb, hc, rfl, hfs⟩ := h
    exact ⟨_, _, rest, by simp, .cond ha hb hc, hfs⟩
  | defnKeyword =>
    obtain ⟨us, m, vs, rfl, hd, hfs⟩ := h
    exact ⟨.defnKeyword :: us, m, vs, rfl, hd, hfs⟩
  | name f =>
    obtain ⟨_, _, vs, rfl, ⟨_, _, ⟨ps, hps, rfl, rfl⟩, rfl, rfl⟩, hfs⟩ := h
    exact ⟨_, _, vs, rfl, .form hps, hfs⟩
  | _ => exact h.elim

theorem completes_item_of_leads (h : Leads (step (.item hd ns) fs t) ts n) :
    Completes (.item hd ns) fs (t :: ts) n := by
  by_cases ht : t = .closeParen
  · subst t
    have hfs := around_of_leads_finish h
    exact ⟨[.closeParen], hd.node ns, ts, rfl, ⟨[], [], derivesEach_nil, rfl, by simp⟩, hfs⟩
  · have hstart : Leads (start (.item hd ns :: fs) t) ts n := by
      cases t with
      | closeParen => exact absurd rfl ht
      | _ => exact h
    obtain ⟨us, m, _, heq, hm, _, vs, _, rfl, ⟨ws, ms, hms, rfl, rfl⟩, hfs⟩ :=
      completes_of_leads_start hstart
    refine ⟨us ++ ws ++ [.closeParen], _, vs, by simp [heq], ⟨us ++ ws, m :: ms, ?_, rfl, rfl⟩, ?_⟩
    · exact hms.cons hm
    · simpa using hfs

theorem completes_of_leads (h : Leads (step w fs t) ts n) : Completes w fs (t :: ts) n := by
  cases w with
  | expression => exact completes_of_leads_start h
  | head => exact completes_head_of_leads h
  | item hd ns => exact completes_item_of_leads h
  | close m =>
    cases t with
    | closeParen => exact ⟨[.closeParen], m, ts, rfl, ⟨rfl, rfl⟩, around_of_leads_finish h⟩
    | _ => exact h.elim
  | name =>
    cases t with
    | name f =>
      obtain ⟨us, m, vs, rfl, hd, hfs⟩ := h
      exact ⟨.name f :: us, m, vs, rfl, hd, hfs⟩
    | _ => exact h.elim
  | bracket f =>
    cases t with
    | openBracket =>
      obtain ⟨us, m, vs, rfl, hd, hfs⟩ := h
      exact ⟨.openBracket :: us, m, vs, rfl, hd, hfs⟩
    | _ => exact h.elim
  | parameter f ps =>
    cases t with
    | name p =>
      obtain ⟨us, m, vs, rfl, hd, hfs⟩ := h
      exact ⟨.name p :: us, m, vs, rfl, by simpa [Wanted] using hd, hfs⟩
    | closeBracket =>
      obtain ⟨us, a, _, rfl, ha, ws, rfl, hfs⟩ := h
      exact ⟨.closeBracket :: (us ++ [Token.closeParen]), .defn f ps a, ws, by simp, .defn ha, hfs⟩
    | _ => exact h.elim

theorem completes_of_resume (h : resume w fs ts = (.ok n, rest)) :
    ∃ us, ts = us ++ rest ∧ Completes w fs us n := by
  induction ts generalizing w fs with
  | nil => simp [resume] at h
  | cons t ts ih =>
    -- only a step that goes on or is the last one can end in a tree
    rw [resume] at h
    cases hs : step w fs t with
    | next w' fs' =>
      rw [hs] at h
      obtain ⟨us, rfl, hus⟩ := ih h
      exact ⟨t :: us, rfl, completes_of_leads (by rw [hs]; exact hus)⟩
    | done m =>
      rw [hs] at h
      obtain ⟨rfl, rfl⟩ : m = n ∧ ts = rest := by simpa using h
      exact ⟨[t], rfl, completes_of_leads (by rw [hs]; exact ⟨rfl, rfl⟩)⟩
    | fail e => simp [hs] at h
    | refuse e => simp [hs] at h

end Reader

theorem read_of_derives (h : Derives ts n) (rest : List Token) :
    read (ts ++ rest) = (.ok n, rest) := by
  obtain ⟨t, ht⟩ := Reader.reads_of_derives h []
  exact ht rest

theorem read_eq_ok_iff : read ts = (.ok n, rest) ↔ ∃ us, ts = us ++ rest ∧ Derives us n := by
  constructor
  · intro h
    obtain ⟨_, rfl, us, m, _, rfl, hm, rfl, rfl⟩ := Reader.completes_of_resume h
    exact ⟨us, by simp, hm⟩
  · rintro ⟨us, rfl, h⟩
    exact read_of_derives h rest

theorem Derives.unique (hm : Derives us m) (hn : Derives vs n) (h : us ++ rest = vs ++ rest') :
    us = vs ∧ m = n := by
  have hread := read_of_derives hm rest
  rw [h, read_of_derives hn rest'] at hread
  obtain ⟨rfl, rfl⟩ : n = m ∧ rest' = rest := by simpa using hread
  exact ⟨List.append_cancel_right h, rfl⟩

theorem readAll_of_derivesEach (h : DerivesEach ts ns) : readAll ts = .ok ns := by
  obtain ⟨ps, hps, rfl, rfl⟩ := h
  induction ps with
  | nil => rw [List.flatMap_nil, readAll, List.map_nil]
  | cons p ps ih =>
    have hp := read_of_derives (hps p List.mem_cons_self) (ps.flatMap Prod.fst)
    rw [List.flatMap_cons, readAll_of_read_ok hp, ih fun q hq => hps q (List.mem_cons_of_mem p hq)]
    rfl

theorem derivesEach_of_readAll (h : readAll ts = .ok ns) : DerivesEach ts ns := by
  fun_induction readAll ts generalizing ns with
  | case1 =>
    obtain rfl : [] = ns := by simpa using h
    exact derivesEach_nil
  | case2 t ts n rest hread ih =>
    obtain ⟨us, heq, hn⟩ := read_eq_ok_iff.1 hread
    cases hrest : readAll rest with
    | error e => simp [hrest, Except.map] at h
    | ok ms =>
      obtain rfl : n :: ms = ns := by simpa [hrest, Except.map] using h
      rw [heq]
      exact (ih hrest).cons hn
  | case3 t ts e rest hread => simp at h

namespace Cursor

theorem read_eq_ok_iff {c : Cursor} {n : Node} {q : Nat} :
    c.read = (.ok n, { c with position := q }) ↔
      c.position < q ∧ q ≤ c.tokens.length ∧ Derives (c.tokens.extract c.position q) n := by
  obtain ⟨ts, p⟩ := c
  simp only [read, rest, List.extract_eq_take_drop]
  constructor
  · intro h
    rcases hread : Lisplet.read (ts.drop p) with ⟨r, unread⟩
    rw [hread] at h
    obtain ⟨rfl, hq⟩ : r = .ok n ∧ ts.length - unread.length = q := by simpa using h
    obtain ⟨us, heq, hus⟩ := Lisplet.read_eq_ok_iff.1 hread
    obtain ⟨t, us, rfl, -⟩ := hus.exists_cons
    have hlen := congrArg List.length heq
    simp only [List.length_drop, List.length_append, List.length_cons] at hlen
    have hqp : q - p = us.length + 1 := by omega
    refine ⟨by omega, by omega, ?_⟩
    rw [heq, hqp]
    simpa using hus
  · rintro ⟨hpq, hq, h⟩
    have hread := read_of_derives h ((ts.drop p).drop (q - p))
    rw [List.take_append_drop] at hread
    have hlen : ts.length - ((ts.drop p).drop (q - p)).length = q := by
      simp only [List.length_drop]
      omega
    rw [hread, hlen]

end Cursor

theorem Derives.lt_of_extract {ts : List Token} {p q : Nat} (h : Derives (ts.extract p q) n) :
    p < q := by
  obtain ⟨t, us, heq, -⟩ := h.exists_cons
  have hlen := congrArg List.length heq
  simp only [List.extract_eq_take_drop, List.length_take, List.length_cons] at hlen
  omega

theorem read_iff_derives (ts : List Token) :
    (∀ p q n, (Cursor.mk ts p).read = (.ok n, ⟨ts, q⟩) ↔
      p < q ∧ q ≤ ts.length ∧ Derives (ts.extract p q) n) ∧
    (∀ p q q' n n', q ≤ ts.length → q' ≤ ts.length → Derives (ts.extract p q) n →
      Derives (ts.extract p q') n' → q = q' ∧ n = n') ∧
    ∀ ns, readAll ts = .ok ns ↔ DerivesEach ts ns := by
  refine ⟨?_, ?_, ?_⟩
  · intro p q n
    exact Cursor.read_eq_ok_iff
  · intro p q q' n n' hq hq' hn hn'
    have hp := hn.lt_of_extract
    have hp' := hn'.lt_of_extract
    simp only [List.extract_eq_take_drop] at hn hn'
    have hsplit : ∀ k, (ts.drop p).take k ++ (ts.drop p).drop k = ts.drop p :=
      fun k => List.take_append_drop k (ts.drop p)
    obtain ⟨heq, rfl⟩ := hn.unique hn' ((hsplit (q - p)).trans (hsplit (q' - p)).symm)
    have hlen := congrArg List.length heq
    simp only [List.length_take, List.length_drop] at hlen
    exact ⟨by omega, rfl⟩
  · intro ns
    exact ⟨derivesEach_of_readAll, readAll_of_derivesEach⟩

theorem read_iff_derives_at_call :
    let ts : List Token := [.name "x", .openParen, .name "f", .minus, .minus, .number 1,
      .openParen, .name "list", .closeParen, .closeParen, .boolean true]
    let n : Node := .call "f" [.number 1, .list []]
    (10 ≤ ts.length ∧ Derives (ts.extract 1 10) n) ∧
      (∀ q' n', q' ≤ ts.length → Derives (ts.extract 1 q') n' → 10 = q' ∧ n = n') ∧
      DerivesEach ts [.identifier "x", n, .boolean true] := by
  intro ts n
  obtain ⟨hread, hunique, hall⟩ := read_iff_derives ts
  have hlen : 10 ≤ ts.length := by decide
  have hn : Derives (ts.extract 1 10) n := ((hread 1 10 n).1 rfl).2.2
  refine ⟨⟨hlen, hn⟩, ?_, (hall _).1 (by cbv)⟩
  intro q' n' hq' hn'
  exact hunique 1 10 q' n n' hlen hq' hn hn'

end Lisplet
