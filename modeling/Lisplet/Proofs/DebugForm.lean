import Lisplet.Proofs.Functions
import Mathlib.Algebra.Ring.Nat

/-!
The debug form keeps values apart. Each form tells where it ends, whatever stands behind it: a
quoted text at its quote, since a quote inside of it is escaped, and a list at its bracket, since no
form begins with one. So a text that looks like other values is not mistaken for them.
-/

namespace Lisplet

namespace Text

def escapeLetter (c : Char) : Char :=
  if c = '"' ∨ c = '\\' then c
  else match controlLetter? c with
    | some l => l
    | none => if c.toNat < 0x80 then 'x' else if c.toNat < 0x10000 then 'u' else 'U'

def escapeWidth : Char → Nat
  | 'x' => 2
  | 'u' => 4
  | 'U' => 8
  | _ => 0

def ofEscapeLetter : Char → Char
  | 'a' => '\x07'
  | 'b' => '\x08'
  | 'f' => '\x0c'
  | 'n' => '\n'
  | 'r' => '\r'
  | 't' => '\t'
  | 'v' => '\x0b'
  | c => c

def isPlain (c : Char) : Bool := isPrintable c && c != '"' && c != '\\'

theorem escape_of_plain {c : Char} (h : isPlain c) : escape c = [c] := by
  simp only [isPlain, Bool.and_eq_true, bne_iff_ne] at h
  obtain ⟨⟨hprintable, hquote⟩, hbackslash⟩ := h
  simp [escape, hprintable, hquote, hbackslash]

theorem controlLetter?_eq_some {c l : Char} (h : controlLetter? c = some l) :
    escapeWidth l = 0 ∧ ofEscapeLetter l = c := by
  unfold controlLetter? at h
  split at h
  case h_8 => simp at h
  all_goals
    obtain rfl := Option.some.inj h
    exact ⟨rfl, rfl⟩

theorem escape_of_not_plain {c : Char} (h : isPlain c = false) :
    escape c = '\\' :: escapeLetter c :: hex (escapeWidth (escapeLetter c)) c.toNat := by
  rw [escape, escapeLetter]
  by_cases hself : c = '"' ∨ c = '\\'
  · rw [if_pos hself, if_pos hself]
    obtain rfl | rfl := hself <;> rfl
  · have hprintable : ¬isPrintable c := by
      obtain ⟨hquote, hbackslash⟩ := not_or.1 hself
      simpa [isPlain, hquote, hbackslash] using h
    rw [if_neg hself, if_neg hself, if_neg hprintable, escapeCode]
    cases hletter : controlLetter? c with
    | some l =>
      simp only [(controlLetter?_eq_some hletter).1, hex]
    | none =>
      simp only
      split
      · rfl
      split <;> rfl

theorem length_hex (width n : Nat) : (hex width n).length = width := by
  induction width generalizing n with
  | zero => rfl
  | succ width ih => rw [hex, List.length_append, ih, List.length_singleton]

theorem digitChar_inj : ∀ m < 16, ∀ n < 16, m.digitChar = n.digitChar → m = n := by decide

theorem hex_inj {width m n : Nat} (hm : m < 16 ^ width) (hn : n < 16 ^ width)
    (h : hex width m = hex width n) : m = n := by
  induction width generalizing m n with
  | zero => rw [Nat.lt_one_iff.1 hm, Nat.lt_one_iff.1 hn]
  | succ width ih =>
    rw [hex, hex] at h
    obtain ⟨hhigh, hlow⟩ := List.append_inj h (by rw [length_hex, length_hex])
    have hquot : m / 16 = n / 16 := ih (by omega) (by omega) hhigh
    have hrem : m % 16 = n % 16 :=
      digitChar_inj _ (Nat.mod_lt m (by decide)) _ (Nat.mod_lt n (by decide)) (List.cons.inj hlow).1
    omega

theorem toNat_lt (c : Char) : c.toNat < 0x110000 := by
  have hvalid := c.valid
  simp only [UInt32.isValidChar, Nat.isValidChar] at hvalid
  simp only [Char.toNat]
  omega

theorem escapeLetter_cases (c : Char) :
    escapeWidth (escapeLetter c) = 0 ∧ ofEscapeLetter (escapeLetter c) = c ∨
      escapeWidth (escapeLetter c) ≠ 0 ∧ c.toNat < 16 ^ escapeWidth (escapeLetter c) := by
  have hlt := toNat_lt c
  rw [escapeLetter]
  split
  · rename_i hself
    obtain rfl | rfl := hself <;> exact .inl ⟨rfl, rfl⟩
  split
  · rename_i l hletter
    exact .inl (controlLetter?_eq_some hletter)
  split
  · exact .inr ⟨by decide, show c.toNat < 16 ^ 2 by omega⟩
  split
  · exact .inr ⟨by decide, show c.toNat < 16 ^ 4 by omega⟩
  · exact .inr ⟨by decide, show c.toNat < 16 ^ 8 by omega⟩

theorem escape_append_inj {c d : Char} {rest rest' : List Char}
    (h : escape c ++ rest = escape d ++ rest') : c = d ∧ rest = rest' := by
  have hbackslash : ∀ {b : Char}, isPlain b → b ≠ '\\' := by
    rintro b hb rfl
    simp [isPlain] at hb
  cases hc : isPlain c <;> cases hd : isPlain d
  · rw [escape_of_not_plain hc, escape_of_not_plain hd] at h
    simp only [List.cons_append, List.cons.injEq, true_and] at h
    obtain ⟨hletter, hdigits⟩ := h
    -- the letters are the same, so there are as many digits behind the one as behind the other
    have hcases := escapeLetter_cases d
    rw [← hletter] at hdigits hcases
    obtain ⟨hhex, hrest⟩ := List.append_inj hdigits (by rw [length_hex, length_hex])
    refine ⟨?_, hrest⟩
    obtain ⟨hzero, hself⟩ | ⟨hdigit, hlt⟩ := escapeLetter_cases c
    · obtain ⟨-, hself'⟩ := hcases.resolve_right fun h => h.1 hzero
      exact hself.symm.trans hself'
    · obtain ⟨-, hlt'⟩ := hcases.resolve_left fun h => hdigit h.1
      exact Char.toNat_inj.1 (hex_inj hlt hlt' hhex)
  · rw [escape_of_not_plain hc, escape_of_plain hd] at h
    exact absurd (List.cons.inj h).1.symm (hbackslash hd)
  · rw [escape_of_plain hc, escape_of_not_plain hd] at h
    exact absurd (List.cons.inj h).1 (hbackslash hc)
  · rw [escape_of_plain hc, escape_of_plain hd] at h
    exact List.cons.inj h

theorem exists_escape_eq_cons (c : Char) : ∃ d ds, escape c = d :: ds ∧ d ≠ '"' := by
  cases hc : isPlain c with
  | false => exact ⟨_, _, escape_of_not_plain hc, by decide⟩
  | true =>
    refine ⟨c, [], escape_of_plain hc, ?_⟩
    rintro rfl
    simp [isPlain] at hc

theorem quote_append_inj {cs ds rest rest' : List Char}
    (h : quote cs ++ rest = quote ds ++ rest') : cs = ds ∧ rest = rest' := by
  have hinside : cs.flatMap escape ++ '"' :: rest = ds.flatMap escape ++ '"' :: rest' := by
    simpa [quote] using h
  clear h
  induction cs generalizing ds with
  | nil =>
    cases ds with
    | nil => exact ⟨rfl, (List.cons.inj hinside).2⟩
    | cons d ds =>
      obtain ⟨b, bs, heq, hb⟩ := exists_escape_eq_cons d
      simp [heq, hb.symm] at hinside
  | cons c cs ih =>
    cases ds with
    | nil =>
      obtain ⟨b, bs, heq, hb⟩ := exists_escape_eq_cons c
      simp [heq, hb] at hinside
    | cons d ds =>
      rw [List.flatMap_cons, List.flatMap_cons, List.append_assoc, List.append_assoc] at hinside
      obtain ⟨rfl, hothers⟩ := escape_append_inj hinside
      obtain ⟨rfl, hrest⟩ := ih hothers
      exact ⟨rfl, hrest⟩

theorem digits_inj {m n : Nat} (h : digits m = digits n) : m = n := by
  rw [← valueOf_digits m, h, valueOf_digits]

theorem minus_notMem_digits (n : Nat) : '-' ∉ digits n := by
  intro h
  exact absurd (isDigit_of_mem_digits h) (by decide)

theorem signed_inj {m n : Int64} (h : signed m = signed n) : m = n := by
  have hsign : ∀ {k l : Nat}, '-' :: digits k ≠ digits l := by
    intro k l heq
    exact minus_notMem_digits l (heq ▸ List.mem_cons_self)
  rw [signed, signed] at h
  apply Int64.toInt_inj.1
  split at h <;> split at h
  · have := digits_inj (List.cons.inj h).2
    omega
  · exact absurd h hsign
  · exact absurd h.symm hsign
  · have := digits_inj h
    omega

theorem signed_append_inj {m n : Int64} {rest rest' : List Char}
    (h : signed m ++ ')' :: rest = signed n ++ ')' :: rest') : m = n ∧ rest = rest' := by
  have hinside : ∀ k : Int64, ∀ c ∈ signed k, (c != ')') = true := by
    intro k c hc
    apply bne_iff_ne.2
    rintro rfl
    have hdigit : ')' ∉ digits k.toInt.natAbs := fun h =>
      absurd (isDigit_of_mem_digits h) (by decide)
    rw [signed] at hc
    split at hc <;> simp_all
  have htake := congrArg (List.takeWhile (· != ')')) h
  rw [List.takeWhile_append_of_pos (hinside m), List.takeWhile_append_of_pos (hinside n),
    List.takeWhile_cons_of_neg (by decide), List.takeWhile_cons_of_neg (by decide),
    List.append_nil, List.append_nil] at htake
  obtain rfl := signed_inj htake
  exact ⟨rfl, (List.cons.inj (List.append_cancel_left h)).2⟩

end Text

namespace Value

theorem spellDebug_number (n : Int64) :
    (number n).spellDebug = "Number(".toList ++ Text.signed n ++ [')'] := rfl

theorem spellDebug_text (s : String) :
    (text s).spellDebug = "String(".toList ++ Text.quote s.toList ++ [')'] := rfl

theorem spellDebug_boolean (b : Bool) :
    (boolean b).spellDebug = "Boolean(".toList ++ (toString b).toList ++ [')'] := rfl

theorem spellDebug_list (vs : List Value) :
    (list vs).spellDebug = "List([".toList ++ debugLine vs ++ [']', ')'] := rfl

def Kind.initials : Kind → List Char
  | .number => ['N', 'u']
  | .text => ['S', 't']
  | .boolean => ['B', 'o']
  | .list => ['L', 'i']
  | .function => ['F', 'u']
  | .nil => ['N', 'i']
  | .unknown _ => []

theorem exists_spellDebug_eq (v : Value) : ∃ cs, v.spellDebug = v.kind.initials ++ cs := by
  cases v <;> exact ⟨_, rfl⟩

theorem kind_eq_of_spellDebug {a b : Value} {rest rest' : List Char}
    (h : a.spellDebug ++ rest = b.spellDebug ++ rest') : a.kind = b.kind := by
  obtain ⟨cs, hcs⟩ := exists_spellDebug_eq a
  obtain ⟨ds, hds⟩ := exists_spellDebug_eq b
  rw [hcs, hds] at h
  cases a <;> cases b <;> simp [kind, Kind.initials] at h ⊢

theorem exists_spellDebug_eq_cons (v : Value) : ∃ c cs, v.spellDebug = c :: cs ∧ c ≠ ']' := by
  obtain ⟨cs, hcs⟩ := exists_spellDebug_eq v
  cases v <;> exact ⟨_, _, hcs, by decide⟩

theorem functionsAll_cons_eq_nil {v : Value} {vs : List Value} :
    functionsAll (v :: vs) = [] ↔ v.functions = [] ∧ functionsAll vs = [] := by
  rw [functionsAll, List.append_eq_nil_iff]

theorem inside_eq {opening closing inside inside' rest rest' : List Char}
    (h : opening ++ inside ++ closing ++ rest = opening ++ inside' ++ closing ++ rest') :
    inside ++ (closing ++ rest) = inside' ++ (closing ++ rest') := by
  simpa only [List.append_assoc, List.append_cancel_left_eq] using h

theorem spellDebug_boolean_inj {b c : Bool} {rest rest' : List Char}
    (h : (boolean b).spellDebug ++ rest = (boolean c).spellDebug ++ rest') :
    b = c ∧ rest = rest' := by
  rw [spellDebug_boolean, spellDebug_boolean] at h
  have hinitial := congrArg List.head? (inside_eq h)
  cases b <;> cases c
  · exact ⟨rfl, List.append_cancel_left h⟩
  · exact absurd hinitial (by decide : some 'f' ≠ some 't')
  · exact absurd hinitial (by decide : some 't' ≠ some 'f')
  · exact ⟨rfl, List.append_cancel_left h⟩

mutual

theorem spellDebug_append_inj : ∀ {a b : Value} {rest rest' : List Char}, a.functions = [] →
    b.functions = [] → a.spellDebug ++ rest = b.spellDebug ++ rest' → a = b ∧ rest = rest'
  | .number m, b, rest, rest', _, _, h => by
    have hkind := kind_eq_of_spellDebug h
    cases b <;> cases hkind
    rw [spellDebug_number, spellDebug_number] at h
    obtain ⟨rfl, hrest⟩ := Text.signed_append_inj (inside_eq h)
    exact ⟨rfl, hrest⟩
  | .text s, b, rest, rest', _, _, h => by
    have hkind := kind_eq_of_spellDebug h
    cases b <;> cases hkind
    rw [spellDebug_text, spellDebug_text] at h
    obtain ⟨htext, hrest⟩ := Text.quote_append_inj (inside_eq h)
    exact ⟨congrArg text (String.toList_inj.1 htext), (List.cons.inj hrest).2⟩
  | .boolean b, c, rest, rest', _, _, h => by
    have hkind := kind_eq_of_spellDebug h
    cases c <;> cases hkind
    obtain ⟨rfl, hrest⟩ := spellDebug_boolean_inj h
    exact ⟨rfl, hrest⟩
  | .nil, b, rest, rest', _, _, h => by
    have hkind := kind_eq_of_spellDebug h
    cases b <;> cases hkind
    exact ⟨rfl, List.append_cancel_left h⟩
  | .list as, b, rest, rest', has, hb, h => by
    have hkind := kind_eq_of_spellDebug h
    cases b <;> cases hkind
    rw [spellDebug_list, spellDebug_list] at h
    obtain ⟨rfl, hrest⟩ := debugLine_append_inj has hb (inside_eq h)
    exact ⟨rfl, (List.cons.inj hrest).2⟩
  | .function f, _, _, _, hf, _, _ => by cases hf

theorem debugLine_append_inj : ∀ {as bs : List Value} {rest rest' : List Char},
    functionsAll as = [] → functionsAll bs = [] →
    debugLine as ++ ']' :: rest = debugLine bs ++ ']' :: rest' → as = bs ∧ rest = rest'
  | [], [], rest, rest', _, _, h => ⟨rfl, (List.cons.inj h).2⟩
  | [], b :: bs, rest, rest', _, _, h => by
    -- one list is over where the other has an element, which does not begin with a bracket
    obtain ⟨c, cs, heq, hc⟩ := exists_spellDebug_eq_cons b
    rw [debugLine, debugLine, heq] at h
    exact absurd (List.cons.inj h).1.symm hc
  | a :: as, [], rest, rest', _, _, h => by
    obtain ⟨c, cs, heq, hc⟩ := exists_spellDebug_eq_cons a
    rw [debugLine, debugLine, heq] at h
    exact absurd (List.cons.inj h).1 hc
  | a :: as, b :: bs, rest, rest', has, hbs, h => by
    obtain ⟨ha, has'⟩ := functionsAll_cons_eq_nil.1 has
    obtain ⟨hb, hbs'⟩ := functionsAll_cons_eq_nil.1 hbs
    rw [debugLine, debugLine, List.append_assoc, List.append_assoc] at h
    obtain ⟨rfl, hothers⟩ := spellDebug_append_inj ha hb h
    obtain ⟨rfl, hrest⟩ := debugEach_append_inj has' hbs' hothers
    exact ⟨rfl, hrest⟩

theorem debugEach_append_inj : ∀ {as bs : List Value} {rest rest' : List Char},
    functionsAll as = [] → functionsAll bs = [] →
    debugEach as ++ ']' :: rest = debugEach bs ++ ']' :: rest' → as = bs ∧ rest = rest'
  | [], [], rest, rest', _, _, h => ⟨rfl, (List.cons.inj h).2⟩
  | [], b :: bs, rest, rest', _, _, h => by simp [debugEach] at h
  | a :: as, [], rest, rest', _, _, h => by simp [debugEach] at h
  | a :: as, b :: bs, rest, rest', has, hbs, h => by
    obtain ⟨ha, has'⟩ := functionsAll_cons_eq_nil.1 has
    obtain ⟨hb, hbs'⟩ := functionsAll_cons_eq_nil.1 hbs
    simp only [debugEach, List.cons_append, List.append_assoc, List.cons.injEq, true_and] at h
    obtain ⟨rfl, hothers⟩ := spellDebug_append_inj ha hb h
    obtain ⟨rfl, hrest⟩ := debugEach_append_inj has' hbs' hothers
    exact ⟨rfl, hrest⟩

end

end Value

theorem debug_eq_iff_same {a b : Value} (ha : a.functions = []) (hb : b.functions = []) :
    a.debug = b.debug ↔ a.same b := by
  rw [Value.same_iff, Value.debug, Value.debug, String.ofList_inj]
  constructor
  · intro h
    have hends : a.spellDebug ++ [] = b.spellDebug ++ [] := congrArg (· ++ []) h
    exact (Value.spellDebug_append_inj ha hb hends).1
  · rintro rfl
    rfl

theorem debug_eq_iff_same_look_alike :
    let a : Value := .list [.text "x\"), Number(1", .nil]
    let b : Value := .list [.text "x", .number 1, .nil]
    (a.functions = [] ∧ b.functions = []) ∧
      a.debug = "List([String(\"x\\\"), Number(1\"), Nil])" ∧
      b.debug = "List([String(\"x\"), Number(1), Nil])" ∧ ¬a.same b ∧ a.debug ≠ b.debug := by
  -- a text that goes on like the list around it, and a list that has what the text pretends to have
  intro a b
  have ha : a.functions = [] := rfl
  have hb : b.functions = [] := rfl
  have hsame : ¬a.same b := by decide
  refine ⟨⟨ha, hb⟩, by decide +kernel, by decide +kernel, hsame, ?_⟩
  exact fun h => hsame ((debug_eq_iff_same ha hb).1 h)

-- a function shows its name and parameters, but nothing of its body
example : (Value.function ⟨"f", ["x"], .number 1⟩).debug =
    (Value.function ⟨"f", ["x"], .number 2⟩).debug := rfl

end Lisplet
