import Lisplet.Text.Character
import Lisplet.Token

namespace Lisplet

inductive Mark
  | openParen
  | closeParen
  | openBracket
  | closeBracket
  | minus
  deriving DecidableEq

namespace Mark

def char : Mark → Char
  | .openParen => '('
  | .closeParen => ')'
  | .openBracket => '['
  | .closeBracket => ']'
  | .minus => '-'

def ofChar? : Char → Option Mark
  | '(' => some .openParen
  | ')' => some .closeParen
  | '[' => some .openBracket
  | ']' => some .closeBracket
  | '-' => some .minus
  | _ => none

def token : Mark → Token
  | .openParen => .openParen
  | .closeParen => .closeParen
  | .openBracket => .openBracket
  | .closeBracket => .closeBracket
  | .minus => .minus

theorem char_of_ofChar? {c : Char} {m : Mark} (h : ofChar? c = some m) : m.char = c := by
  unfold ofChar? at h
  split at h <;> simp_all [char] <;> (subst h; rfl)

end Mark

inductive Segment
  | blank (c : Char)
  | run (numerals : List Char)
  | mark (m : Mark)
  | quoted (content : List Char) (closed : Bool)
  | word (spelling : List Char)
  deriving DecidableEq

def inWord (c : Char) : Bool := !(Text.isBlank c || c == ')' || c == ']')

def notQuote (c : Char) : Bool := c != '"'

def Token.ofWord : String → Token
  | "if" => .ifKeyword
  | "defn" => .defnKeyword
  | "true" => .boolean true
  | "false" => .boolean false
  | w => .name w

namespace Segment

def text : Segment → List Char
  | .blank c => [c]
  | .run ds => ds
  | .mark m => [m.char]
  | .quoted s closed => '"' :: s ++ (if closed then ['"'] else [])
  | .word w => w

def token? : Segment → Option Token
  | .blank _ => none
  | .run ds => (Text.read? ds).map .number
  | .mark m => some m.token
  | .quoted s _ => some (.text (String.ofList s))
  | .word w => some (Token.ofWord (String.ofList w))

def next (c : Char) (cs : List Char) : Segment × List Char :=
  if Text.isBlank c then (.blank c, cs)
  else if Text.isNumeric c then
    (.run (c :: cs.takeWhile Text.isNumeric), cs.dropWhile Text.isNumeric)
  else match Mark.ofChar? c with
    | some m => (.mark m, cs)
    | none =>
      if c = '"' then
        match cs.dropWhile notQuote with
        | [] => (.quoted (cs.takeWhile notQuote) false, [])
        | _ :: rest => (.quoted (cs.takeWhile notQuote) true, rest)
      else (.word (c :: cs.takeWhile inWord), cs.dropWhile inWord)

theorem length_dropWhile_le (p : Char → Bool) (cs : List Char) :
    (cs.dropWhile p).length ≤ cs.length :=
  (List.dropWhile_suffix p).length_le

theorem length_next_le (c : Char) (cs : List Char) : (next c cs).2.length ≤ cs.length := by
  unfold next
  split
  · exact Nat.le_refl _
  split
  · exact length_dropWhile_le _ cs
  split
  · exact Nat.le_refl _
  split
  · have := length_dropWhile_le notQuote cs
    split
    · exact Nat.zero_le _
    · rename_i h
      rw [h] at this
      exact Nat.le_of_succ_le this
  · exact length_dropWhile_le _ cs

theorem text_next (c : Char) (cs : List Char) : (next c cs).1.text ++ (next c cs).2 = c :: cs := by
  unfold next
  split
  · rfl
  split
  · simp [text]
  split
  · rename_i h
    simp [text, Mark.char_of_ofChar? h]
  split
  · have := List.takeWhile_append_dropWhile (p := notQuote) (l := cs)
    split
    · simp_all [text]
    · rename_i q rest hq
      have hne : notQuote q = false := by
        have := List.head_dropWhile_not notQuote (l := cs) (by simp [hq])
        simpa [hq] using this
      simp_all [text, notQuote]
  · simp [text]

end Segment

def cut : List Char → List Segment
  | [] => []
  | c :: cs => (Segment.next c cs).1 :: cut (Segment.next c cs).2
termination_by cs => cs.length
decreasing_by exact Nat.lt_succ_of_le (Segment.length_next_le c cs)

theorem flatMap_text_cut (cs : List Char) : (cut cs).flatMap Segment.text = cs := by
  fun_induction cut cs with
  | case1 => rfl
  | case2 c cs ih => rw [List.flatMap_cons, ih, Segment.text_next]

def tokenize (source : String) : List Token :=
  (cut source.toList).filterMap Segment.token?

end Lisplet
