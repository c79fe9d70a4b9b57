import Lisplet.Node
import Lisplet.Token

/-!
Expressions read from tokens, one token at a time. What has been read of the enclosing forms is
kept as a list of frames, innermost first, beside what the innermost form wants next.
-/

namespace Lisplet

inductive SyntaxError
  | unexpected (token : Token)
  | ended
  deriving DecidableEq

namespace Reader

inductive Head
  | list
  | call (name : String)

def Head.ofName (name : String) : Head :=
  if name = "list" then .list else .call name

def Head.node : Head → List Node → Node
  | .list, as => .list as
  | .call f, as => .call f as

inductive Frame
  | sign
  | item (head : Head) (before : List Node)
  | test
  | onTrue (test : Node)
  | onFalse (test onTrue : Node)
  | body (name : String) (parameters : List String)

inductive Want
  | expression
  | head
  | item (head : Head) (before : List Node)
  | close (node : Node)
  | name
  | bracket (name : String)
  | parameter (name : String) (before : List String)

/-- What a token leads to. A token that is refused stays unread. -/
inductive Step
  | next (want : Want) (frames : List Frame)
  | done (node : Node)
  | fail (error : SyntaxError)
  | refuse (error : SyntaxError)

/-- Hands a finished expression, whose first token is given, to the frames around it. -/
def finish (first : Token) (n : Node) : List Frame → Step
  | [] => .done n
  | .sign :: fs =>
    match n with
    | .number v => finish first (.number (-v)) fs
    | _ => .fail (.unexpected first)
  | .item h ns :: fs => .next (.item h (ns ++ [n])) fs
  | .test :: fs => .next .expression (.onTrue n :: fs)
  | .onTrue a :: fs => .next .expression (.onFalse a n :: fs)
  | .onFalse a b :: fs => .next (.close (.cond a b n)) fs
  | .body f ps :: fs => .next (.close (.defn f ps n)) fs

def start (fs : List Frame) : Token → Step
  | .number v => finish (.number v) (.number v) fs
  | .boolean b => finish (.boolean b) (.boolean b) fs
  | .text s => finish (.text s) (.text s) fs
  | .name x => finish (.name x) (.identifier x) fs
  | .minus => .next .expression (.sign :: fs)
  | .openParen => .next .head fs
  | t => .fail (.unexpected t)

def step : Want → List Frame → Token → Step
  | .expression, fs, t => start fs t
  | .head, fs, t =>
    match t with
    | .ifKeyword => .next .expression (.test :: fs)
    | .defnKeyword => .next .name fs
    | .name f => .next (.item (.ofName f) []) fs
    | _ => .refuse (.unexpected t)
  | .item h ns, fs, t =>
    match t with
    | .closeParen => finish .openParen (h.node ns) fs
    | _ => start (.item h ns :: fs) t
  | .close n, fs, t =>
    match t with
    | .closeParen => finish .openParen n fs
    | _ => .fail (.unexpected t)
  | .name, fs, t =>
    match t with
    | .name f => .next (.bracket f) fs
    | _ => .fail (.unexpected t)
  | .bracket f, fs, t =>
    match t with
    | .openBracket => .next (.parameter f []) fs
    | _ => .fail (.unexpected t)
  | .parameter f ps, fs, t =>
    match t with
    | .closeBracket => .next .expression (.body f ps :: fs)
    | .name p => .next (.parameter f (ps ++ [p])) fs
    | _ => .fail (.unexpected t)

def resume : Want → List Frame → List Token → Except SyntaxError Node × List Token
  | _, _, [] => (.error .ended, [])
  | w, fs, t :: ts =>
    match step w fs t with
    | .next w' fs' => resume w' fs' ts
    | .done n => (.ok n, ts)
    | .fail e => (.error e, ts)
    | .refuse e => (.error e, t :: ts)

theorem length_resume_lt {w : Want} {fs : List Frame} {ts rest : List Token} {n : Node}
    (h : resume w fs ts = (.ok n, rest)) : rest.length < ts.length := by
  induction ts generalizing w fs with
  | nil => simp [resume] at h
  | cons t ts ih =>
    rw [resume] at h
    split at h
    · exact Nat.lt_succ_of_lt (ih h)
    · simp only [Prod.mk.injEq] at h
      rw [h.2]
      exact Nat.lt_succ_self _
    · simp at h
    · simp at h

end Reader

def read (ts : List Token) : Except SyntaxError Node × List Token :=
  Reader.resume .expression [] ts

def readAll (ts : List Token) : Except SyntaxError (List Node) :=
  match ts with
  | [] => .ok []
  | t :: ts =>
    match _h : read (t :: ts) with
    | (.ok n, rest) => (readAll rest).map (n :: ·)
    | (.error e, _) => .error e
termination_by ts.length
decreasing_by exact Reader.length_resume_lt (by assumption)

theorem readAll_of_read_ok {ts rest : List Token} {n : Node} (h : read ts = (.ok n, rest)) :
    readAll ts = (readAll rest).map (n :: ·) := by
  cases ts with
  | nil => simp [read, Reader.resume] at h
  | cons t ts =>
    rw [readAll]
    split
    · rename_i heq
      obtain ⟨rfl, rfl⟩ : _ = n ∧ _ = rest := by simpa using heq.symm.trans h
      rfl
    · rename_i heq
      simp [heq] at h

theorem readAll_of_read_error {t : Token} {ts rest : List Token} {e : SyntaxError}
    (h : read (t :: ts) = (.error e, rest)) : readAll (t :: ts) = .error e := by
  rw [readAll]
  split
  · rename_i heq
    simp [heq] at h
  · rename_i heq
    simp_all

structure Cursor where
  tokens : List Token
  position : Nat

namespace Cursor

def ofTokens (ts : List Token) : Cursor := ⟨ts, 0⟩

def rest (c : Cursor) : List Token := c.tokens.drop c.position

def peek? (c : Cursor) : Option Token := c.tokens[c.position]?

def isDone (c : Cursor) : Bool := c.tokens.length ≤ c.position

def next (c : Cursor) : Option Token × Cursor :=
  match c.peek? with
  | some t => (some t, { c with position := c.position + 1 })
  | none => (none, c)

def read (c : Cursor) : Except SyntaxError Node × Cursor :=
  let (result, unread) := Lisplet.read c.rest
  (result, { c with position := c.tokens.length - unread.length })

end Cursor

end Lisplet
