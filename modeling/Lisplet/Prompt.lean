import Lisplet.Engine

namespace Lisplet

inductive Input
  | line (text : String)
  | interrupted
  | broken (reason : String)

namespace Prompt

def banner : String := "Welcome to RISP 🎉"

def sign : String := "> "

inductive Request
  | nothing
  | quit
  | run (source : String)
  deriving DecidableEq

def Request.ofLine (line : String) : Request :=
  let source := String.ofList (Text.trim line.toList)
  if source = "" then .nothing
  else if source = ":quit" then .quit
  else .run source

def shown (r : Report) : String :=
  output r.trace ++
    (match r.result with
      | .ok v => v.display
      | .error f => f.text) ++ "\n"

structure Halt where
  code : Nat
  output : String
  trace : List Event

inductive Turn
  | halt (h : Halt)
  | again (history : List String) (answer : String) (engine : Engine)

def atEnd : Halt := ⟨0, "\n", []⟩

def step (e : Engine) : Input → Turn
  | .interrupted => .again [] "" e
  | .broken reason => .halt ⟨1, "", [.unreadLine reason]⟩
  | .line text =>
    match Request.ofLine text with
    | .nothing => .again [] "" e
    | .quit => .halt ⟨0, "", []⟩
    | .run source =>
      let r := e.run source
      .again [source] (shown r) r.engine

structure Transcript where
  code : Nat
  output : String
  history : List String
  prompts : List String
  unread : Nat
  trace : List Event
  engine : Engine

def Halt.transcript (h : Halt) (unread : Nat) (e : Engine) : Transcript :=
  ⟨h.code, h.output, [], [sign], unread, h.trace, e⟩

/-- The loop, from one prompt on. Behind the last input comes the end of input. -/
def loop (e : Engine) : List Input → Transcript
  | [] => atEnd.transcript 0 e
  | i :: rest =>
    match step e i with
    | .halt h => h.transcript rest.length e
    | .again history answer e' =>
      let t := loop e' rest
      { t with
        output := answer ++ t.output
        history := history ++ t.history
        prompts := sign :: t.prompts }

def converse (e : Engine) (inputs : List Input) : Transcript :=
  let t := loop e inputs
  { t with output := banner ++ "\n\n" ++ t.output }

end Prompt

end Lisplet
