import Lisplet.Error

namespace Lisplet

inductive Failure
  | error (e : Error)
  | missingNode
  | tooDeep
  deriving DecidableEq

def Failure.text : Failure → String
  | .error e => e.text
  | .missingNode => "unexpected node type: <nil>"
  | .tooDeep => "calls nest too deeply"

/-- The depth of an event is the number of calls that are live just after it. -/
inductive Event
  | printed (line : String)
  | unprinted (reason : String)
  | declared (name : String) (parameters : List String) (depth : Nat)
  | defined (name : String) (value : Value) (depth : Nat)
  | entered (name : String) (depth : Nat)
  | left (name : String) (depth : Nat)
  | failed (expression : Node) (error : Error)
  | loading (path : String)
  | aborted (path : String) (failure : Failure)
  | unreadLine (reason : String)

namespace Event

def output : Event → List Char
  | .printed line => line.toList ++ ['\n']
  | _ => []

end Event

def output (trace : List Event) : String := String.ofList (trace.flatMap Event.output)

inductive Level
  | debug
  | info
  | warn
  | error
  deriving DecidableEq

def Level.label : Level → String
  | .debug => "debug"
  | .info => "info"
  | .warn => "warn"
  | .error => "error"

inductive Detail
  | text (s : String)
  | count (n : Nat)
  | names (xs : List String)
  deriving DecidableEq

structure Entry where
  level : Level
  message : String
  details : List (String × Detail)
  deriving DecidableEq

def Event.entry? : Event → Option Entry
  | .printed _ => none
  | .unprinted reason => some ⟨.warn, "println failed", [("error", .text reason)]⟩
  | .declared f ps depth =>
    some ⟨.debug, "declared function",
      [("name", .text f), ("parameters", .names ps), ("depth", .count depth)]⟩
  | .defined x v depth =>
    some ⟨.debug, "defined", [("name", .text x), ("value", .text v.debug), ("depth", .count depth)]⟩
  | .entered f depth =>
    some ⟨.debug, "entering function", [("name", .text f), ("depth", .count depth)]⟩
  | .left f depth =>
    some ⟨.debug, "leaving function", [("name", .text f), ("depth", .count depth)]⟩
  | .failed n e =>
    some ⟨.debug, "evaluation failed", [("expression", .text n.render), ("error", .text e.text)]⟩
  | .loading path => some ⟨.info, "loading file", [("path", .text path)]⟩
  | .aborted path f =>
    some ⟨.error, "program failed", [("path", .text path), ("error", .text f.text)]⟩
  | .unreadLine reason => some ⟨.error, "could not read a line", [("error", .text reason)]⟩

def log (trace : List Event) : List Entry := trace.filterMap Event.entry?

end Lisplet
