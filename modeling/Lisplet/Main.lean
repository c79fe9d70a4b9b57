import Lisplet.Engine
import Lisplet.Prompt
import Lisplet.Text.Format

namespace Lisplet.Main

def callLimit : Nat := 1000000

def causeOf : IO.Error → ReadCause
  | .noFileOrDirectory _ _ _ => .notFound
  | .permissionDenied _ _ _ => .denied
  | _ => .unusable

def load (path : String) : IO (Except ReadCause String) := do
  try
    let bytes ← IO.FS.readBinFile path
    return .ok (Text.decode bytes)
  catch e => return .error (causeOf e)

def runFile (path : String) : IO UInt32 := do
  let finish := (Engine.fresh .working callLimit).execute path (← load path)
  IO.print finish.output
  return UInt32.ofNat finish.code

def ask (input : IO.FS.Stream) : IO (Option Input) := do
  IO.print Prompt.sign
  (← IO.getStdout).flush
  try
    let line ← input.getLine
    return if line.isEmpty then none else some (.line line)
  catch e => return some (.broken (toString e))

def halt (h : Prompt.Halt) : IO UInt32 := do
  IO.print h.output
  return UInt32.ofNat h.code

partial def converse (input : IO.FS.Stream) (e : Engine) : IO UInt32 := do
  match ← ask input with
  | none => halt Prompt.atEnd
  | some i =>
    match Prompt.step e i with
    | .halt h => halt h
    | .again _ answer e' =>
      IO.print answer
      converse input e'

def start : List String → IO UInt32
  | path :: _ => runFile path
  | [] => do
    IO.print (Prompt.banner ++ "\n\n")
    converse (← IO.getStdin) (Engine.fresh .working callLimit)

end Lisplet.Main

def main (args : List String) : IO UInt32 := Lisplet.Main.start args
