import Lisplet.Text.Character

namespace Lisplet

namespace Address

inductive Fault
  | missingPort
  | tooManyColons
  | unclosedBracket
  | strayOpening
  | strayClosing
  deriving DecidableEq

def Fault.text : Fault → String
  | .missingPort => "missing port in address"
  | .tooManyColons => "too many colons in address"
  | .unclosedBracket => "missing ']' in address"
  | .strayOpening => "unexpected '[' in address"
  | .strayClosing => "unexpected ']' in address"

def stray? (opening closing : List Char) : Option Fault :=
  if '[' ∈ opening then some .strayOpening
  else if ']' ∈ closing then some .strayClosing
  else none

/-- A host in brackets may hold colons; without brackets it holds none. -/
def fault? (address : List Char) : Option Fault :=
  if ':' ∉ address then some .missingPort
  else match address with
    | '[' :: inside =>
      match inside.dropWhile (· != ']') with
      | [] => some .unclosedBracket
      | _ :: ':' :: rest =>
        if ':' ∈ rest then some .tooManyColons else stray? inside rest
      | _ => some .missingPort
    | _ =>
      if 1 < address.count ':' then some .tooManyColons else stray? address address

end Address

structure Settings where
  metricsAddress : String
  historyFile : String

namespace Settings

def addressProblem? (s : Settings) : Option String :=
  if s.metricsAddress = "" then none
  else (Address.fault? s.metricsAddress.toList).map fun f =>
    "RISP_METRICS_ADDR (address " ++ s.metricsAddress ++ ": " ++ f.text ++ ")"

def historyProblem? (s : Settings) : Option String :=
  if s.historyFile.toList.all Text.isBlank then some "RISP_HISTORY" else none

def problem? (s : Settings) : Option String :=
  match s.addressProblem?, s.historyProblem? with
  | none, none => none
  | some a, none => some ("invalid fields: " ++ a)
  | none, some h => some ("invalid fields: " ++ h)
  | some a, some h => some ("invalid fields: " ++ a ++ ", " ++ h)

end Settings

end Lisplet
