import Lisplet.Error

namespace Lisplet

inductive Folder
  | file (content : String)
  | directory (entries : List (String × Folder))

namespace Folder

def child? (name : String) : List (String × Folder) → Option Folder
  | [] => none
  | (x, f) :: fs => if x = name then some f else child? name fs

def nameLimit : Nat := 255

def pathLimit : Nat := 4095

/-- Follows a path, name by name, from a place whose parents are given, nearest first. Nothing is
known of what lies above the last of them. -/
def walk (parents : List Folder) (here : Folder) : List String → Except ReadCause Folder
  | [] => .ok here
  | name :: names =>
    match here with
    | .file _ => .error .notDirectory
    | .directory entries =>
      if name = "" ∨ name = "." then walk parents here names
      else if name = ".." then
        match parents with
        | [] => walk [] (.directory []) names
        | parent :: others => walk others parent names
      else if nameLimit < name.utf8ByteSize then .error .unusable
      else match child? name entries with
        | some next => walk (here :: parents) next names
        | none => .error .notFound

def names (path : String) : List String :=
  (path.toList.splitOn '/').map String.ofList

def root (f : Folder) (path : String) : Folder :=
  if path.toList.head? = some '/' then .directory [] else f

def fetch (f : Folder) (path : String) : Except ReadCause String :=
  if path = "" then .error .notFound
  else if '\x00' ∈ path.toList ∨ pathLimit < path.utf8ByteSize then .error .unusable
  else match walk [] (f.root path) (names path) with
    | .ok (.file content) => .ok content
    | .ok (.directory _) => .error .isDirectory
    | .error cause => .error cause

end Folder

end Lisplet
