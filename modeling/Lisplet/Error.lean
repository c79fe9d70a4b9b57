import Lisplet.Node.Reader
import Lisplet.Value

namespace Lisplet

inductive ReadCause
  | notFound
  | denied
  | invalid
  | exists
  | closed
  | ended
  | isDirectory
  | notDirectory
  | unusable
  deriving DecidableEq

namespace ReadCause

def text : ReadCause → String
  | .notFound => "file does not exist"
  | .denied => "permission denied"
  | .invalid => "invalid argument"
  | .exists => "file already exists"
  | .closed => "file already closed"
  | .ended => "EOF"
  | .isDirectory => "is a directory"
  | .notDirectory => "not a directory"
  | .unusable => "path cannot be used"

def reason : ReadCause → String
  | .notFound => "NotFound"
  | .denied => "PermissionDenied"
  | .invalid => "InvalidInput"
  | _ => "Other"

end ReadCause

structure ReadFailure where
  path : String
  cause : ReadCause
  deriving DecidableEq

def ReadFailure.text (r : ReadFailure) : String :=
  "reading " ++ r.path ++ ": " ++ r.cause.text

inductive Cause
  | unexpectedToken (token : Token)
  | missingToken
  | undefinedFunction (name : String)
  | notAFunction (name : String)
  | argument
  | tooFewArguments
  | typeMismatch (expected actual : Value.Kind)
  | file (reason : String)
  | unknown (code : UInt8)
  deriving DecidableEq

structure Error where
  cause : Cause
  message : String
  under : Option ReadFailure := none
  deriving DecidableEq

namespace Error

inductive Kind
  | unexpectedToken
  | missingToken
  | undefinedFunction
  | notAFunction
  | argument
  | tooFewArguments
  | typeMismatch
  | file
  | unknown (code : UInt8)
  deriving DecidableEq

def Kind.ofCode : UInt8 → Kind
  | 1 => .unexpectedToken
  | 2 => .missingToken
  | 3 => .undefinedFunction
  | 4 => .notAFunction
  | 5 => .argument
  | 6 => .tooFewArguments
  | 7 => .typeMismatch
  | 8 => .file
  | code => .unknown code

def Kind.label : Kind → String
  | .unexpectedToken => "UnexpectedToken"
  | .missingToken => "MissingToken"
  | .undefinedFunction => "UndefinedFunction"
  | .notAFunction => "NotAFunction"
  | .argument => "ArgumentError"
  | .tooFewArguments => "TooFewArguments"
  | .typeMismatch => "TypeError"
  | .file => "IOError"
  | .unknown code => "unknown:" ++ Text.natural code.toNat

end Error

namespace Cause

def kind : Cause → Error.Kind
  | .unexpectedToken _ => .unexpectedToken
  | .missingToken => .missingToken
  | .undefinedFunction _ => .undefinedFunction
  | .notAFunction _ => .notAFunction
  | .argument => .argument
  | .tooFewArguments => .tooFewArguments
  | .typeMismatch _ _ => .typeMismatch
  | .file _ => .file
  | .unknown code => .unknown code

def text (c : Cause) : String :=
  c.kind.label ++
    match c with
    | .unexpectedToken t => "(" ++ t.debug ++ ")"
    | .undefinedFunction f => "(" ++ Text.quoted f ++ ")"
    | .notAFunction f => "(" ++ Text.quoted f ++ ")"
    | .typeMismatch x y => "\x7bexpected: " ++ x.label ++ ", actual: " ++ y.label ++ "\x7d"
    | .file reason => "(" ++ reason ++ ")"
    | _ => ""

end Cause

namespace Error

def kind (e : Error) : Kind := e.cause.kind

def text (e : Error) : String :=
  if e.message = "" then e.cause.text else e.cause.text ++ ": " ++ e.message

def unexpectedToken (t : Token) : Error := ⟨.unexpectedToken t, "unexpected token", none⟩

def missingToken : Error := ⟨.missingToken, "input ended before a required token", none⟩

def undefinedFunction (f : String) : Error := ⟨.undefinedFunction f, "undefined", none⟩

def notAFunction (f : String) : Error := ⟨.notAFunction f, "not a function", none⟩

def argument (message : String) : Error := ⟨.argument, message, none⟩

def tooFewArguments (message : String) : Error := ⟨.tooFewArguments, message, none⟩

def typeMismatch (expected actual : Value.Kind) (message : String) : Error :=
  ⟨.typeMismatch expected actual, message, none⟩

def unreadable (path : String) (cause : ReadCause) : Error :=
  ⟨.file cause.reason, "could not read " ++ path, some ⟨path, cause⟩⟩

def ofSyntax : SyntaxError → Error
  | .unexpected t => unexpectedToken t
  | .ended => missingToken

end Error

inductive Chain
  | error (e : Error)
  | read (failure : ReadFailure)
  | note (text : String) (under : Chain)

namespace Chain

def text : Chain → String
  | .error e => e.text
  | .read r => r.text
  | .note w c => w ++ ": " ++ c.text

def annotate (c : Chain) (notes : List String) : Chain :=
  notes.foldl (fun c w => .note w c) c

def kind? : Chain → Option Error.Kind
  | .error e => some e.kind
  | .read _ => none
  | .note _ c => c.kind?

def has (c : Chain) (k : Error.Kind) : Bool := c.kind? == some k

end Chain

end Lisplet
