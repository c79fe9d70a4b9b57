import Lisplet.Text.Format

namespace Lisplet

inductive Token
  | openParen
  | closeParen
  | openBracket
  | closeBracket
  | minus
  | ifKeyword
  | defnKeyword
  | number (value : Int64)
  | text (content : String)
  | boolean (value : Bool)
  | name (spelling : String)
  | unknown (code : UInt8)
  deriving DecidableEq

namespace Token

inductive Kind
  | openParen
  | closeParen
  | openBracket
  | closeBracket
  | minus
  | ifKeyword
  | defnKeyword
  | number
  | text
  | boolean
  | name
  | unknown (code : UInt8)
  deriving DecidableEq

def Kind.ofCode : UInt8 → Kind
  | 1 => .openParen
  | 2 => .closeParen
  | 3 => .openBracket
  | 4 => .closeBracket
  | 5 => .minus
  | 6 => .ifKeyword
  | 7 => .defnKeyword
  | 8 => .number
  | 9 => .text
  | 10 => .boolean
  | 11 => .name
  | code => .unknown code

def Kind.label : Kind → String
  | .openParen => "OpeningParenthesis"
  | .closeParen => "ClosingParenthesis"
  | .openBracket => "OpeningBracket"
  | .closeBracket => "ClosingBracket"
  | .minus => "NegativeSymbol"
  | .ifKeyword => "IfKeyword"
  | .defnKeyword => "DefnKeyword"
  | .number => "Number"
  | .text => "String"
  | .boolean => "Boolean"
  | .name => "Name"
  | .unknown code => "unknown:" ++ Text.natural code.toNat

def kind : Token → Kind
  | .openParen => .openParen
  | .closeParen => .closeParen
  | .openBracket => .openBracket
  | .closeBracket => .closeBracket
  | .minus => .minus
  | .ifKeyword => .ifKeyword
  | .defnKeyword => .defnKeyword
  | .number _ => .number
  | .text _ => .text
  | .boolean _ => .boolean
  | .name _ => .name
  | .unknown code => .unknown code

def debug : Token → String
  | .number n => "Number(" ++ Text.numeral n ++ ")"
  | .boolean b => "Boolean(" ++ toString b ++ ")"
  | .text s => "String(" ++ Text.quoted s ++ ")"
  | .name s => "Name(" ++ s ++ ")"
  | t => t.kind.label

end Token

end Lisplet
