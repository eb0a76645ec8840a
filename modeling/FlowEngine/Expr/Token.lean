import FlowEngine.Decimal.Layout

/-!
# Tokens

The smallest parts of an expression's text.
-/
namespace FlowEngine

/-- Operators and brackets. -/
inductive Punct where
  | strictEq
  | strictNe
  | arrow
  | looseEq
  | looseNe
  | le
  | ge
  | and
  | or
  | coalesce
  | optional
  | plus
  | minus
  | star
  | slash
  | percent
  | lt
  | gt
  | bang
  | question
  | colon
  | dot
  | comma
  | openParen
  | closeParen
  | openBracket
  | closeBracket
  | openBrace
  | closeBrace
deriving DecidableEq, Repr

namespace Punct

def text : Punct → String
  | strictEq => "==="
  | strictNe => "!=="
  | arrow => "=>"
  | looseEq => "=="
  | looseNe => "!="
  | le => "<="
  | ge => ">="
  | and => "&&"
  | or => "||"
  | coalesce => "??"
  | optional => "?."
  | plus => "+"
  | minus => "-"
  | star => "*"
  | slash => "/"
  | percent => "%"
  | lt => "<"
  | gt => ">"
  | bang => "!"
  | question => "?"
  | colon => ":"
  | dot => "."
  | comma => ","
  | openParen => "("
  | closeParen => ")"
  | openBracket => "["
  | closeBracket => "]"
  | openBrace => "\x7b"
  | closeBrace => "\x7d"

end Punct

inductive Token where
  | number (x : Float)
  | text (s : String)
  | name (s : String)
  | punct (p : Punct)

namespace Token

/-- How messages speak of a token; none stands for the end of the expression. -/
def describe : Option Token → String
  | some (number x) => "number " ++ Decimal.Layout.plain.render x
  | some (text s) => "string '" ++ s ++ "'"
  | some (name s) => "'" ++ s ++ "'"
  | some (punct p) => "'" ++ p.text ++ "'"
  | none => "end of expression"

end Token
end FlowEngine
