import FlowEngine.Json.Basic
import FlowEngine.Decimal.Layout

/-!
# Writing documents

`Json.render` writes a value without spaces, `Json.renderPretty` with one item or field a line.
-/
namespace FlowEngine

def Num.render : Num → String
  | .int n => toString n
  | .float x => Decimal.Layout.document.render x

namespace Json

def hexDigit (n : Nat) : Char := if n < 10 then Char.ofNat (48 + n) else Char.ofNat (87 + n)

def escape (c : Char) : List Char :=
  match c with
  | '"' => ['\\', '"']
  | '\\' => ['\\', '\\']
  | '\x08' => ['\\', 'b']
  | '\x0c' => ['\\', 'f']
  | '\n' => ['\\', 'n']
  | '\r' => ['\\', 'r']
  | '\t' => ['\\', 't']
  | c =>
    if c.toNat < 32 then ['\\', 'u', '0', '0', hexDigit (c.toNat / 16), hexDigit (c.toNat % 16)]
    else [c]

def quote (s : String) : String := String.ofList ('"' :: (s.toList.flatMap escape ++ ['"']))

mutual
def renderOnto (out : String) : Json → String
  | null => out ++ "null"
  | bool b => out ++ (if b then "true" else "false")
  | num n => out ++ n.render
  | str s => out ++ quote s
  | arr [] => out ++ "[]"
  | arr (x :: xs) => renderItems (renderOnto (out ++ "[") x) xs
  | obj [] => out ++ "\x7b\x7d"
  | obj ((k, x) :: xs) => renderFields (renderOnto (out ++ "\x7b" ++ quote k ++ ":") x) xs

def renderItems (out : String) : List Json → String
  | [] => out ++ "]"
  | x :: xs => renderItems (renderOnto (out ++ ",") x) xs

def renderFields (out : String) : List (String × Json) → String
  | [] => out ++ "\x7d"
  | (k, x) :: xs => renderFields (renderOnto (out ++ "," ++ quote k ++ ":") x) xs
end

def render (value : Json) : String := renderOnto "" value

def newLine (level : Nat) : String := String.ofList ('\n' :: List.replicate (2 * level) ' ')

mutual
def prettyOnto (out : String) (level : Nat) : Json → String
  | arr [] => out ++ "[]"
  | arr (x :: xs) =>
    prettyItems (prettyOnto (out ++ "[" ++ newLine (level + 1)) (level + 1) x) level xs
  | obj [] => out ++ "\x7b\x7d"
  | obj ((k, x) :: xs) =>
    prettyFields
      (prettyOnto (out ++ "\x7b" ++ newLine (level + 1) ++ quote k ++ ": ") (level + 1) x) level xs
  | value => renderOnto out value

def prettyItems (out : String) (level : Nat) : List Json → String
  | [] => out ++ newLine level ++ "]"
  | x :: xs => prettyItems (prettyOnto (out ++ "," ++ newLine (level + 1)) (level + 1) x) level xs

def prettyFields (out : String) (level : Nat) : List (String × Json) → String
  | [] => out ++ newLine level ++ "\x7d"
  | (k, x) :: xs =>
    prettyFields (prettyOnto (out ++ "," ++ newLine (level + 1) ++ quote k ++ ": ") (level + 1) x)
      level xs
end

def renderPretty (value : Json) : String := prettyOnto "" 0 value

end Json
end FlowEngine
