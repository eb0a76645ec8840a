import FlowEngine.Text.Search

/-!
# Encodings of text

Entities: characters that have a meaning in markup are written as entities. Reading knows a few more
entities than writing uses, and resolves the ampersand last, so that nothing is resolved twice.
-/
namespace FlowEngine.Entity

def encodeChar : Char → List Char
  | '&' => ['&', 'a', 'm', 'p', ';']
  | '<' => ['&', 'l', 't', ';']
  | '>' => ['&', 'g', 't', ';']
  | '\x22' => ['&', 'q', 'u', 'o', 't', ';']
  | '\'' => ['&', '#', '3', '9', ';']
  | c => [c]

def encode (s : String) : String := String.ofList (s.toList.flatMap encodeChar)

/-- Entities and the characters they stand for, in the order in which they are resolved. -/
def entities : List (String × Char) :=
  [("&lt;", '<'), ("&gt;", '>'), ("&quot;", '\x22'), ("&#39;", '\''), ("&#x27;", '\''),
    ("&nbsp;", '\xa0'), ("&amp;", '&')]

def decode (s : String) : String :=
  entities.foldl (fun s entity => Text.replaceAll s entity.1 (String.ofList [entity.2])) s

end FlowEngine.Entity

/-!
Percent encoding: bytes that have no place in an address are written as a percent sign and two
hexadecimal digits.
-/
namespace FlowEngine.Percent

def hexDigit (n : Nat) : Char := if n < 10 then Char.ofNat (48 + n) else Char.ofNat (55 + n)

def hexValue? (b : UInt8) : Option UInt8 :=
  if 48 ≤ b && b ≤ 57 then some (b - 48)
  else if 97 ≤ b && b ≤ 102 then some (b - 87)
  else if 65 ≤ b && b ≤ 70 then some (b - 55)
  else none

def escapeByte (b : UInt8) : List Char := ['%', hexDigit (b.toNat / 16), hexDigit (b.toNat % 16)]

/-- Escapes every byte of the characters that are not kept. -/
def encodeUnless (keep : Char → Bool) (s : String) : String :=
  String.ofList (s.toList.flatMap (fun c =>
    if keep c then [c] else c.toString.toUTF8.toList.flatMap escapeByte))

def isUnreserved (c : Char) : Bool := c.isAlphanum || c == '-' || c == '.' || c == '_' || c == '~'

def encode (s : String) : String := encodeUnless isUnreserved s

/-- The bytes of a text with its escapes resolved. A percent sign without two digits stays. -/
def decodeBytes : List UInt8 → List UInt8
  | [] => []
  | [a] => [a]
  | [a, b] => [a, b]
  | a :: b :: c :: rest =>
    if a == 37 then
      match hexValue? b, hexValue? c with
      | some hi, some lo => (hi * 16 + lo) :: decodeBytes rest
      | _, _ => a :: decodeBytes (b :: c :: rest)
    else a :: decodeBytes (b :: c :: rest)

def decode? (s : String) : Option String := String.fromUTF8? ⟨(decodeBytes s.toUTF8.toList).toArray⟩

end FlowEngine.Percent

/-!
Base 64: groups of three bytes as four characters, with equality signs that fill up the last group.
Reading is strict: the filling has to be there and unused bits have to be zero.
-/
namespace FlowEngine.Base64

def charOf (n : Nat) : Char :=
  if n < 26 then Char.ofNat (65 + n)
  else if n < 52 then Char.ofNat (71 + n)
  else if n < 62 then Char.ofNat (n - 4)
  else if n == 62 then '+' else '/'

def bitsOf? (c : Char) : Option Nat :=
  if 'A' ≤ c && c ≤ 'Z' then some (c.toNat - 65)
  else if 'a' ≤ c && c ≤ 'z' then some (c.toNat - 71)
  else if c.isDigit then some (c.toNat + 4)
  else if c == '+' then some 62
  else if c == '/' then some 63
  else none

def encodeBytes : List UInt8 → List Char
  | [] => []
  | [a] =>
    let n := a.toNat * 16
    [charOf (n / 64), charOf (n % 64), '=', '=']
  | [a, b] =>
    let n := (a.toNat * 256 + b.toNat) * 4
    [charOf (n / 4096), charOf (n / 64 % 64), charOf (n % 64), '=']
  | a :: b :: c :: rest =>
    let n := (a.toNat * 256 + b.toNat) * 256 + c.toNat
    [charOf (n / 262144), charOf (n / 4096 % 64), charOf (n / 64 % 64), charOf (n % 64)] ++
      encodeBytes rest

def decodeBytes? : List Char → Option (List UInt8)
  | [] => some []
  | [a, b, '=', '='] => do
    let n := (← bitsOf? a) * 64 + (← bitsOf? b)
    if n % 16 == 0 then some [UInt8.ofNat (n / 16)] else none
  | [a, b, c, '='] => do
    let n := ((← bitsOf? a) * 64 + (← bitsOf? b)) * 64 + (← bitsOf? c)
    if n % 4 == 0 then some [UInt8.ofNat (n / 1024), UInt8.ofNat (n / 4 % 256)] else none
  | a :: b :: c :: d :: rest => do
    let n := (((← bitsOf? a) * 64 + (← bitsOf? b)) * 64 + (← bitsOf? c)) * 64 + (← bitsOf? d)
    let bytes ← decodeBytes? rest
    return [UInt8.ofNat (n / 65536), UInt8.ofNat (n / 256 % 256), UInt8.ofNat (n % 256)] ++ bytes
  | _ => none

def encode (s : String) : String := String.ofList (encodeBytes s.toUTF8.toList)

def decode? (s : String) : Option ByteArray := (decodeBytes? s.toList).map (fun bytes => ⟨bytes.toArray⟩)

end FlowEngine.Base64
