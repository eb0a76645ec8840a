import FlowEngine.Power
import FlowEngine.Text.CaseMap
import FlowEngine.Text.Search

/-!
# Network addresses

Numeric addresses of both kinds as they stand in the place of a host, and which of them belong to the
machine itself or to a private network.
-/
namespace FlowEngine.Http

/-- A numeric address: four bytes as one number, or eight pieces of 16 bits. -/
inductive Address where
  | v4 (value : Nat)
  | v6 (pieces : List Nat)
deriving DecidableEq, Repr

namespace Address

/-- A number of a base; the empty text is zero. -/
def numberOf? (base : Nat) (cs : List Char) : Option Nat :=
  (cs.mapM (fun (c : Char) =>
    let n :=
      if c.isDigit then c.toNat - '0'.toNat
      else if 'a' ≤ c.toLower && c.toLower ≤ 'f' then c.toLower.toNat - 'a'.toNat + 10
      else 16
    if n < base then some n else none)).map (fun ds => ds.foldl (fun n d => base * n + d) 0)

/-- A part of an address of the first kind: in base sixteen behind `0x`, in base eight behind a zero. -/
def part? (cs : List Char) : Option Nat :=
  match cs with
  | [] => none
  | ['0'] => some 0
  | '0' :: 'x' :: ds => numberOf? 16 ds
  | '0' :: 'X' :: ds => numberOf? 16 ds
  | '0' :: ds => numberOf? 8 ds
  | ds => numberOf? 10 ds

/-- The labels of a name without the empty one that a final point leaves. -/
def labels (name : List Char) : List (List Char) :=
  let pieces := Text.splitAtChar '.' name
  if pieces.length > 1 && pieces.getLast? == some [] then pieces.dropLast else pieces

def endsInNumber (name : List Char) : Bool :=
  match (labels name).getLast? with
  | some last => !last.isEmpty && (last.all Char.isDigit || (part? last).isSome)
  | none => false

/-- The value of at most four parts; the last one fills all bytes that are left. -/
def v4? (name : List Char) : Option Nat := do
  let parts ← (labels name).mapM part?
  let last ← parts.getLast?
  let leading := parts.dropLast
  if parts.length > 4 || leading.any (· > 255) || last ≥ 256 ^ (5 - parts.length) then none
  else some (leading.zipIdx.foldl (fun n (part, i) => n + part * 256 ^ (3 - i)) last)

/-- Four decimal parts below 256, as they may stand at the end of an address of the second kind. -/
def dotted? (cs : List Char) : Option (List Nat) := do
  let parts ← (Text.splitAtChar '.' cs).mapM (fun ds =>
    if ds.isEmpty || !ds.all Char.isDigit || (ds.length > 1 && ds.head? == some '0') then none
    else (numberOf? 10 ds).filter (· < 256))
  match parts with
  | [a, b, c, d] => some [256 * a + b, 256 * c + d]
  | _ => none

/-- Pieces between colons; the last one may be a dotted address. -/
def pieces? (cs : List Char) : Option (List Nat) :=
  if cs.isEmpty then some []
  else
    let parts := Text.splitAtChar ':' cs
    let plain (ds : List Char) : Option Nat :=
      if ds.isEmpty || ds.length > 4 then none else numberOf? 16 ds
    match parts.getLast? with
    | some last =>
      if last.contains '.' then do
        return (← parts.dropLast.mapM plain) ++ (← dotted? last)
      else parts.mapM plain
    | none => none

/-- Eight pieces, where one pair of colons may stand for zeros. -/
def v6? (cs : List Char) : Option (List Nat) :=
  match Text.cut? [':', ':'] cs with
  | none => (pieces? cs).filter (·.length == 8)
  | some (before, behind) => do
    let left ← pieces? before
    let right ← pieces? behind
    if before.contains '.' || left.length + right.length > 7 then none
    else some (left ++ List.replicate (8 - left.length - right.length) 0 ++ right)

def byte (value i : Nat) : Nat := value / 256 ^ (3 - i) % 256

/-- Addresses of the first kind that are not public: the machine itself, private networks, link-local
ones, the broadcast address, and those shared by carriers. -/
def isInternalV4 (value : Nat) : Bool :=
  let a := byte value 0
  let b := byte value 1
  a == 127 || a == 10 || (a == 172 && b / 16 == 1) || (a == 192 && b == 168) ||
    (a == 169 && b == 254) || value == 2 ^ 32 - 1 || value == 0 || (a == 100 && b / 64 == 1)

def isInternal : Address → Bool
  | v4 value => isInternalV4 value
  | v6 [0, 0, 0, 0, 0, 0, 0, 0] => true
  | v6 [0, 0, 0, 0, 0, 0, 0, 1] => true
  | v6 [0, 0, 0, 0, 0, 0xFFFF, hi, lo] => isInternalV4 (65536 * hi + lo)
  | v6 _ => false

def isThisMachine (address : Address) : Bool :=
  address == v4 (127 * 2 ^ 24 + 1) || address == v4 0 || address == v6 [0, 0, 0, 0, 0, 0, 0, 1]

end Address
end FlowEngine.Http
