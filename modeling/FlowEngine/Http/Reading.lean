import FlowEngine.Codec.Encoding
import FlowEngine.Http.Url

/-!
# Reading locations

Locations are read in the forgiving way in which browsers read them: white space around the text does not count,
backslashes pass for slashes, and characters that have no place in a location are escaped. Names of hosts outside of
ASCII are not read, but for full-width forms.
-/
namespace FlowEngine.Http

namespace Host

/-- Characters that a name must not have. -/
def isForbidden (c : Char) : Bool :=
  c.toNat ≤ 0x20 || c.toNat == 0x7F ||
    c ∈ ['#', '/', ':', '<', '>', '?', '@', '[', '\\', ']', '^', '|', '%']

/-- A character in its plain form: full-width forms become ASCII, other full stops become points. -/
def plainForm (c : Char) : Char :=
  let n := c.toNat
  if 0xFF01 ≤ n && n ≤ 0xFF5E then Char.ofNat (n - 0xFEE0)
  else if n == 0x3002 || n == 0xFF61 then '.' else c

def ofText? (cs : List Char) : Option Host :=
  match cs with
  | '[' :: inner =>
    if inner.getLast? == some ']' then
      (Address.v6? inner.dropLast).map (fun pieces => address (.v6 pieces))
    else none
  | _ => do
    let decoded ← Percent.decode? (String.ofList cs)
    let plain := (Text.lower (String.ofList (decoded.toList.map plainForm))).toList
    if plain.isEmpty || plain.any (fun c => isForbidden c || 128 ≤ c.toNat) then none
    else if Address.endsInNumber plain then (Address.v4? plain).map (fun n => address (.v4 n))
    else some (name (String.ofList plain))

end Host

namespace Url

def keepsInPath (c : Char) : Bool :=
  0x20 < c.toNat && c.toNat < 0x7F && c ∉ ['"', '#', '<', '>', '?', '\x60', '\x7b', '\x7d', '^']

def keepsInQuery (c : Char) : Bool :=
  0x20 < c.toNat && c.toNat < 0x7F && c ∉ ['"', '#', '<', '>', '\'']

def keepsInFragment (c : Char) : Bool :=
  0x20 < c.toNat && c.toNat < 0x7F && c ∉ ['"', '<', '>', '\x60']

def keepsInUser (c : Char) : Bool :=
  keepsInPath c && c ∉ ['/', ':', ';', '=', '@', '[', '\\', ']', '|']

def escape (keep : Char → Bool) (cs : List Char) : String := Percent.encodeUnless keep (String.ofList cs)

/-- The text without white space around it and without line ends and tabs. -/
def clean (text : String) : List Char :=
  let trimmed := ((text.toList.dropWhile (·.toNat ≤ 0x20)).reverse.dropWhile (·.toNat ≤ 0x20)).reverse
  trimmed.filter (fun c => c != '\t' && c != '\n' && c != '\r')

def scheme? (cs : List Char) : Option (String × List Char) :=
  let name := cs.takeWhile (fun c => c.isAlphanum || c == '+' || c == '-' || c == '.')
  match cs.drop name.length with
  | ':' :: rest =>
    if name.head?.any Char.isAlpha then some (String.ofList (name.map Char.toLower), rest) else none
  | _ => none

def isSlash (c : Char) : Bool := c == '/' || c == '\\'

def isSame (segment : String) : Bool := Text.lowerAscii segment ∈ [".", "%2e"]

def isAbove (segment : String) : Bool :=
  Text.lowerAscii segment ∈ ["..", ".%2e", "%2e.", "%2e%2e"]

/-- Resolves segments that stand for other places, behind those that are given from the last one on. -/
def resolveSegments : List String → List String → List String
  | done, [] => done.reverse
  | done, [last] =>
    if isAbove last then ("" :: done.drop 1).reverse
    else if isSame last then ("" :: done).reverse
    else (last :: done).reverse
  | done, segment :: rest =>
    if isAbove segment then resolveSegments (done.drop 1) rest
    else if isSame segment then resolveSegments done rest
    else resolveSegments (segment :: done) rest

def segments (cs : List Char) : List String :=
  (Text.splitAtChar '/' (cs.map (fun c => if c == '\\' then '/' else c))).map (escape keepsInPath)

def pathOf (segments : List String) : String := "/" ++ "/".intercalate segments

def splitTail (cs : List Char) : List Char × Option String × Option String :=
  let before := cs.takeWhile (· != '#')
  let fragment := if before.length == cs.length then none
    else some (escape keepsInFragment (cs.drop (before.length + 1)))
  let path := before.takeWhile (· != '?')
  let query := if path.length == before.length then none
    else some (escape keepsInQuery (before.drop (path.length + 1)))
  (path, query, fragment)

def splitLast? (d : Char) (cs : List Char) : Option (List Char × List Char) :=
  let behind := (cs.reverse.takeWhile (· != d)).reverse
  if behind.length == cs.length then none else some (cs.take (cs.length - behind.length - 1), behind)

/-- A host with an optional port; the usual port is left out. -/
def hostAndPort? (scheme : String) (cs : List Char) : Option (Host × Option Nat) :=
  let (host, port) := match splitLast? ':' cs with
    | some (host, port) => if port.contains ']' then (cs, []) else (host, port)
    | none => (cs, [])
  if !port.all Char.isDigit then none
  else do
    let host ← Host.ofText? host
    if port.isEmpty then return (host, none)
    let n := port.foldl (fun n c => 10 * n + (c.toNat - '0'.toNat)) 0
    if n > 65535 then none
    else return (host, if usualPorts.lookup scheme == some n then none else some n)

def withHost? (scheme : String) (cs : List Char) : Option Url := do
  let authority := cs.takeWhile (fun c => !isSlash c && c != '?' && c != '#')
  let (path, query, fragment) := splitTail (cs.drop authority.length)
  let (login, place) := (splitLast? '@' authority).getD ([], authority)
  let user := login.takeWhile (· != ':')
  let (host, port) ← hostAndPort? scheme place
  return { scheme, user := escape keepsInUser user,
           password := escape keepsInUser (login.drop (user.length + 1)), host := some host, port,
           path := pathOf (resolveSegments [] (segments (path.drop 1))), query, fragment }

def parse? (text : String) : Option Url :=
  match scheme? (clean text) with
  | none => none
  | some (scheme, rest) =>
    if isSpecial scheme then withHost? scheme (rest.dropWhile isSlash)
    else
      let (path, query, fragment) := splitTail rest
      some { scheme, user := "", password := "", host := none, port := none,
             path := escape (fun c => 0x20 ≤ c.toNat && c.toNat < 0x7F) path, query, fragment }

/-- Reads an absolute address, or says that it is none. -/
def read : Reader := fun text => match parse? text with
  | some url => .ok url
  | none => .error "not a location"

end Url
end FlowEngine.Http
