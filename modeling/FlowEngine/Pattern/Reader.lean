import FlowEngine.Pattern.Basic
import FlowEngine.Power
import FlowEngine.Text.Blank
import FlowEngine.Text.Search

/-!
# Reading patterns

The common notation for patterns: classes in brackets, groups, alternatives and repetition, with
flags. Classes of characters and letter case are those of ASCII. `Pattern.read?` has no answer for
text that is no pattern.
-/
namespace FlowEngine.Pattern

/-- Switches that change how the rest of a group is read. -/
structure Flags where
  ignoreCase : Bool
  multiLine : Bool
  dotMatchesAll : Bool
  carriageReturns : Bool
  spaced : Bool
deriving DecidableEq, Repr

def Flags.none : Flags := ⟨false, false, false, false, false⟩

abbrev Step (α : Type) := List Char → Option (α × List Char)

def lastCode : Nat := 0x10FFFF

def groupLimit : Nat := 51

def sizeLimit : Nat := 10 * 2 ^ 20 / 32

def isSpace (c : Char) : Bool := Text.isBlank c

/-- Skips blanks and comments where they do not count; `inComment` says whether one is going on. -/
def skipSpaced (inComment : Bool) : List Char → List Char
  | [] => []
  | c :: cs =>
    if inComment then skipSpaced (c != '\n') cs
    else if isSpace c then skipSpaced false cs
    else if c == '#' then skipSpaced true cs
    else c :: cs

def Flags.skip (flags : Flags) (cs : List Char) : List Char :=
  if flags.spaced then skipSpaced false cs else cs

def foldCase (ranges : List (Nat × Nat)) : List (Nat × Nat) :=
  ranges ++ ranges.flatMap (fun (low, high) =>
    let shifted (first last : Nat) (shift : Nat → Nat) : List (Nat × Nat) :=
      if max low first ≤ min high last then [(shift (max low first), shift (min high last))] else []
    shifted 97 122 (· - 32) ++ shifted 65 90 (· + 32))

def literal (flags : Flags) (c : Char) : Pattern :=
  let ranges := [(c.toNat, c.toNat)]
  char (if flags.ignoreCase then foldCase ranges else ranges) false

def complement (ranges : List (Nat × Nat)) : List (Nat × Nat) :=
  let cut (pieces : List (Nat × Nat)) (range : Nat × Nat) : List (Nat × Nat) :=
    pieces.flatMap (fun (low, high) =>
      (if low < range.1 then [(low, min high (range.1 - 1))] else []) ++
        (if range.2 < high then [(max low (range.2 + 1), high)] else []))
  ranges.foldl cut [(0, lastCode)]

/-- What an escape stands for. -/
inductive Escape where
  | literal (c : Char)
  | ranges (rs : List (Nat × Nat))
  | place (p : Place)

def digitRanges : List (Nat × Nat) := [(48, 57)]

def spaceRanges : List (Nat × Nat) := [(9, 13), (32, 32)]

def letterClass? : Char → Option (List (Nat × Nat))
  | 'd' => some digitRanges
  | 's' => some spaceRanges
  | 'w' => some wordRanges
  | 'D' => some (complement digitRanges)
  | 'S' => some (complement spaceRanges)
  | 'W' => some (complement wordRanges)
  | _ => none

def hexValue? (c : Char) : Option Nat :=
  if c.isDigit then some (c.toNat - 48)
  else if 'a' ≤ c && c ≤ 'f' then some (c.toNat - 87)
  else if 'A' ≤ c && c ≤ 'F' then some (c.toNat - 55)
  else none

def ofHex? (digits : List Char) : Option Char := do
  if digits.isEmpty then none
  let code ← digits.foldlM (fun n c => (hexValue? c).map (fun d => min (n * 16 + d) (lastCode + 1))) 0
  if code < 0xD800 || (0xDFFF < code && code ≤ lastCode) then some (Char.ofNat code) else none

/-- A character by its code: in braces, or with a set number of digits. -/
def hexEscape (digits : Nat) : Step Escape
  | '\x7b' :: cs =>
    match Text.cut? ['\x7d'] cs with
    | some (code, rest) => (ofHex? code).map (fun c => (.literal c, rest))
    | none => none
  | cs => if cs.length < digits then none
    else (ofHex? (cs.take digits)).map (fun c => (.literal c, cs.drop digits))

def isEscapable (c : Char) : Bool :=
  c.toNat < 128 && !c.isAlphanum && c != '<' && c != '>'

/-- The edge of a word, in one of its special forms if one is named in braces. -/
def wordEdgeEscape : Step Escape
  | '\x7b' :: cs =>
    if !(cs.head?).any (fun c => c.isAlpha || c == '-') then some (.place .wordEdge, '\x7b' :: cs)
    else match Text.cut? ['\x7d'] cs with
      | none => none
      | some (name, rest) => match String.ofList name with
        | "start" => some (.place .wordStart, rest)
        | "end" => some (.place .wordEnd, rest)
        | "start-half" => some (.place .wordStartHalf, rest)
        | "end-half" => some (.place .wordEndHalf, rest)
        | _ => none
  | cs => some (.place .wordEdge, cs)

def escape : Step Escape
  | [] => none
  | c :: cs =>
    match letterClass? c with
    | some ranges => some (.ranges ranges, cs)
    | none =>
      if isEscapable c then some (.literal c, cs)
      else match c with
        | 'x' => hexEscape 2 cs
        | 'u' => hexEscape 4 cs
        | 'U' => hexEscape 8 cs
        | 'a' => some (.literal '\x07', cs)
        | 'f' => some (.literal '\x0c', cs)
        | 't' => some (.literal '\t', cs)
        | 'n' => some (.literal '\n', cs)
        | 'r' => some (.literal '\r', cs)
        | 'v' => some (.literal '\x0b', cs)
        | 'A' => some (.place .textStart, cs)
        | 'z' => some (.place .textEnd, cs)
        | 'b' => wordEdgeEscape cs
        | 'B' => some (.place .noWordEdge, cs)
        | '<' => some (.place .wordStart, cs)
        | '>' => some (.place .wordEnd, cs)
        | _ => none

def namedClass? : String → Option (List (Nat × Nat))
  | "alnum" => some [(48, 57), (65, 90), (97, 122)]
  | "alpha" => some [(65, 90), (97, 122)]
  | "ascii" => some [(0, 127)]
  | "blank" => some [(9, 9), (32, 32)]
  | "cntrl" => some [(0, 31), (127, 127)]
  | "digit" => some digitRanges
  | "graph" => some [(33, 126)]
  | "lower" => some [(97, 122)]
  | "print" => some [(32, 126)]
  | "punct" => some [(33, 47), (58, 64), (91, 96), (123, 126)]
  | "space" => some spaceRanges
  | "upper" => some [(65, 90)]
  | "word" => some wordRanges
  | "xdigit" => some [(48, 57), (65, 70), (97, 102)]
  | _ => none

def namedClass (cs : List Char) : Option (List (Nat × Nat) × List Char) := do
  let (name, rest) ← Text.cut? [':', ']'] cs
  match name with
  | '^' :: name => return (complement (← namedClass? (String.ofList name)), rest)
  | name => return (← namedClass? (String.ofList name), rest)

def classItem : Step Escape
  | [] => none
  | '\\' :: cs => escape cs
  | c :: cs => some (.literal c, cs)

def Escape.classRanges? : Escape → Option (List (Nat × Nat))
  | .literal c => some [(c.toNat, c.toNat)]
  | .ranges rs => some rs
  | .place _ => none

/-- An item inside brackets, or a range from one character to another. -/
def classRange (flags : Flags) (cs : List Char) : Option (List (Nat × Nat) × List Char) := do
  let (first, rest) ← classItem cs
  match flags.skip rest with
  | [] => none
  | '-' :: more =>
    match flags.skip more with
    | [] => none
    | ']' :: _ => return (← first.classRanges?, '-' :: more)
    | '-' :: _ => return (← first.classRanges?, '-' :: more)
    | more =>
      let (last, rest) ← classItem more
      match first, last with
      | .literal low, .literal high =>
        if low.toNat ≤ high.toNat then some ([(low.toNat, high.toNat)], rest) else none
      | _, _ => none
  | rest => return (← first.classRanges?, rest)

def classRest (flags : Flags) : Nat → List (Nat × Nat) → Step (List (Nat × Nat))
  | 0, _, _ => none
  | fuel + 1, found, cs =>
    match flags.skip cs with
    | [] => none
    | ']' :: rest => some (found, rest)
    | '[' :: ':' :: rest => do
      let (ranges, rest) ← namedClass rest
      classRest flags fuel (found ++ ranges) rest
    | '[' :: _ => none
    | '&' :: '&' :: _ => none
    | '-' :: '-' :: _ => none
    | '~' :: '~' :: _ => none
    | cs => do
      let (ranges, rest) ← classRange flags cs
      classRest flags fuel (found ++ ranges) rest

def leadingHyphens (flags : Flags) : Nat → List (Nat × Nat) → List Char → List (Nat × Nat) × List Char
  | 0, found, cs => (found, cs)
  | fuel + 1, found, cs =>
    match cs with
    | '-' :: rest => leadingHyphens flags fuel (found ++ [(45, 45)]) (flags.skip rest)
    | cs => (found, cs)

def bracketed (flags : Flags) (cs : List Char) : Option (Pattern × List Char) := do
  let cs := flags.skip cs
  let (negated, cs) := match cs with
    | '^' :: rest => (true, flags.skip rest)
    | cs => (false, cs)
  let (found, cs) := leadingHyphens flags cs.length [] cs
  let (found, cs) := match found, cs with
    | [], ']' :: rest => ([(93, 93)], flags.skip rest)
    | found, cs => (found, cs)
  let (ranges, rest) ← classRest flags (cs.length + 1) found cs
  return (char (if flags.ignoreCase then foldCase ranges else ranges) negated, rest)

def bound (flags : Flags) (cs : List Char) : Option (Nat × List Char) :=
  let cs := cs.dropWhile isSpace
  let digits := cs.takeWhile Char.isDigit
  let n := digits.foldl (fun n c => min (n * 10 + (c.toNat - 48)) (2 ^ 32)) 0
  if digits.isEmpty || 2 ^ 32 ≤ n then none
  else some (n, flags.skip ((cs.dropWhile Char.isDigit).dropWhile isSpace))

/-- A repetition in braces, behind the first one. -/
def counted (flags : Flags) (cs : List Char) : Option ((Nat × Option Nat) × List Char) := do
  let (least, cs) ← bound flags (flags.skip cs)
  let (most, cs) ← match cs with
    | ',' :: rest => match flags.skip rest with
      | '\x7d' :: rest => some (none, '\x7d' :: rest)
      | rest => (bound flags rest).map (fun (n, rest) => (some n, rest))
    | cs => some (some least, cs)
  match cs with
  | '\x7d' :: rest => if most.any (· < least) then none else some ((least, most), flags.skip rest)
  | _ => none

/-- The sign that asks for as little as possible makes no difference to whether a pattern matches. -/
def skipLazy : List Char → List Char
  | '?' :: rest => rest
  | cs => cs

def Flags.set (flags : Flags) (value : Bool) : Char → Option Flags
  | 'i' => some { flags with ignoreCase := value }
  | 'm' => some { flags with multiLine := value }
  | 's' => some { flags with dotMatchesAll := value }
  | 'R' => some { flags with carriageReturns := value }
  | 'x' => some { flags with spaced := value }
  | 'U' => some flags
  | 'u' => some flags
  | _ => none

def flagList (flags : Flags) (negated dangling : Bool) (seen : List Char) : Step Flags
  | [] => none
  | c :: cs =>
    if c == ':' || c == ')' then (if dangling then none else some (flags, c :: cs))
    else if c == '-' then
      if negated then none else flagList flags true true seen cs
    else if seen.contains c then none
    else match flags.set (!negated) c with
      | some flags => flagList flags negated false (c :: seen) cs
      | none => none

def isGroupName (name : List Char) : Bool :=
  (name.head?).any (fun c => c == '_' || c.isAlpha || 128 ≤ c.toNat) &&
    name.all (fun c => c == '_' || c == '.' || c == '[' || c == ']' || c.isAlphanum || 128 ≤ c.toNat)

def dot (flags : Flags) : Pattern :=
  if flags.dotMatchesAll then char [] true
  else if flags.carriageReturns then char [(10, 10), (13, 13)] true
  else char [(10, 10)] true

def lineStart (flags : Flags) : Pattern :=
  place (if !flags.multiLine then .textStart else if flags.carriageReturns then .returnStart
    else .lineStart)

def lineEnd (flags : Flags) : Pattern :=
  place (if !flags.multiLine then .textEnd else if flags.carriageReturns then .returnEnd else .lineEnd)

def Escape.toPattern (flags : Flags) : Escape → Pattern
  | .literal c => Pattern.literal flags c
  | .ranges rs => char rs false
  | .place p => Pattern.place p

/-- What a character that is no operator stands for. -/
def primitive (flags : Flags) : Step Pattern
  | [] => none
  | '\\' :: cs => (escape cs).map (fun (e, rest) => (e.toPattern flags, rest))
  | '.' :: cs => some (dot flags, cs)
  | '^' :: cs => some (lineStart flags, cs)
  | '$' :: cs => some (lineEnd flags, cs)
  | c :: cs => some (literal flags c, cs)

/-- How a group begins: its flags, and whether it has a body. `names` are those of other groups. -/
def groupStart (flags : Flags) (names : List (List Char)) (cs : List Char) :
    Option (Flags × Bool × List (List Char) × List Char) :=
  let named (cs : List Char) : Option (Flags × Bool × List (List Char) × List Char) := do
    let (name, rest) ← Text.cut? ['>'] cs
    if isGroupName name && !names.contains name then some (flags, true, name :: names, rest) else none
  match flags.skip cs with
  | '?' :: '=' :: _ => none
  | '?' :: '!' :: _ => none
  | '?' :: '<' :: '=' :: _ => none
  | '?' :: '<' :: '!' :: _ => none
  | '?' :: 'P' :: '<' :: rest => named rest
  | '?' :: '<' :: rest => named rest
  | '?' :: ')' :: _ => none
  | '?' :: rest =>
    match flagList flags false false [] rest with
    | some (flags, ':' :: rest) => some (flags, true, names, rest)
    | some (flags, _ :: rest) => some (flags, false, names, rest)
    | _ => none
  | rest => some (flags, true, names, rest)

def repeatLast (least : Nat) (most : Option Nat) : List Pattern → Option (List Pattern)
  | [] => none
  | last :: before => some (times last least most :: before)

/-- The alternatives of a group, closed by the one that is being read; both are given from the last part
on. -/
def close (done : List Pattern) (parts : List Pattern) : Pattern :=
  match (all parts.reverse :: done).reverse with
  | [one] => one
  | several => either several

/-- Reads alternatives up to the end of the group or text. `depth` is how deep groups may still be
nested, `done` and `parts` are the alternatives before and the parts of this one, the last first. -/
def alternatives (fuel depth : Nat) (flags : Flags) (names : List (List Char))
    (done parts : List Pattern) (cs : List Char) : Option (Pattern × List (List Char) × List Char) :=
  match fuel with
  | 0 => none
  | fuel + 1 =>
    match flags.skip cs with
    | [] => some (close done parts, names, [])
    | ')' :: rest => some (close done parts, names, ')' :: rest)
    | '|' :: rest => alternatives fuel depth flags names (all parts.reverse :: done) [] rest
    | '[' :: rest => do
      let (part, rest) ← bracketed flags rest
      alternatives fuel depth flags names done (part :: parts) rest
    | '?' :: rest => do
      alternatives fuel depth flags names done (← repeatLast 0 (some 1) parts) (skipLazy rest)
    | '*' :: rest => do
      alternatives fuel depth flags names done (← repeatLast 0 none parts) (skipLazy rest)
    | '+' :: rest => do
      alternatives fuel depth flags names done (← repeatLast 1 none parts) (skipLazy rest)
    | '\x7b' :: rest => do
      let ((least, most), rest) ← counted flags rest
      alternatives fuel depth flags names done (← repeatLast least most parts) (skipLazy rest)
    | '(' :: rest => do
      let (inner, hasBody, names, rest) ← groupStart flags names rest
      if !hasBody then alternatives fuel depth inner names done parts rest
      else match depth with
        | 0 => none
        | depth + 1 =>
          let (part, names, rest) ← alternatives fuel depth inner names [] [] rest
          match rest with
          | ')' :: rest => alternatives fuel (depth + 1) flags names done (part :: parts) rest
          | _ => none
    | cs => do
      let (part, rest) ← primitive flags cs
      alternatives fuel depth flags names done (part :: parts) rest

def read? (text : String) : Option Pattern := do
  let cs := text.toList
  let (pattern, _, rest) ← alternatives (cs.length + 1) (groupLimit - 1) Flags.none [] [] [] cs
  if rest.isEmpty && pattern.size ≤ sizeLimit then some pattern else none

end FlowEngine.Pattern
