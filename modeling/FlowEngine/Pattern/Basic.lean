/-!
# Patterns

Regular patterns over text. `Pattern.ends` says where matches end that begin at one of some places;
places are numbers of characters from the start of the text, in no order and each once.
-/
namespace FlowEngine

/-- A condition on the place between two characters. -/
inductive Place where
  | textStart
  | textEnd
  | lineStart
  | lineEnd
  /-- Like `lineStart`, where a carriage return ends lines too. -/
  | returnStart
  | returnEnd
  | wordEdge
  | noWordEdge
  | wordStart
  | wordEnd
  /-- No word character stands before. -/
  | wordStartHalf
  | wordEndHalf
deriving DecidableEq, Repr

inductive Pattern where
  /-- A character with its code in one of the ranges, or in none of them. -/
  | char (ranges : List (Nat × Nat)) (negated : Bool)
  | place (p : Place)
  /-- One after another. -/
  | all (parts : List Pattern)
  | either (parts : List Pattern)
  /-- At least and at most so many times. -/
  | times (part : Pattern) (least : Nat) (most : Option Nat)

namespace Pattern

def wordRanges : List (Nat × Nat) := [(48, 57), (65, 90), (95, 95), (97, 122)]

def inRanges (ranges : List (Nat × Nat)) (c : Char) : Bool :=
  ranges.any (fun range => range.1 ≤ c.toNat && c.toNat ≤ range.2)

def isWord (c : Option Char) : Bool := c.any (inRanges wordRanges)

def holdsBetween (before after : Option Char) : Place → Bool
  | .textStart => before.isNone
  | .textEnd => after.isNone
  | .lineStart => before.isNone || before == some '\n'
  | .lineEnd => after.isNone || after == some '\n'
  | .returnStart => before.isNone || before == some '\n' || (before == some '\r' && after != some '\n')
  | .returnEnd => after.isNone || after == some '\r' || (after == some '\n' && before != some '\r')
  | .wordEdge => isWord before != isWord after
  | .noWordEdge => isWord before == isWord after
  | .wordStart => !isWord before && isWord after
  | .wordEnd => isWord before && !isWord after
  | .wordStartHalf => !isWord before
  | .wordEndHalf => !isWord after

def merge (xs ys : List Nat) : List Nat := xs ++ ys.filter (fun y => !xs.contains y)

/-- Everything that can be reached by steps beyond the places that are known. -/
def closure (step : List Nat → List Nat) : Nat → List Nat → List Nat → List Nat
  | 0, known, _ => known
  | fuel + 1, known, frontier =>
    let fresh := (step frontier).filter (fun place => !known.contains place)
    if fresh.isEmpty then known else closure step fuel (known ++ fresh) fresh

def stepTimes (step : List Nat → List Nat) : Nat → List Nat → List Nat
  | 0, places => places
  | n + 1, places => if places.isEmpty then [] else stepTimes step n (step places)

/-- The places that at most so many steps lead to. -/
def reachWithin (step : List Nat → List Nat) : Nat → List Nat → List Nat
  | 0, places => places
  | n + 1, places => if places.isEmpty then [] else merge places (reachWithin step n (step places))

mutual
def ends (text : Array Char) : Pattern → List Nat → List Nat
  | char ranges negated, places =>
    (places.filter (fun i => (text[i]?).any (fun c => inRanges ranges c != negated))).map (· + 1)
  | place p, places =>
    places.filter (fun i => holdsBetween (if i == 0 then none else text[i - 1]?) text[i]? p)
  | all parts, places => endsAll text parts places
  | either parts, places => endsEither text parts places
  | times part least most, places =>
    let step (places : List Nat) : List Nat := ends text part places
    let start := stepTimes step least places
    match most with
    | none => closure step (text.size + 1) start start
    | some most => reachWithin step (most - least) start

def endsAll (text : Array Char) : List Pattern → List Nat → List Nat
  | [], places => places
  | part :: rest, places => endsAll text rest (ends text part places)

def endsEither (text : Array Char) : List Pattern → List Nat → List Nat
  | [], _ => []
  | part :: rest, places => merge (ends text part places) (endsEither text rest places)
end

def isIn (pattern : Pattern) (text : String) : Bool :=
  let text := text.toList.toArray
  !(pattern.ends text (List.range (text.size + 1))).isEmpty

mutual
def size : Pattern → Nat
  | char _ _ => 1
  | place _ => 1
  | all parts => sizes parts
  | either parts => sizes parts + 2
  | times part least most => size part * max 1 (most.getD least) + 1

def sizes : List Pattern → Nat
  | [] => 1
  | part :: rest => size part + sizes rest
end

end Pattern
end FlowEngine
