/-!
# Searching text

Places of a pattern in a text, and splitting and replacing at them. Matches are taken from the left
and do not overlap. The empty pattern matches before every character and at the end.
-/
namespace FlowEngine.Text

def afterStart? : List Char → List Char → Option (List Char)
  | [], cs => some cs
  | _ :: _, [] => none
  | p :: ps, c :: cs => if p == c then afterStart? ps cs else none

def startsWith (pattern cs : List Char) : Bool := (afterStart? pattern cs).isSome

def endsWith (pattern cs : List Char) : Bool := startsWith pattern.reverse cs.reverse

def indexOf? (pattern : List Char) : List Char → Option Nat
  | [] => if pattern.isEmpty then some 0 else none
  | c :: cs => if startsWith pattern (c :: cs) then some 0 else (indexOf? pattern cs).map (· + 1)

def cut? (pattern cs : List Char) : Option (List Char × List Char) :=
  (indexOf? pattern cs).map (fun n => (cs.take n, cs.drop (n + pattern.length)))

def contains (text pattern : String) : Bool := (indexOf? pattern.toList text.toList).isSome

/-- The pieces between the matches of a non-empty pattern; `skip` characters belong to the last match
and `piece` holds the current piece, reversed. -/
def piecesFrom (pattern : List Char) (skip : Nat) (piece : List Char) : List Char → List (List Char)
  | [] => [piece.reverse]
  | c :: cs =>
    match skip with
    | skip + 1 => piecesFrom pattern skip piece cs
    | 0 =>
      if startsWith pattern (c :: cs) then
        piece.reverse :: piecesFrom pattern (pattern.length - 1) [] cs
      else piecesFrom pattern 0 (c :: piece) cs

def splitOn (text pattern : String) : List String :=
  if pattern.isEmpty then "" :: (text.toList.map (fun c => String.ofList [c]) ++ [""])
  else (piecesFrom pattern.toList 0 [] text.toList).map String.ofList

/-- Puts characters in the place of every match of a non-empty pattern; `skip` characters belong to
the last match. -/
def substitute (pattern replacement : List Char) (skip : Nat) : List Char → List Char
  | [] => []
  | c :: cs =>
    match skip with
    | skip + 1 => substitute pattern replacement skip cs
    | 0 =>
      if startsWith pattern (c :: cs) then
        replacement ++ substitute pattern replacement (pattern.length - 1) cs
      else c :: substitute pattern replacement 0 cs

def replaceAll (text pattern replacement : String) : String :=
  if pattern.isEmpty then
    String.ofList (replacement.toList ++ text.toList.flatMap (fun c => c :: replacement.toList))
  else String.ofList (substitute pattern.toList replacement.toList 0 text.toList)

def replaceFirst (text pattern replacement : String) : String :=
  match cut? pattern.toList text.toList with
  | some (before, behind) => String.ofList (before ++ replacement.toList ++ behind)
  | none => text

def splitAtChar (d : Char) : List Char → List (List Char)
  | [] => [[]]
  | c :: cs =>
    if c == d then [] :: splitAtChar d cs
    else match splitAtChar d cs with
      | piece :: rest => (c :: piece) :: rest
      | [] => [[c]]

def pathSegments (path : String) : List String := (splitAtChar '.' path.toList).map String.ofList

/-- The lines of a text without their ends; a carriage return before a line end belongs to it. -/
def lines (text : String) : List String :=
  let pieces := piecesFrom ['\n'] 0 [] text.toList
  let pieces := if pieces.getLast? == some [] then pieces.dropLast else pieces
  pieces.map (fun cs => String.ofList (if cs.getLast? == some '\r' then cs.dropLast else cs))

end FlowEngine.Text
