import FlowEngine.Yaml.Scalar

/-!
# Text over several lines

How scalars of each style are gathered from their lines: line ends between words become spaces,
blank lines become line ends, and a block keeps or folds its lines as its header says.
-/
namespace FlowEngine.Yaml

def isSpace (c : Char) : Bool := c == ' ' || c == '\t'

def isGap (c : Char) : Bool := isSpace c || c == '\n'

def isFlowMark (c : Char) : Bool := c ∈ [',', '[', ']', '\x7b', '\x7d']

def standsAlone (behind : List Char) : Bool := behind.head?.all isGap

def isMarker : List Char → Bool
  | '-' :: '-' :: '-' :: cs => standsAlone cs
  | '.' :: '.' :: '.' :: cs => standsAlone cs
  | _ => false

/-- What stands between two tokens: whether a line ended, the column behind it, and the rest. -/
structure Gap where
  crossed : Bool
  column : Nat
  rest : List Char

/-- Passes over blanks, line ends and comments. Tabs do not count as indentation, except in brackets. -/
def gapFrom (brackets : Bool) (comment crossed : Bool) (column : Nat) : List Char → Gap
  | [] => ⟨crossed, column, []⟩
  | c :: cs =>
    if c == '\n' then gapFrom brackets false true 0 cs
    else if comment then gapFrom brackets true crossed (column + 1) cs
    else if c == ' ' || (c == '\t' && (brackets || !crossed)) then
      gapFrom brackets false crossed (column + 1) cs
    else if c == '#' then gapFrom brackets true crossed (column + 1) cs
    else ⟨crossed, column, c :: cs⟩

def dropTrailing (cs : List Char) : List Char := (cs.reverse.dropWhile isSpace).reverse

/-- The part of a line that belongs to a plain scalar, with the blanks behind it. -/
def plainLine (brackets afterBlank : Bool) : List Char → List Char
  | [] => []
  | c :: cs =>
    if c == '\n' || (c == '#' && afterBlank) || (c == ':' && standsAlone cs) ||
        (brackets && (isFlowMark c || (c == ':' && cs.head?.any (fun d => isFlowMark d || d == '?')))) then
      []
    else c :: plainLine brackets (isSpace c) cs

def joint (breaks : Nat) : List Char :=
  if breaks == 1 then [' '] else List.replicate (breaks - 1) '\n'

/-- Passes over blank lines: how many line ends, the column, and the rest. -/
def blankLines (breaks column : Nat) : List Char → Nat × Nat × List Char
  | [] => (breaks, column, [])
  | c :: cs =>
    if c == '\n' then blankLines (breaks + 1) 0 cs
    else if isSpace c then blankLines breaks (column + 1) cs
    else (breaks, column, c :: cs)

/-- The text of a plain scalar, reversed in `done`, and the rest. A line belongs to it from the column
`floor` on, and in brackets from any column. -/
def plainText (brackets : Bool) (floor : Nat) : Nat → List Char → List Char → String × List Char
  | 0, done, cs => (String.ofList done.reverse, cs)
  | fuel + 1, done, cs =>
    let piece := dropTrailing (plainLine brackets false cs)
    let done := piece.reverse ++ done
    let rest := cs.drop piece.length
    let (breaks, column, next) := blankLines 0 0 rest
    let ends := breaks == 0 || (!brackets && column < floor) || (column == 0 && isMarker next) ||
      next.head? == some '#' || (dropTrailing (plainLine brackets false next)).isEmpty
    if ends then (String.ofList done.reverse, rest)
    else plainText brackets floor fuel ((joint breaks).reverse ++ done) next

/-- The text behind an opening single quote; a quote inside is written twice. -/
def singleQuoted : Nat → List Char → List Char → Option (List Char × List Char)
  | 0, _, _ => none
  | fuel + 1, done, cs =>
    match cs with
    | [] => none
    | '\'' :: '\'' :: rest => singleQuoted fuel ('\'' :: done) rest
    | '\'' :: rest => some (done.reverse, rest)
    | '\n' :: rest =>
      let (breaks, column, next) := blankLines 1 0 rest
      if column == 0 && isMarker next then none
      else singleQuoted fuel ((joint breaks).reverse ++ done.dropWhile isSpace) next
    | c :: rest => singleQuoted fuel (c :: done) rest

def codePoint? (digits : Nat) (cs : List Char) : Option (Char × List Char) :=
  if cs.length < digits then none
  else (natural? 16 (cs.take digits)).bind (fun n =>
    if n < 0xD800 || (0xE000 ≤ n && n < 0x110000) then some (Char.ofNat n, cs.drop digits) else none)

def escape? : List Char → Option (Char × List Char)
  | 'x' :: cs => codePoint? 2 cs
  | 'u' :: cs => codePoint? 4 cs
  | 'U' :: cs => codePoint? 8 cs
  | c :: cs => (match c with
    | '0' => some '\x00'
    | 'a' => some '\x07'
    | 'b' => some '\x08'
    | 't' => some '\t'
    | '\t' => some '\t'
    | 'n' => some '\n'
    | 'v' => some '\x0b'
    | 'f' => some '\x0c'
    | 'r' => some '\r'
    | 'e' => some '\x1b'
    | ' ' => some ' '
    | '"' => some '"'
    | '/' => some '/'
    | '\\' => some '\\'
    | 'N' => some '\u0085'
    | '_' => some '\u00a0'
    | 'L' => some '\u2028'
    | 'P' => some '\u2029'
    | _ => none).map (·, cs)
  | [] => none

/-- The text behind an opening double quote. Blanks before a line's end are dropped unless they are
escaped. -/
def doubleQuoted : Nat → List Char → List Char → Option (List Char × List Char)
  | 0, _, _ => none
  | fuel + 1, done, cs =>
    match cs with
    | [] => none
    | '"' :: rest => some (done.reverse, rest)
    | '\\' :: '\n' :: rest =>
      let (breaks, column, next) := blankLines 0 0 rest
      if column == 0 && isMarker next then none
      else doubleQuoted fuel (List.replicate breaks '\n' ++ done) next
    | '\\' :: rest =>
      match escape? rest with
      | some (c, rest) => doubleQuoted fuel (c :: done) rest
      | none => none
    | '\n' :: rest =>
      let (breaks, column, next) := blankLines 1 0 rest
      if column == 0 && isMarker next then none
      else doubleQuoted fuel ((joint breaks).reverse ++ done) next
    | c :: rest =>
      if isSpace c then
        let blanks := (c :: rest).takeWhile isSpace
        let next := (c :: rest).dropWhile isSpace
        if next.head? == some '\n' then doubleQuoted fuel done next
        else doubleQuoted fuel (blanks.reverse ++ done) next
      else doubleQuoted fuel (c :: done) rest

def quotedText? (quote : Char) (cs : List Char) : Option (List Char × List Char) :=
  if quote == '"' then doubleQuoted (cs.length + 1) [] cs else singleQuoted (cs.length + 1) [] cs

/-- What becomes of the line ends at the end of a block of text. -/
inductive Chomp where
  | strip
  | clip
  | keep
deriving DecidableEq, Repr

structure BlockHeader where
  folded : Bool
  chomp : Chomp
  /-- The indentation against that of the parent, where it is given. -/
  indent : Option Nat

/-- The header of a block of text from its mark on, and the lines below. -/
def blockHeader? (folded : Bool) (cs : List Char) : Option (BlockHeader × List Char) :=
  let chomp? (c : Char) : Option Chomp :=
    if c == '+' then some .keep else if c == '-' then some .strip else none
  let indent? (c : Char) : Option Nat :=
    if c.isDigit && c != '0' then some (c.toNat - '0'.toNat) else none
  let (chomp, indent, rest) : Option Chomp × Option Nat × List Char :=
    match cs with
    | c :: d :: rest =>
      match chomp? c, indent? c with
      | some p, _ => match indent? d with
        | some n => (some p, some n, rest)
        | none => (some p, none, d :: rest)
      | _, some n => match chomp? d with
        | some p => (some p, some n, rest)
        | none => (none, some n, d :: rest)
      | none, none => (none, none, cs)
    | [c] => (chomp? c, indent? c, if (chomp? c).isSome || (indent? c).isSome then [] else cs)
    | [] => (none, none, [])
  let behind := rest.dropWhile isSpace
  let header : BlockHeader := ⟨folded, chomp.getD .clip, indent⟩
  match behind with
  | [] => some (header, [])
  | '\n' :: below => some (header, below)
  | '#' :: comment => some (header, (comment.dropWhile (· != '\n')).drop 1)
  | _ => none

def dropSpaces : Nat → List Char → Nat × List Char
  | n + 1, ' ' :: cs =>
    let (taken, rest) := dropSpaces n cs
    (taken + 1, rest)
  | _, cs => (0, cs)

/-- The indentation of the first line that is not blank; longer blank lines count too. -/
def firstIndent (longest column : Nat) : List Char → Nat
  | [] => max longest column
  | ' ' :: cs => firstIndent longest (column + 1) cs
  | '\n' :: cs => firstIndent (max longest column) 0 cs
  | _ => max longest column

/-- Passes over lines of nothing but indentation: how many, and the rest behind the indentation of the
next line, with how much of it there is. -/
def blockBreaks (indent : Nat) : Nat → Nat → List Char → Nat × Nat × List Char
  | 0, breaks, cs => (breaks, 0, cs)
  | fuel + 1, breaks, cs =>
    let (taken, rest) := dropSpaces indent cs
    match rest with
    | '\n' :: below => blockBreaks indent fuel (breaks + 1) below
    | _ => (breaks, taken, rest)

/-- The lines of a block of text. `done` is the text so far, reversed; `lineEnd` says whether a line end
is due, `breaks` how many blank lines came behind it, and `indented` whether the last line began with a
blank. -/
def blockLines (header : BlockHeader) (indent : Nat) (fuel : Nat) (done : List Char)
    (lineEnd : Bool) (breaks : Nat) (indented : Bool) (taken : Nat) (cs : List Char) :
    List Char × List Char :=
  let finish : List Char :=
    let due := if header.chomp != .strip && lineEnd then '\n' :: done else done
    if header.chomp == .keep then List.replicate breaks '\n' ++ due else due
  match fuel with
  | 0 => (finish, cs)
  | fuel + 1 =>
    if taken < indent || cs.isEmpty then (finish, List.replicate taken ' ' ++ cs)
    else
      let startsBlank := cs.head?.any isSpace
      let joined :=
        if header.folded && lineEnd && !indented && !startsBlank then
          if breaks == 0 then ' ' :: done else done
        else if lineEnd then '\n' :: done else done
      let joined := List.replicate breaks '\n' ++ joined
      let line := cs.takeWhile (· != '\n')
      let rest := cs.dropWhile (· != '\n')
      let (more, taken, next) := blockBreaks indent (rest.length + 1) 0 (rest.drop 1)
      blockLines header indent fuel (line.reverse ++ joined) (!rest.isEmpty) more startsBlank taken next

/-- The text of a block from behind its mark, whose lines stand at the column `floor` or deeper. -/
def blockText? (folded : Bool) (floor : Nat) (cs : List Char) : Option (String × List Char) :=
  (blockHeader? folded cs).map (fun (header, below) =>
    let indent := match header.indent with
      | some n => (floor - 1) + n
      | none => max (max (firstIndent 0 0 below) floor) 1
    let (breaks, taken, rest) := blockBreaks indent (below.length + 1) 0 below
    let (done, rest) := blockLines header indent (below.length + 1) [] false breaks false taken rest
    (String.ofList done.reverse, '\n' :: rest))

end FlowEngine.Yaml
