import FlowEngine.Yaml.Text

/-!
# Reading YAML

The block and bracket forms of YAML, with plain and quoted scalars and blocks of text; anchors, tags,
directives and keys that are not scalars are refused. The document ends in a broken place where the
text stops being YAML.
-/
namespace FlowEngine.Yaml

def stop : Document × List Char := (.broken, [])

def blank : Document := plain ""

def isDash : List Char → Bool
  | '-' :: cs => standsAlone cs
  | _ => false

def startsPlain (brackets : Bool) : List Char → Bool
  | [] => false
  | c :: cs =>
    if c == '-' then cs.head?.any (fun d => !isSpace d)
    else if c == '?' || c == ':' then !brackets && !standsAlone cs
    else !isGap c && !isFlowMark c && c ∉ ['#', '&', '*', '!', '|', '>', '\'', '"', '%', '@', '\x60']

def afterColon? (brackets : Bool) (cs : List Char) : Option (List Char) :=
  match cs.dropWhile isSpace with
  | ':' :: rest => if brackets || standsAlone rest then some rest else none
  | _ => none

/-- A key on one line, with what stands behind its colon. -/
def key? (cs : List Char) : Option (String × List Char) :=
  match cs with
  | [] => none
  | c :: rest =>
    if c == '"' || c == '\'' then
      match quotedText? c rest with
      | some (name, behind) =>
        if (rest.take (rest.length - behind.length)).contains '\n' then none
        else (afterColon? false behind).map (String.ofList name, ·)
      | none => none
    else if startsPlain false cs then
      let name := dropTrailing (plainLine false false cs)
      (afterColon? false (cs.drop name.length)).map (String.ofList name, ·)
    else none

def isOver (gap : Gap) : Bool := gap.rest.isEmpty || (gap.column == 0 && isMarker gap.rest)

mutual
/-- A value in brackets, from its first character on. -/
def inBrackets (fuel : Nat) (cs : List Char) : Document × List Char :=
  match fuel with
  | 0 => stop
  | fuel + 1 =>
    match cs with
    | [] => stop
    | '[' :: rest =>
      let (items, rest) := bracketItems fuel rest
      (.list items, rest)
    | '\x7b' :: rest =>
      let (fields, rest) := bracketFields fuel rest
      (.table fields, rest)
    | c :: rest =>
      if c == '"' || c == '\'' then
        match quotedText? c rest with
        | some (text, rest) => (quoted (String.ofList text), rest)
        | none => stop
      else if startsPlain true cs then
        let (text, rest) := plainText true 0 (cs.length + 1) [] cs
        match rest with
        | ':' :: d :: _ => if isGap d then (plain text, rest) else stop
        | _ => (plain text, rest)
      else stop

/-- The items of a list in brackets. An item with a colon behind it is a table of one field. -/
def bracketItems (fuel : Nat) (cs : List Char) : List Document × List Char :=
  match fuel with
  | 0 => ([.broken], [])
  | fuel + 1 =>
    match (gapFrom true false false 0 cs).rest with
    | ']' :: rest => ([], rest)
    | start =>
      let (item, rest) := inBrackets fuel start
      let (item, rest) := match afterColon? true (gapFrom true false false 0 rest).rest, item with
        | some behind, .scalar _ (some name) =>
          let (value, rest) := bracketValue fuel behind
          (Document.table [(name, value)], rest)
        | some _, _ => stop
        | none, _ => (item, rest)
      match (gapFrom true false false 0 rest).rest with
      | ',' :: rest =>
        let (items, rest) := bracketItems fuel rest
        (item :: items, rest)
      | ']' :: rest => ([item], rest)
      | _ => ([item, .broken], [])

def bracketFields (fuel : Nat) (cs : List Char) : List (String × Document) × List Char :=
  match fuel with
  | 0 => ([("", .broken)], [])
  | fuel + 1 =>
    match (gapFrom true false false 0 cs).rest with
    | '\x7d' :: rest => ([], rest)
    | start =>
      let (name, rest) := if start.head? == some ':' then (blank, start) else inBrackets fuel start
      match name with
      | .scalar _ (some name) =>
        let behind := (gapFrom true false false 0 rest).rest
        let (value, rest) := match behind with
          | ':' :: behind => bracketValue fuel behind
          | _ => (blank, behind)
        match (gapFrom true false false 0 rest).rest with
        | ',' :: rest =>
          let (fields, rest) := bracketFields fuel rest
          ((name, value) :: fields, rest)
        | '\x7d' :: rest => ([(name, value)], rest)
        | _ => ([(name, value), ("", .broken)], [])
      | _ => ([("", .broken)], [])

/-- The value behind a colon in brackets, which may be left out. -/
def bracketValue (fuel : Nat) (cs : List Char) : Document × List Char :=
  match fuel with
  | 0 => stop
  | fuel + 1 =>
    let start := (gapFrom true false false 0 cs).rest
    if start.head?.any (fun c => c == ',' || c == ']' || c == '\x7d') then (blank, start)
    else inBrackets fuel start
end

/-- A scalar, or a value in brackets, from its first character on. Its lines stand at the column `floor`
or deeper. -/
def leaf (floor : Nat) (cs : List Char) : Document × List Char :=
  match cs with
  | [] => stop
  | c :: rest =>
    if c == '[' || c == '\x7b' then inBrackets (2 * cs.length + 2) cs
    else if c == '"' || c == '\'' then
      match quotedText? c rest with
      | some (text, rest) => (quoted (String.ofList text), rest)
      | none => stop
    else if c == '|' || c == '>' then
      match blockText? (c == '>') floor rest with
      | some (text, rest) => (quoted text, rest)
      | none => stop
    else if startsPlain false cs then
      let (text, rest) := plainText false floor (cs.length + 1) [] cs
      (plain text, rest)
    else stop

mutual
/-- A value whose lines stand at the column `floor` or deeper. `fresh` says that a list or a table may
start on this line; one on the next lines always may. -/
def value (fuel floor column : Nat) (fresh : Bool) (cs : List Char) : Document × List Char :=
  match fuel with
  | 0 => stop
  | fuel + 1 =>
    let gap := gapFrom false false fresh column cs
    let fresh := fresh || gap.crossed
    if isOver gap || (gap.crossed && gap.column < floor) then (blank, cs)
    else if isDash gap.rest then
      if fresh then
        let (items, rest) := items fuel gap.column false gap.rest
        (.list items, rest)
      else stop
    else if fresh && (key? gap.rest).isSome then
      let (fields, rest) := fields fuel gap.column gap.rest
      (.table fields, rest)
    else leaf floor gap.rest

/-- The items of a list whose dashes stand in a column. A list right below a key may stand in the same
column as the key. -/
def items (fuel column : Nat) (belowKey : Bool) (cs : List Char) : List Document × List Char :=
  match fuel with
  | 0 => ([.broken], [])
  | fuel + 1 =>
    let (item, rest) := value fuel (column + 1) (column + 1) true (cs.drop 1)
    let gap := gapFrom false false false 0 rest
    if isOver gap then ([item], rest)
    else if !gap.crossed || gap.column > column then ([item, .broken], [])
    else if gap.column < column then ([item], rest)
    else if isDash gap.rest then
      let (more, rest) := items fuel column belowKey gap.rest
      (item :: more, rest)
    else if belowKey then ([item], rest)
    else ([item, .broken], [])

def fields (fuel column : Nat) (cs : List Char) : List (String × Document) × List Char :=
  match fuel with
  | 0 => ([("", .broken)], [])
  | fuel + 1 =>
    match key? cs with
    | none => ([("", .broken)], [])
    | some (name, behind) =>
      let below := gapFrom false false false (column + 1) behind
      let (entry, rest) :=
        if below.crossed && below.column == column && isDash below.rest && !isOver below then
          let (entries, rest) := items fuel column true below.rest
          (Document.list entries, rest)
        else value fuel (column + 1) (column + 1) false behind
      let gap := gapFrom false false false 0 rest
      if isOver gap then ([(name, entry)], rest)
      else if !gap.crossed || gap.column > column then ([(name, entry), ("", .broken)], [])
      else if gap.column < column then ([(name, entry)], rest)
      else
        let (more, rest) := fields fuel column gap.rest
        ((name, entry) :: more, rest)
end

def isAllowed (c : Char) : Bool :=
  let n := c.toNat
  n == 9 || n == 10 || (0x20 ≤ n && n ≤ 0x7E) || n == 0x85 || (0xA0 ≤ n && n ≤ 0xFFFD && n != 0xFEFF) ||
    0x10000 ≤ n

def unifyLines : List Char → List Char
  | '\r' :: '\n' :: cs => '\n' :: unifyLines cs
  | '\r' :: cs => '\n' :: unifyLines cs
  | '\u0085' :: cs => '\n' :: unifyLines cs
  | c :: cs => c :: unifyLines cs
  | [] => []

/-- The text without the mark that may stand in front of it. -/
def withoutMark : List Char → List Char
  | '\ufeff' :: cs => cs
  | cs => cs

def afterStart? (cs : List Char) : Option (List Char) :=
  match cs with
  | '-' :: '-' :: '-' :: rest => if standsAlone rest then some rest else none
  | _ => none

def afterEnds (fuel : Nat) (cs : List Char) : List Char :=
  match fuel with
  | 0 => cs
  | fuel + 1 =>
    match (gapFrom false false true 0 cs).rest with
    | '.' :: '.' :: '.' :: rest => if standsAlone rest then afterEnds fuel rest else cs
    | rest => rest

/-- The first document of a text, if there is one, and whether nothing stands behind it. -/
def readDocument (text : String) : Option (Document × Bool) :=
  let cs := unifyLines (withoutMark text.toList)
  if !cs.all isAllowed then some (.broken, false)
  else
    let fuel := 3 * cs.length + 3
    let start := gapFrom false false true 0 cs
    let (d, rest) := match afterStart? start.rest with
      | some body => if start.column == 0 then value fuel 0 3 false body else stop
      | none => value fuel 0 start.column true start.rest
    if start.rest.isEmpty then none
    else
      let gap := gapFrom false false false 0 rest
      some (d, gap.rest.isEmpty || (isOver gap && (afterEnds cs.length gap.rest).isEmpty))

end FlowEngine.Yaml
