import FlowEngine.Expr.Helper.Basic
import FlowEngine.Text.CaseMap

/-!
# Helpers for text
-/
namespace FlowEngine.Helper

def maxRepeat : Float := 10000.0

def fillTo (n : Nat) (filling : List Char) : List Char :=
  ((List.replicate n filling).flatten).take n

def pad (function : String) (atStart : Bool) : Helper := fun args => do
  let text := textArg args 0
  let width := Binary64.toNat (Binary64.clamp 0.0 maxRepeat (← numberArg function args 1))
  let filling := match arg args 2 with
    | .null => " "
    | value => value.display
  if width ≤ text.length || filling.isEmpty then return .str text
  let more := String.ofList (fillTo (width - text.length) filling.toList)
  return .str (if atStart then more ++ text else text ++ more)

/-- The pieces of a text between separators; an empty separator gives its characters. -/
def split (args : List Json) : Json :=
  let text := textArg args 0
  match arg args 1 with
  | .null => .arr [.str text]
  | separator =>
    let separator := separator.display
    if separator.isEmpty then .ofStrings (text.toList.map (fun c => String.ofList [c]))
    else .ofStrings (Text.splitOn text separator)

/-- The part of a text between two bounds, of which negative ones count as zero. -/
def substring : Helper := fun args => do
  let start := (← numberArg? "substring" args 1).map (Binary64.max? 0.0)
  let stop := (← numberArg? "substring" args 2).map (Binary64.max? 0.0)
  return .str (String.ofList (← slice (textArg args 0).toList start stop))

/-- Whether an array has an equal item, an object a field of the name, or a text the part. -/
def includes (haystack needle : Json) : Bool :=
  match haystack with
  | .arr items => items.any (·.strictEq needle)
  | .obj fields => match needle with
    | .str key => Keyed.has fields key
    | _ => false
  | .null => false
  | value => Text.contains value.display needle.display

def byteLength (cs : List Char) : Nat := cs.foldr (fun c n => c.utf8Size + n) 0

/-- The characters before a byte, which has to be the first one of a character or the end. -/
def cut : List Char → Nat → Except EvalError (List Char)
  | _, 0 => .ok []
  | [], byte + 1 => .error (.broken (.cut (byte + 1)))
  | c :: cs, byte + 1 =>
    if byte + 1 < c.utf8Size then .error (.broken (.cut (byte + 1)))
    else (cut cs (byte + 1 - c.utf8Size)).map (c :: ·)

def findByte? (text part : List Char) : Option Nat :=
  (Text.indexOf? part text).map (fun place => byteLength (text.take place))

/-- The place of the first equal item, or of a part of a text; -1 if there is none. -/
def indexOf (haystack needle : Json) : Outcome := do
  match haystack with
  | .arr items =>
    let place := items.findIdx? (fun item => Json.strictEq item needle)
    return .ofInt ((place.map Int.ofNat).getD (-1))
  | value =>
    let text := value.display.toList
    match findByte? text needle.display.toList with
    | some byte => return .ofNat (← cut text byte).length
    | none => return .ofInt (-1)

def repeated : Helper := fun args => do
  let n := Binary64.toNat (Binary64.clamp 0.0 maxRepeat (← numberArg "repeat" args 1))
  return .str (String.join (List.replicate n (textArg args 0)))

def onText (f : String → String) : Helper := fun args => .ok (.str (f (textArg args 0)))

def text? : String → Option Helper
  | "upper" => some (onText Text.upper)
  | "lower" => some (onText Text.lower)
  | "trim" => some (onText Text.trim)
  | "trimStart" => some (onText Text.trimStart)
  | "trimEnd" => some (onText Text.trimEnd)
  | "capitalize" => some (onText Text.capitalize)
  | "padStart" => some (pad "padStart" true)
  | "padEnd" => some (pad "padEnd" false)
  | "replace" => some fun args =>
    .ok (.str (Text.replaceAll (textArg args 0) (textArg args 1) (textArg args 2)))
  | "replaceFirst" => some fun args =>
    .ok (.str (Text.replaceFirst (textArg args 0) (textArg args 1) (textArg args 2)))
  | "split" => some fun args => .ok (split args)
  | "substring" => some substring
  | "startsWith" => some fun args =>
    .ok (.bool (Text.startsWith (textArg args 1).toList (textArg args 0).toList))
  | "endsWith" => some fun args =>
    .ok (.bool (Text.endsWith (textArg args 1).toList (textArg args 0).toList))
  | "includes" => some fun args => .ok (.bool (includes (arg args 0) (arg args 1)))
  | "contains" => some fun args => .ok (.bool (includes (arg args 0) (arg args 1)))
  | "indexOf" => some fun args => indexOf (arg args 0) (arg args 1)
  | "repeat" => some repeated
  | _ => none

end FlowEngine.Helper
