import FlowEngine.Expr.Helper.Basic
import FlowEngine.Text.CaseMap

/-!
# Helpers for conditions and conversions
-/
namespace FlowEngine.Helper

/-- The result beside the first case that equals the subject, else a default at the end, else null. -/
def pickCase (subject : Json) (rest : List Json) : Outcome := do
  if 2 ≤ rest.length then
    if subject.strictEq (← itemAt rest 0) then itemAt rest 1
    else match _hmore : part rest 2 rest.length with
      | .ok more => pickCase subject more
      | .error e => .error e
  else .ok (rest.headD .null)
termination_by rest.length
decreasing_by
  unfold part at _hmore
  split at _hmore
  · cases _hmore
    rw [List.length_drop, List.length_take]
    omega
  · cases _hmore

def switch : Helper := fun args => do
  pickCase (arg args 0) (← part args (min args.length 1) args.length)

/-- Whether a value counts as true, where a few words count as false. -/
def toBoolean : Json → Bool
  | .str s => !(["", "false", "0", "no", "off"].contains (Text.lowerAscii (Text.trim s)))
  | value => value.truthy

def isNumeric : Json → Bool
  | .num _ => true
  | .str s => !(Text.trim s).isEmpty && (Decimal.float? (Text.trim s)).isSome
  | _ => false

def isOfKind (kind : Json.Kind) : Helper := fun args => .ok (.bool ((arg args 0).kind = kind))

def logic? : String → Option Helper
  | "isEmpty" => some fun args => .ok (.bool (arg args 0).isEmptyValue)
  | "isNotEmpty" => some fun args => .ok (.bool (!(arg args 0).isEmptyValue))
  | "exists" => some fun args => .ok (.bool (!(arg args 0).isNull))
  | "isDefined" => some fun args => .ok (.bool (!(arg args 0).isNull))
  | "ifEmpty" => some fun args => .ok (if (arg args 0).isEmptyValue then arg args 1 else arg args 0)
  | "if" => some fun args => .ok (if (arg args 0).truthy then arg args 1 else arg args 2)
  | "switch" => some switch
  | "and" => some fun args => .ok (.bool (!args.isEmpty && args.all Json.truthy))
  | "or" => some fun args => .ok (.bool (args.any Json.truthy))
  | "not" => some fun args => .ok (.bool (!(arg args 0).truthy))
  | "isString" => some (isOfKind .string)
  | "isNumber" => some (isOfKind .number)
  | "isBoolean" => some (isOfKind .boolean)
  | "isArray" => some (isOfKind .array)
  | "isObject" => some (isOfKind .object)
  | "isNull" => some (isOfKind .null)
  | "isNumeric" => some fun args => .ok (.bool (isNumeric (arg args 0)))
  | "typeOf" => some fun args => .ok (.str (arg args 0).kind.name)
  | "toString" => some fun args => .ok (.str (textArg args 0))
  | "string" => some fun args => .ok (.str (textArg args 0))
  | "toNumber" => some fun args => toNumber (arg args 0) >>= number
  | "number" => some fun args => toNumber (arg args 0) >>= number
  | "toFloat" => some fun args => toNumber (arg args 0) >>= number
  | "toInt" => some fun args => do number (Binary64.trunc (← toNumber (arg args 0)))
  | "parseInt" => some fun args => do number (Binary64.trunc (← toNumber (arg args 0)))
  | "toBoolean" => some fun args => .ok (.bool (toBoolean (arg args 0)))
  | "boolean" => some fun args => .ok (.bool (toBoolean (arg args 0)))
  | _ => none

end FlowEngine.Helper
