import FlowEngine.Query.Basic

/-!
# Answering a query

Paths are applied from left to right. What is not there is null, and null stays null.
-/
namespace FlowEngine.Query

/-- The item at a position, counted from the end if it is negative. -/
def itemAt? (items : List Json) (position : Int) : Option Json :=
  let resolved := if position < 0 then items.length + position else position
  if resolved < 0 then none else items[resolved.toNat]?

/-- Whether two values stand in a relation. Sizes are compared between numbers and between texts. -/
def compares : Comparison → Json → Json → Bool
  | .eq, a, b => a.strictEq b
  | .ne, a, b => !a.strictEq b
  | comparison, a, b =>
    let comparable := match a, b with
      | .num _, .num _ => true
      | .str _, .str _ => true
      | _, _ => false
    match comparable, a.compare? b with
    | true, some order => match comparison with
      | .lt => order == .lt
      | .le => order != .gt
      | .gt => order == .gt
      | .ge => order != .lt
      | _ => false
    | _, _ => false

/-- A value counts as a condition unless it does not hold or is an empty container. -/
def counts (value : Json) : Bool :=
  value.truthy && match value with
    | .arr items => !items.isEmpty
    | .obj fields => !fields.isEmpty
    | _ => true

def present (results : List Json) : Json := .arr (results.filter (fun v => !v.isNull))

mutual
def apply : List Step → Json → Json
  | [], value => value
  | .current :: rest, value => apply rest value
  | .field name :: rest, value =>
    match value.field? name with
    | some inner => apply rest inner
    | none => .null
  | .index position :: rest, value =>
    match value.items?.bind (itemAt? · position) with
    | some inner => apply rest inner
    | none => .null
  | .items :: rest, value =>
    match value with
    | .arr items => present (items.map (fun item => apply rest item))
    | _ => .null
  | .values :: rest, value =>
    match value with
    | .obj fields => present (fields.map (fun entry => apply rest entry.2))
    | _ => .null
  | .filter condition :: rest, value =>
    match value with
    | .arr items =>
      present ((items.filter (fun item => meets condition item)).map (fun item => apply rest item))
    | _ => .null

def meets : Condition → Json → Bool
  | .compare left comparison right, item =>
    compares comparison (resolve left item) (resolve right item)
  | .holds operand, item => counts (resolve operand item)
  | .not condition, item => !meets condition item
  | .and left right, item => meets left item && meets right item
  | .or left right, item => meets left item || meets right item

def resolve : Operand → Json → Json
  | .path steps, item => apply steps item
  | .literal value, _ => value
end

def run (paths : List (List Step)) (value : Json) : Json := paths.foldl (fun v path => apply path v) value

end FlowEngine.Query
