import FlowEngine.Workflow.Definition

/-!
# Graphs

The nodes of a workflow with the links between them. A node is known by its position; only links of
the main kind carry data, and all questions about neighbours are about those.
-/
namespace FlowEngine

/-- A connection between two nodes of a graph, from an output slot to an input slot. -/
structure Link where
  source : Nat
  output : Nat
  target : Nat
  input : Nat
  kind : String
deriving DecidableEq, Repr

def Link.isMain (link : Link) : Bool := link.kind == mainKind

structure Graph where
  nodes : List NodeDef
  /-- Ordered by source, kind, output slot, and the order of targets there. -/
  links : List Link

namespace Graph

def firstOfNames (seen : List String) : List NodeDef → List NodeDef
  | [] => []
  | node :: rest =>
    if seen.contains node.name then firstOfNames seen rest
    else node :: firstOfNames (node.name :: seen) rest

def position? (nodes : List NodeDef) (name : String) : Option Nat :=
  nodes.findIdx? (fun node => node.name == name)

/-- The links that leave a node; targets that do not exist are left out. -/
def linksFrom (nodes : List NodeDef) (connections : Connections) (source : Nat × NodeDef) : List Link :=
  ((connections.get? source.2.name).getD []).flatMap (fun (kind, slots) =>
    slots.zipIdx.flatMap (fun (targets, output) =>
      targets.filterMap (fun target =>
        (position? nodes target.node).map (fun id => ⟨source.1, output, id, target.index, kind⟩))))

/-- The graph of a definition, whether that is valid or not. Of nodes of one name the first one is
kept, and connections to or from unknown nodes are dropped. -/
def ofDefinition (definition : Definition) : Graph :=
  let nodes := firstOfNames [] definition.nodes
  { nodes
    links := nodes.zipIdx.flatMap (fun (node, id) => linksFrom nodes definition.connections (id, node)) }

def size (g : Graph) : Nat := g.nodes.length

def ids (g : Graph) : List Nat := List.range g.size

def id? (g : Graph) (name : String) : Option Nat := position? g.nodes name

def node? (g : Graph) (name : String) : Option NodeDef := g.nodes.find? (fun node => node.name == name)

def nameOf (g : Graph) (id : Nat) : String := (g.nodes[id]?.map (·.name)).getD ""

def namesOf (g : Graph) (ids : List Nat) : List String := ids.map g.nameOf

def outgoing (g : Graph) (id : Nat) : List Link := g.links.filter (fun l => l.source == id && l.isMain)

def incoming (g : Graph) (id : Nat) : List Link := g.links.filter (fun l => l.target == id && l.isMain)

/-- The nodes with a link into a node, in order of position. -/
def parents (g : Graph) (id : Nat) : List Nat :=
  let sources := (g.incoming id).map (·.source)
  g.ids.filter sources.contains

/-- The nodes that a node has a link to, in order of position. -/
def children (g : Graph) (id : Nat) : List Nat :=
  let targets := (g.outgoing id).map (·.target)
  g.ids.filter targets.contains

/-- Everything that can be reached in at most so many steps, beyond what is known. -/
def reach (step : Nat → List Nat) : Nat → List Nat → List Nat → List Nat
  | 0, seen, _ => seen
  | fuel + 1, seen, frontier =>
    let fresh := ((frontier.flatMap step).filter (fun id => !seen.contains id)).eraseDups
    reach step fuel (seen ++ fresh) fresh

/-- The nodes from which a node can be reached, in order of position. -/
def ancestors (g : Graph) (id : Nat) : List Nat :=
  let found := reach g.parents g.size (g.parents id) (g.parents id)
  g.ids.filter found.contains

/-- The names of the nodes around a node that is known by its name; a name of no node has none around it. -/
def namesAround (g : Graph) (around : Nat → List Nat) (name : String) : List String :=
  ((g.id? name).map (fun id => g.namesOf (around id))).getD []

def parentNames (g : Graph) (name : String) : List String := g.namesAround g.parents name

def childNames (g : Graph) (name : String) : List String := g.namesAround g.children name

def ancestorNames (g : Graph) (name : String) : List String := g.namesAround g.ancestors name

def roots (g : Graph) : List Nat := g.ids.filter (fun id => (g.incoming id).isEmpty)

def triggers (isTrigger : String → Bool) (g : Graph) : List Nat :=
  (g.nodes.zipIdx.filter (fun (node, _) => !node.disabled && isTrigger node.type)).map (·.2)

/-- Searches for a cycle from a node on, behind a path of nodes that is given from its end. The result
is a cycle or the nodes seen so far. -/
def searchCycle (g : Graph) : Nat → List Nat → List Nat → Nat → Except (List Nat) (List Nat)
  | 0, _, seen, _ => .ok seen
  | fuel + 1, path, seen, id =>
    let path := id :: path
    (g.children id).foldlM (fun seen child =>
      if path.contains child then
        .error ((path.takeWhile (· != child) ++ [child]).reverse ++ [child])
      else if seen.contains child then .ok seen
      else searchCycle g fuel path seen child) (id :: seen)

/-- The names along a cycle, from a node to itself, if there is one. -/
def cycle? (g : Graph) : Option (List String) :=
  let search := g.ids.foldlM (fun seen id =>
    if seen.contains id then .ok seen else searchCycle g g.size [] seen id) []
  match search with
  | .error path => some (g.namesOf path)
  | .ok _ => none

def hasCycle (g : Graph) : Bool := g.cycle?.isSome

/-- Puts out a node behind all of its ancestors; nodes that were met before are passed over. The state
is what was met and what was put out, the last one first. -/
def emitAfterParents (g : Graph) : Nat → List Nat × List Nat → Nat → List Nat × List Nat
  | 0, state, _ => state
  | fuel + 1, (met, order), id =>
    if met.contains id then (met, order)
    else
      let (met, order) := (g.parents id).foldl (emitAfterParents g fuel) (id :: met, order)
      (met, id :: order)

/-- An order in which every node comes behind its ancestors: backwards from the nodes that lead nowhere,
then from all others. -/
def executionOrder (g : Graph) : List Nat :=
  let ends := g.ids.filter (fun id => (g.outgoing id).isEmpty)
  ((ends ++ g.ids).foldl (emitAfterParents g (g.size + 1)) ([], [])).2.reverse

end Graph
end FlowEngine
