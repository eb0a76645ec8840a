import FlowEngine.Run.Record
import FlowEngine.Workflow.Graph

/-!
# Scheduling

Which node of a run is next, and what it is given. A node has its turn once every connection into it
from inside the run has delivered items or was closed without any. A node that was given no items is
skipped and closes its own connections in turn.
-/
namespace FlowEngine

/-- What is known about a node during a run. -/
structure NodeState where
  /-- The run can come to the node. -/
  inRun : Bool
  /-- Connections from inside the run that have neither delivered nor closed. -/
  awaiting : Nat
  /-- The node has its turn, had it, or was skipped. -/
  scheduled : Bool
  hasData : Bool
  /-- What was delivered so far, by input slot. -/
  inputs : List Batch
  /-- The connections that delivered something, in order. -/
  sources : List SourceRef

instance : Inhabited NodeState := ⟨⟨false, 0, false, false, [], []⟩⟩

structure Scheduler where
  /-- By the position of the node. -/
  nodes : List NodeState
  /-- The nodes whose turn it is, the next one first. -/
  queue : List Nat

namespace Scheduler

def node (s : Scheduler) (id : Nat) : NodeState := (s.nodes[id]?).getD default

def update (s : Scheduler) (id : Nat) (f : NodeState → NodeState) : Scheduler :=
  { s with nodes := s.nodes.modify id f }

/-- The nodes that a run from some nodes can come to, staying among the permitted ones. -/
def reachable (g : Graph) (permitted : Nat → Bool) (start : List Nat) : List Nat :=
  Graph.reach (fun id => (g.children id).filter permitted) g.size start start

def initial (g : Graph) (inRun : List Nat) (id : Nat) : NodeState where
  inRun := inRun.contains id
  awaiting :=
    if inRun.contains id then ((g.incoming id).filter (fun l => inRun.contains l.source)).length else 0
  scheduled := false
  hasData := false
  inputs := []
  sources := []

def startAt (seed : Batch) (s : Scheduler) (id : Nat) : Scheduler :=
  let s := s.update id (fun n =>
    { n with awaiting := 0, scheduled := true, hasData := true, inputs := [seed] })
  { s with queue := s.queue ++ [id] }

def start (g : Graph) (permitted : Nat → Bool) (starts : List Nat) (seed : Batch) : Scheduler :=
  let inRun := reachable g permitted (starts.filter permitted)
  starts.foldl (startAt seed) ⟨g.ids.map (initial g inRun), []⟩

def addInput (inputs : List Batch) (slot : Nat) (batch : Batch) : List Batch :=
  (inputs ++ List.replicate (slot + 1 - inputs.length) []).modify slot (· ++ batch)

def carried (output : Output) (link : Link) : Batch := (output[link.output]?).getD []

def NodeState.accept (n : NodeState) (source : String) (link : Link) (batch : Batch) : NodeState :=
  if batch.isEmpty then n
  else { n with
    hasData := true
    inputs := addInput n.inputs link.input batch
    sources := n.sources ++ [⟨source, link.output, link.input⟩] }

/-- Delivers along one link, or closes it. The other result is what was skipped so far, the last node
first. -/
def deliverAlong (g : Graph) (output : Output) (state : Scheduler × List Nat) (link : Link) :
    Scheduler × List Nat :=
  let (s, skipped) := state
  let target := s.node link.target
  if !target.inRun || target.scheduled then (s, skipped)
  else
    let target := NodeState.accept target (g.nameOf link.source) link (carried output link)
    let target := { target with awaiting := target.awaiting - 1 }
    let ready := target.awaiting == 0
    let s := s.update link.target (fun _ => { target with scheduled := ready })
    if !ready then (s, skipped)
    else if target.hasData then ({ s with queue := s.queue ++ [link.target] }, skipped)
    else (s, link.target :: skipped)

def deliverFrom (g : Graph) (source : Nat) (output : Output) (state : Scheduler × List Nat) :
    Scheduler × List Nat :=
  (g.outgoing source).foldl (deliverAlong g output) state

/-- Closes the connections of skipped nodes, the last one first. The number bounds how many there are. -/
def closeSkipped (g : Graph) : Nat → Scheduler × List Nat → Scheduler
  | fuel + 1, (s, id :: skipped) => closeSkipped g fuel (deliverFrom g id [] (s, skipped))
  | _, (s, _) => s

def deliver (g : Graph) (source : Nat) (output : Output) (s : Scheduler) : Scheduler :=
  closeSkipped g (g.size + 1) (deliverFrom g source output (s, []))

/-- A node with what it was given. -/
structure Turn where
  id : Nat
  inputs : List Batch
  sources : List SourceRef

def next? (s : Scheduler) : Option (Turn × Scheduler) :=
  match s.queue with
  | [] => none
  | id :: rest =>
    let n := s.node id
    some (⟨id, n.inputs, n.sources⟩,
      { s.update id (fun n => { n with inputs := [], sources := [] }) with queue := rest })

end Scheduler
end FlowEngine
