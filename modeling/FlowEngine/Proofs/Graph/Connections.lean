import FlowEngine.Proofs.Workflow.Distinct
import FlowEngine.Proofs.Workflow.Validity
import Mathlib.Data.List.Flatten
import Mathlib.Data.List.Perm.Basic

/-! The links of a graph and the connections of its definition. Of a valid definition every main connection becomes one
link, found at both of its ends, and nothing else becomes a main link. -/
namespace FlowEngine
variable {definition : Definition}

/-- A main connection as it is written, from an output slot of a node to an input slot of a node. -/
structure Connection where
  source : String
  output : Nat
  target : String
  input : Nat
deriving DecidableEq

/-- The connections from a node, slot by slot. -/
def connectionsFrom (source : String) (slots : List (List Target)) : List Connection :=
  slots.zipIdx.flatMap fun (targets, output) => targets.map fun target => ⟨source, output, target.node, target.index⟩

/-- What is written under the main kind of a source. -/
def Connections.mainSlots (connections : Connections) (source : String) : List (List Target) :=
  ((connections.get? source).bind (·.get? mainKind)).getD []

/-- All main connections, source by source. -/
def Definition.mainConnections (definition : Definition) : List Connection :=
  definition.connections.flatMap fun (source, kinds) => connectionsFrom source ((kinds.get? mainKind).getD [])

/-- The link of a connection between nodes of a graph. -/
def Graph.link? (g : Graph) (connection : Connection) : Option Link := do
  return ⟨← g.id? connection.source, connection.output, ← g.id? connection.target, connection.input, mainKind⟩

/-- Where only one element of a list stands for anything, the list stands for the same. -/
private theorem flatMap_eq_of_unique {α β : Type} {l : List α} {f : α → List β} {a : α} (hl : l.Nodup) (ha : a ∈ l)
    (hothers : ∀ b ∈ l, b ≠ a → f b = []) : l.flatMap f = f a := by
  obtain ⟨front, back, rfl⟩ := List.append_of_mem ha
  obtain ⟨-, hback, hfront⟩ := List.nodup_append.mp hl
  have hbefore : front.flatMap f = [] := List.flatMap_eq_nil_iff.mpr fun b hb =>
    hothers b (List.mem_append_left _ hb) (hfront b hb a List.mem_cons_self)
  have hbehind : back.flatMap f = [] := List.flatMap_eq_nil_iff.mpr fun b hb =>
    hothers b (List.mem_append_right _ (List.mem_cons_of_mem a hb)) fun heq =>
      (List.nodup_cons.mp hback).1 (heq ▸ hb)
  rw [List.flatMap_append, List.flatMap_cons, hbefore, hbehind, List.nil_append, List.append_nil]

/-- A list may be gone through by those of its elements alone that stand for anything, in any order. -/
private theorem perm_flatMap_of_subset {α β : Type} {l l' : List α} {f : α → List β} (hl : l.Nodup) (hl' : l'.Nodup)
    (hsub : l' ⊆ l) (hothers : ∀ a ∈ l, a ∉ l' → f a = []) : (l.flatMap f).Perm (l'.flatMap f) := by
  classical
  have hsplit : (l' ++ l.filter (· ∉ l')).Perm l := by
    refine (List.perm_ext_iff_of_nodup (hl'.append (hl.filter _) ?_) hl).mpr fun a => ?_
    · intro a ha hfiltered
      exact of_decide_eq_true (List.mem_filter.mp hfiltered).2 ha
    · rw [List.mem_append, List.mem_filter, decide_eq_true_eq]
      constructor
      · rintro (ha | ⟨ha, -⟩)
        · exact hsub ha
        · exact ha
      · intro ha
        by_cases ha' : a ∈ l'
        · exact .inl ha'
        · exact .inr ⟨ha, ha'⟩
  have hnothing : (l.filter (· ∉ l')).flatMap f = [] := List.flatMap_eq_nil_iff.mpr fun a ha => by
    obtain ⟨hmem, hnot⟩ := List.mem_filter.mp ha
    exact hothers a hmem (of_decide_eq_true hnot)
  have hall := hsplit.flatMap_right f
  rw [List.flatMap_append, hnothing, List.append_nil] at hall
  exact hall.symm

/-- Where only the value of one name stands for anything, that is what the values by name stand for. -/
private theorem flatMap_eq_of_get? {α β : Type} {m : Keyed α} {f : String × α → List β} (name : String)
    (hm : m.names.Nodup) (hothers : ∀ entry ∈ m, entry.1 ≠ name → f entry = []) :
    m.flatMap f = ((m.get? name).map fun value => f (name, value)).getD [] := by
  cases hname : m.get? name with
  | none =>
    refine List.flatMap_eq_nil_iff.mpr fun entry hentry => hothers entry hentry ?_
    intro heq
    exact Keyed.not_mem_names hname (heq ▸ List.mem_map_of_mem hentry)
  | some value =>
    refine flatMap_eq_of_unique (List.Nodup.of_map _ hm) (Keyed.mem_of_get? hname) fun entry hentry hne => ?_
    refine hothers entry hentry fun heq => hne ?_
    have hsame := Keyed.get?_of_mem hm hentry
    rw [heq, hname] at hsame
    exact Prod.ext heq (Option.some.inj hsame).symm

namespace Graph
variable {g : Graph} {nodes : List NodeDef} {node : NodeDef} {i j : Nat} {link : Link} {c : Connection}

private theorem link?_eq_some_iff : g.link? c = some link ↔ g.id? c.source = some link.source ∧ c.output = link.output ∧
    g.id? c.target = some link.target ∧ c.input = link.input ∧ link.kind = mainKind := by
  obtain ⟨source, output, target, input, kind⟩ := link
  simp only [link?, Option.bind_eq_bind, Option.bind_eq_some_iff, Option.pure_def, Option.some.injEq, Link.mk.injEq]
  constructor
  · rintro ⟨_, hsource, _, htarget, rfl, rfl, rfl, rfl, rfl⟩
    exact ⟨hsource, rfl, htarget, rfl, rfl⟩
  · rintro ⟨hsource, rfl, htarget, rfl, rfl⟩
    exact ⟨_, hsource, _, htarget, rfl, rfl, rfl, rfl, rfl⟩

/-! The main links, source by source. -/

/-- The targets of a slot become links if all of them are known. -/
private theorem map_some_filterMap {α β : Type} {f : α → Option β} {l : List α} (h : ∀ a ∈ l, (f a).isSome) :
    (l.filterMap f).map some = l.map f := by
  induction l with
  | nil => rfl
  | cons a l ih =>
    obtain ⟨ha, hl⟩ := List.forall_mem_cons.mp h
    obtain ⟨b, hb⟩ := Option.isSome_iff_exists.mp ha
    rw [List.filterMap_cons_some hb, List.map_cons, List.map_cons, ih hl, hb]

def slotLinks (nodes : List NodeDef) (source : Nat) (kind : String) (slots : List (List Target)) : List Link :=
  slots.zipIdx.flatMap fun (targets, output) => targets.filterMap fun target =>
    (position? nodes target.node).map fun id => ⟨source, output, id, target.index, kind⟩

private theorem linksFrom_eq {connections : Connections} : linksFrom nodes connections (i, node) =
    ((connections.get? node.name).getD []).flatMap fun kind => slotLinks nodes i kind.1 kind.2 := rfl

private theorem of_mem_slotLinks {kind : String} {slots : List (List Target)}
    (h : link ∈ slotLinks nodes i kind slots) : link.source = i ∧ link.kind = kind := by
  obtain ⟨⟨targets, output⟩, -, h⟩ := List.mem_flatMap.mp h
  obtain ⟨target, -, h⟩ := List.mem_filterMap.mp h
  obtain ⟨id, -, rfl⟩ := Option.map_eq_some_iff.mp h
  exact ⟨rfl, rfl⟩

private theorem source_of_mem_linksFrom {connections : Connections} (h : link ∈ linksFrom nodes connections (i, node)) :
    link.source = i := by
  rw [linksFrom_eq] at h
  obtain ⟨kind, -, h⟩ := List.mem_flatMap.mp h
  exact (of_mem_slotLinks h).1

private theorem filter_isMain_slotLinks {kind : String} {slots : List (List Target)} :
    (slotLinks nodes i kind slots).filter Link.isMain = if kind = mainKind then slotLinks nodes i kind slots else [] := by
  split
  · rename_i hmain
    refine List.filter_eq_self.mpr fun link hlink => ?_
    rw [Link.isMain, (of_mem_slotLinks hlink).2, hmain, beq_self_eq_true]
  · rename_i hother
    refine List.filter_eq_nil_iff.mpr fun link hlink => ?_
    rw [Link.isMain, (of_mem_slotLinks hlink).2]
    simpa using hother

/-- Of the links that leave a node, the main ones are those of the main kind. -/
private theorem filter_isMain_linksFrom {connections : Connections}
    (hkinds : ∀ kinds, connections.get? node.name = some kinds → kinds.names.Nodup) :
    (linksFrom nodes connections (i, node)).filter Link.isMain =
      slotLinks nodes i mainKind (connections.mainSlots node.name) := by
  rw [linksFrom_eq, List.filter_flatMap, Connections.mainSlots]
  cases hsource : connections.get? node.name with
  | none => rfl
  | some kinds =>
    rw [Option.getD_some, Option.bind_some, flatMap_eq_of_get? mainKind (hkinds kinds hsource)]
    · cases kinds.get? mainKind with
      | none => rfl
      | some slots => exact filter_isMain_slotLinks.trans (if_pos rfl)
    · exact fun kind _ hne => filter_isMain_slotLinks.trans (if_neg hne)

/-- The links of a kind are those of its connections, in the order in which these are written. -/
private theorem map_some_slotLinks {slots : List (List Target)} (hnode : g.id? node.name = some i)
    (hknown : ∀ target ∈ slots.flatten, (g.id? target.node).isSome) :
    (slotLinks g.nodes i mainKind slots).map some = (connectionsFrom node.name slots).map g.link? := by
  rw [slotLinks, connectionsFrom, List.map_flatMap, List.map_flatMap]
  refine List.flatMap_congr fun (targets, output) hslot => ?_
  have htargets : targets ∈ slots := List.mem_of_getElem? (List.mk_mem_zipIdx_iff_getElem?.mp hslot)
  rw [map_some_filterMap, List.map_map]
  · refine List.map_congr_left fun target htarget => ?_
    obtain ⟨id, hid⟩ := Option.isSome_iff_exists.mp (hknown target (List.mem_flatten_of_mem htargets htarget))
    have hposition : position? g.nodes target.node = some id := hid
    rw [hposition]
    exact (link?_eq_some_iff.mpr ⟨hnode, rfl, hid, rfl, rfl⟩).symm
  · intro target htarget
    rw [Option.isSome_map]
    exact hknown target (List.mem_flatten_of_mem htargets htarget)

/-! The ends of the main links. -/

def mainLinks (g : Graph) : List Link := g.links.filter Link.isMain

private theorem outgoing_eq : g.outgoing i = g.mainLinks.filter (·.source == i) := by
  rw [outgoing, mainLinks, List.filter_filter]

private theorem incoming_eq : g.incoming i = g.mainLinks.filter (·.target == i) := by
  rw [incoming, mainLinks, List.filter_filter]

private theorem isSome_id?_iff {name : String} :
    ((ofDefinition definition).id? name).isSome ↔ name ∈ definition.nodes.map (·.name) :=
  Option.isSome_iff_exists.trans exists_id?_iff

/-- What holds of the connections of a definition that lets all of them become links. -/
structure Keeps (definition : Definition) : Prop where
  names : (definition.nodes.map (·.name)).Nodup
  sources : definition.connections.names ⊆ definition.nodes.map (·.name)
  targets : ∀ target ∈ definition.targets, target.node ∈ definition.nodes.map (·.name)
  distinct : definition.connections.Distinct

namespace Keeps
variable (h : Keeps definition)
include h

private theorem kinds_nodup {source : String} {kinds : Keyed (List (List Target))}
    (hget : definition.connections.get? source = some kinds) : kinds.names.Nodup :=
  h.distinct.kinds source kinds (Keyed.mem_of_get? hget)

private theorem id?_name (hnode : definition.nodes[i]? = some node) :
    (ofDefinition definition).id? node.name = some i := by
  refine (position?_eq_some_iff (distinctNames_ofDefinition definition)).mpr ⟨node, ?_, rfl⟩
  rwa [nodes_ofDefinition h.names]

private theorem isSome_mainSlots {source : String} :
    ∀ target ∈ (definition.connections.mainSlots source).flatten, ((ofDefinition definition).id? target.node).isSome := by
  intro target htarget
  rw [Connections.mainSlots] at htarget
  cases hget : definition.connections.get? source with
  | none => simp [hget] at htarget
  | some kinds =>
    cases hmain : kinds.get? mainKind with
    | none => simp [hget, hmain] at htarget
    | some slots =>
      rw [hget, Option.bind_some, hmain, Option.getD_some] at htarget
      refine isSome_id?_iff.mpr (h.targets target (List.mem_flatMap.mpr ⟨_, Keyed.mem_of_get? hget, ?_⟩))
      exact List.mem_flatMap.mpr ⟨_, Keyed.mem_of_get? hmain, htarget⟩

/-- The main links that leave a node are the connections that are written for it, in their order. -/
private theorem map_some_linksFrom (hnode : definition.nodes[i]? = some node) :
    ((linksFrom (ofDefinition definition).nodes definition.connections (i, node)).filter Link.isMain).map some =
      (connectionsFrom node.name (definition.connections.mainSlots node.name)).map (ofDefinition definition).link? := by
  rw [filter_isMain_linksFrom fun _ => h.kinds_nodup]
  exact map_some_slotLinks (h.id?_name hnode) h.isSome_mainSlots

private theorem links_ofDefinition : (ofDefinition definition).links = definition.nodes.zipIdx.flatMap fun entry =>
    linksFrom (ofDefinition definition).nodes definition.connections (entry.2, entry.1) := by
  conv_rhs => rw [← nodes_ofDefinition h.names]
  rfl

private theorem map_some_outgoing (hnode : definition.nodes[i]? = some node) :
    ((ofDefinition definition).outgoing i).map some =
      (connectionsFrom node.name (definition.connections.mainSlots node.name)).map (ofDefinition definition).link? := by
  rw [← h.map_some_linksFrom hnode, outgoing, h.links_ofDefinition, List.filter_flatMap,
    flatMap_eq_of_unique (a := (node, i)) ?nodup (List.mk_mem_zipIdx_iff_getElem?.mpr hnode) ?others]
  case nodup => exact List.Nodup.of_map Prod.snd (by rw [List.zipIdx_map_snd]; exact List.nodup_range')
  case others =>
    rintro ⟨other, j⟩ hother hne
    refine List.filter_eq_nil_iff.mpr fun link hlink => ?_
    have hj : j ≠ i := by
      rintro rfl
      rw [List.mk_mem_zipIdx_iff_getElem?, hnode] at hother
      exact hne (by rw [Option.some.inj hother])
    simp [source_of_mem_linksFrom hlink, hj]
  · refine congrArg (List.map some) (List.filter_congr fun link hlink => ?_)
    simp [source_of_mem_linksFrom hlink]

/-- The sources with their connections, whatever their order. -/
private theorem perm_mainConnections :
    (definition.nodes.flatMap fun node => connectionsFrom node.name (definition.connections.mainSlots node.name)).Perm
      definition.mainConnections := by
  have hmain : definition.mainConnections = definition.connections.names.flatMap fun source =>
      connectionsFrom source (definition.connections.mainSlots source) := by
    rw [Definition.mainConnections, Keyed.names, List.flatMap_map]
    refine List.flatMap_congr fun entry hentry => ?_
    obtain ⟨source, kinds⟩ := entry
    rw [Connections.mainSlots, Keyed.get?_of_mem h.distinct.sources hentry, Option.bind_some]
  have hnodes : (definition.nodes.flatMap fun node =>
      connectionsFrom node.name (definition.connections.mainSlots node.name)) =
      (definition.nodes.map (·.name)).flatMap fun source =>
        connectionsFrom source (definition.connections.mainSlots source) := by rw [List.flatMap_map]
  rw [hmain, hnodes]
  refine perm_flatMap_of_subset h.names h.distinct.sources h.sources fun name _ hother => ?_
  have hnone : definition.connections.get? name = none := by
    by_contra hsome
    exact hother (Keyed.mem_names_iff.mpr (Option.ne_none_iff_exists'.mp hsome))
  rw [Connections.mainSlots, hnone]
  rfl

private theorem map_some_mainLinks :
    ((ofDefinition definition).mainLinks.map some).Perm (definition.mainConnections.map (ofDefinition definition).link?) := by
  refine .trans (.of_eq ?_) (h.perm_mainConnections.map _)
  rw [mainLinks, h.links_ofDefinition, List.filter_flatMap, List.map_flatMap, List.map_flatMap]
  have hnodes : definition.nodes = definition.nodes.zipIdx.map Prod.fst := (List.zipIdx_map_fst 0 _).symm
  conv_rhs => rw [hnodes, List.flatMap_map]
  exact List.flatMap_congr fun entry hentry => h.map_some_linksFrom (List.mk_mem_zipIdx_iff_getElem?.mp hentry)

private theorem isSome_link? (hc : c ∈ definition.mainConnections) : ((ofDefinition definition).link? c).isSome := by
  obtain ⟨⟨source, kinds⟩, hentry, hmem⟩ := List.mem_flatMap.mp hc
  obtain ⟨⟨targets, output⟩, hslot, hmem⟩ := List.mem_flatMap.mp hmem
  obtain ⟨target, htarget, rfl⟩ := List.mem_map.mp hmem
  have hget : definition.connections.get? source = some kinds := Keyed.get?_of_mem h.distinct.sources hentry
  have hslots : targets ∈ definition.connections.mainSlots source := by
    rw [Connections.mainSlots, hget]
    exact List.mem_of_getElem? (List.mk_mem_zipIdx_iff_getElem?.mp hslot)
  obtain ⟨i, hi⟩ := exists_id?_iff.mpr (h.sources (Keyed.mem_names_of_get? hget))
  obtain ⟨j, hj⟩ := Option.isSome_iff_exists.mp (h.isSome_mainSlots target (List.mem_flatten_of_mem hslots htarget))
  have hlink : (ofDefinition definition).link? ⟨source, output, target.node, target.index⟩ =
      some ⟨i, output, j, target.index, mainKind⟩ := link?_eq_some_iff.mpr ⟨hi, rfl, hj, rfl, rfl⟩
  exact Option.isSome_of_eq_some hlink

/-- At one end of the main links a node has those whose connections name it there. -/
private theorem map_some_filter_mainLinks (hnode : definition.nodes[i]? = some node) {ending : Link → Nat}
    {named : Connection → String} (hending : ∀ c link, (ofDefinition definition).link? c = some link →
      (ofDefinition definition).id? (named c) = some (ending link)) :
    (((ofDefinition definition).mainLinks.filter (ending · == i)).map some).Perm
      ((definition.mainConnections.filter (named · == node.name)).map (ofDefinition definition).link?) := by
  have hfiltered := h.map_some_mainLinks.filter (·.any (ending · == i))
  rw [List.filter_map, List.filter_map] at hfiltered
  have hnamed : definition.mainConnections.filter (fun c => ((ofDefinition definition).link? c).any (ending · == i)) =
      definition.mainConnections.filter (named · == node.name) := by
    refine List.filter_congr fun c hc => ?_
    obtain ⟨link, hlink⟩ := Option.isSome_iff_exists.mp (h.isSome_link? hc)
    have hd := distinctNames_ofDefinition definition
    obtain ⟨-, hlinked⟩ := (id?_eq_some_iff hd).mp (hending c link hlink)
    have hmine := h.id?_name hnode
    rw [hlink, Option.any_some, Bool.eq_iff_iff, beq_iff_eq, beq_iff_eq]
    constructor
    · rintro rfl
      rw [← hlinked, ((id?_eq_some_iff hd).mp hmine).2]
    · intro heq
      have hsame := hending c link hlink
      rw [heq, hmine] at hsame
      exact (Option.some.inj hsame).symm
  exact hnamed ▸ hfiltered

end Keeps

private theorem keeps_of_isValid (valid : definition.isValid = true) (distinct : definition.connections.Distinct) :
    Keeps definition where
  names := ((Definition.isValid_iff definition).mp valid).names_distinct
  sources source hsource := by
    obtain ⟨node, hnode, rfl⟩ := ((Definition.isValid_iff definition).mp valid).sources_known source hsource
    exact List.mem_map_of_mem hnode
  targets target htarget := by
    obtain ⟨node, hnode, heq, -⟩ := ((Definition.isValid_iff definition).mp valid).targets_known target htarget
    exact heq ▸ List.mem_map_of_mem hnode
  distinct := distinct

/-- The graph of a valid definition has its nodes, in their order and known by their names. From a node lead the main
connections that are written for it, by output slot and then by target, and every main connection of the definition,
with its slots, is a link at its source and at its target as often as it is written. No other connection is. -/
theorem every_main_connection_is_one_link (valid : definition.isValid = true)
    (distinct : definition.connections.Distinct) :
    let g := ofDefinition definition
    g.nodes = definition.nodes ∧
    (∀ name i, g.id? name = some i ↔ ∃ node, definition.nodes[i]? = some node ∧ node.name = name) ∧
    (∀ c ∈ definition.mainConnections, (g.link? c).isSome) ∧
    ∀ i node, definition.nodes[i]? = some node →
      (g.outgoing i).map some =
        (connectionsFrom node.name (definition.connections.mainSlots node.name)).map g.link? ∧
      ((g.outgoing i).map some).Perm ((definition.mainConnections.filter (·.source == node.name)).map g.link?) ∧
      ((g.incoming i).map some).Perm ((definition.mainConnections.filter (·.target == node.name)).map g.link?) ∧
      ∀ link ∈ g.outgoing i ++ g.incoming i, link.kind = mainKind := by
  intro g
  have h := keeps_of_isValid valid distinct
  refine ⟨nodes_ofDefinition h.names, fun name i => ?_, fun c => h.isSome_link?, fun i node hnode => ⟨?_, ?_, ?_, ?_⟩⟩
  · rw [← nodes_ofDefinition h.names]
    exact position?_eq_some_iff (distinctNames_ofDefinition definition)
  · exact h.map_some_outgoing hnode
  · rw [outgoing_eq]
    exact h.map_some_filter_mainLinks hnode fun c link hlink => (link?_eq_some_iff.mp hlink).1
  · rw [incoming_eq]
    exact h.map_some_filter_mainLinks hnode fun c link hlink => (link?_eq_some_iff.mp hlink).2.2.1
  · intro link hlink
    have hmain : link.isMain = true := by
      rcases List.mem_append.mp hlink with hlink | hlink
      · exact (mem_outgoing.mp hlink).2.2
      · exact (mem_incoming.mp hlink).2.2
    exact beq_iff_eq.mp hmain

/-- Two output slots, a target that is written twice, and a connection of another kind. -/
def switchboard : Definition := { Definition.named "switchboard" with
  nodes := [.named "A" "noOp", .named "B" "noOp", .named "C" "noOp"]
  connections := [
    ("A", [("ai_tool", [[⟨"C", "ai_tool", 0⟩]]),
      ("main", [[⟨"C", "main", 1⟩, ⟨"B", "main", 0⟩, ⟨"C", "main", 1⟩], [⟨"C", "main", 0⟩]])]),
    ("B", [("main", [[⟨"C", "main", 2⟩]])])] }

private theorem switchboard_distinct : switchboard.connections.Distinct where
  sources := by decide
  kinds source kinds hentry := by
    simp only [switchboard, List.mem_cons, Prod.mk.injEq, List.not_mem_nil, or_false] at hentry
    obtain ⟨-, rfl⟩ | ⟨-, rfl⟩ := hentry <;> decide

theorem every_main_connection_is_one_link_switchboard :
    switchboard.isValid = true ∧ switchboard.connections.Distinct ∧
    ((ofDefinition switchboard).outgoing 0 =
      [⟨0, 0, 2, 1, "main"⟩, ⟨0, 0, 1, 0, "main"⟩, ⟨0, 0, 2, 1, "main"⟩, ⟨0, 1, 2, 0, "main"⟩]) ∧
    (((ofDefinition switchboard).incoming 2).map some).Perm
      ((switchboard.mainConnections.filter (·.target == "C")).map (ofDefinition switchboard).link?) ∧
    switchboard.mainConnections.length = 5 := by
  have hvalid : switchboard.isValid = true := by decide +kernel
  obtain ⟨-, -, -, hlinks⟩ := every_main_connection_is_one_link hvalid switchboard_distinct
  exact ⟨hvalid, switchboard_distinct, by decide +kernel, (hlinks 2 _ rfl).2.2.1, by decide +kernel⟩

end Graph
end FlowEngine
