import FlowEngine.Proofs.Json.Faithful
import FlowEngine.Workflow.Definition

/-! Connections of definitions that were read. Documents may repeat a name, but what is read of them has every name once,
so a source has one set of kinds, and a kind one list of output slots. -/
namespace FlowEngine
variable {text : String} {lists : Bool} {d : Document} {v : Json}

/-- Connections are values by name: every source stands there once, and every kind once for a source. -/
structure Connections.Distinct (connections : Connections) : Prop where
  sources : connections.names.Nodup
  kinds : ∀ source kinds, (source, kinds) ∈ connections → kinds.names.Nodup

namespace Shape
variable {shape : Shape} {fields : List (String × Bool × Shape)}

/-- An object with any names is read with every name once. -/
private theorem of_read_keyed (h : (keyed shape).read lists d = .ok v) :
    ∃ m : Keyed Json, v = .obj m ∧ m.Ascending ∧ ∀ entry ∈ m, ∃ d', shape.read lists d' = .ok entry.2 := by
  unfold read at h
  split at h
  · obtain ⟨found, hfound, rfl⟩ := map_eq_ok_iff.mp h
    refine ⟨_, rfl, .ofList, Keyed.forall_mem_ofList fun entry hentry => ?_⟩
    obtain ⟨⟨name, d'⟩, -, hread⟩ := exists_of_forall₂ (forall₂_of_mapM hfound) hentry
    obtain ⟨value, hvalue, rfl⟩ := map_eq_ok_iff.mp hread
    exact ⟨d', hvalue⟩
  · split at h
    · cases h
      exact ⟨[], rfl, .nil, List.forall_mem_nil _⟩
    · cases h

/-- The fields of a record are read as the fields that it knows. -/
private theorem of_read_record (h : (record fields false).read lists d = .ok v) :
    ∃ m : Keyed Json, v = .obj m ∧ ∀ entry ∈ m, ∃ d', readKnown lists fields entry.1 d' = some (.ok entry.2) := by
  have hknown {found : List (String × Json)} {entries : List (String × Document)}
      (hfound : readFields (readKnown lists fields) false [] entries = .ok found) :
      ∀ entry ∈ Keyed.ofList found, ∃ d', readKnown lists fields entry.1 d' = some (.ok entry.2) := by
    refine Keyed.forall_mem_ofList fun entry hentry => ?_
    obtain ⟨d', -, hd' | ⟨-, hkeep, -⟩⟩ := of_readFields hfound entry hentry
    · exact ⟨d', hd'⟩
    · cases hkeep
  unfold read at h
  split at h
  · obtain ⟨found, hfound, h⟩ := bind_eq_ok_iff.mp h
    split at h
    · cases h
    · cases h
      exact ⟨_, rfl, hknown hfound⟩
  · dsimp only at h
    split at h
    · cases h
    obtain ⟨found, hfound, h⟩ := bind_eq_ok_iff.mp h
    split at h
    · cases h
    · cases h
      exact ⟨_, rfl, hknown hfound⟩
  · split at h
    · cases h
    · split at h
      · cases h
      · cases h
        exact ⟨[], rfl, List.forall_mem_nil _⟩

end Shape

namespace Definition
open Shape
variable {definition : Definition}

/-- A definition is read of the fields of a value that has the shape of definitions. -/
private theorem exists_read_of_parse (h : parse text = .ok definition) :
    ∃ lists d, ∃ fields : Keyed Json, shape.read lists d = .ok (.obj fields) ∧ ofFields fields = some definition := by
  have hdocument {format : String} {lists clean : Bool} {d : Document}
      (h : ofDocument format lists d clean = .ok definition) :
      ∃ fields : Keyed Json, shape.read lists d = .ok (.obj fields) ∧ ofFields fields = some definition := by
    rw [ofDocument] at h
    split at h
    · cases h
    · rename_i value hvalue
      split at h
      · rename_i found hfound
        split at h
        · cases h
          obtain ⟨fields, hfields, hdefinition⟩ := Option.bind_eq_some_iff.mp hfound
          cases value with
          | obj => cases hfields; exact ⟨_, hvalue, hdefinition⟩
          | _ => cases hfields
        · cases h
      · cases h
  rw [parse] at h
  split at h
  · cases h
  split at h
  · exact ⟨_, _, hdocument h⟩
  · split at h
    · exact ⟨_, _, hdocument h⟩
    · cases h

private theorem connections_of_ofFields {fields : Keyed Json} (h : ofFields fields = some definition) :
    fields.withDefault
      (Json.keyed? (Json.keyed? (Json.list? (Json.list? fun v => v.fields?.bind Target.ofFields)))) []
      "connections" = some definition.connections := by
  obtain ⟨_, -, h⟩ := Option.bind_eq_some_iff.mp h
  obtain ⟨_, -, h⟩ := Option.bind_eq_some_iff.mp h
  obtain ⟨_, -, h⟩ := Option.bind_eq_some_iff.mp h
  obtain ⟨_, -, h⟩ := Option.bind_eq_some_iff.mp h
  obtain ⟨connections, hconnections, h⟩ := Option.bind_eq_some_iff.mp h
  obtain ⟨_, -, h⟩ := Option.bind_eq_some_iff.mp h
  obtain ⟨_, -, h⟩ := Option.bind_eq_some_iff.mp h
  obtain ⟨_, -, h⟩ := Option.bind_eq_some_iff.mp h
  cases h
  exact hconnections

/-- Definitions that are read have distinct sources and kinds. -/
theorem distinct_of_parse (h : parse text = .ok definition) : definition.connections.Distinct := by
  obtain ⟨lists, d, fields, hread, hfields⟩ := exists_read_of_parse h
  have hconnections := connections_of_ofFields hfields
  obtain ⟨_, ⟨⟩, hknown⟩ := of_read_record hread
  rw [Keyed.withDefault] at hconnections
  cases hget : fields.get? "connections" with
  | none =>
    rw [hget] at hconnections
    rw [← Option.some.inj hconnections]
    exact ⟨.nil, nofun⟩
  | some value =>
    rw [hget] at hconnections
    obtain ⟨d', hd'⟩ := hknown _ (Keyed.mem_of_get? hget)
    have hvalue : connectionShape.read lists d' = .ok value := Option.some.inj hd'
    obtain ⟨sources, rfl, hsources, hkinds⟩ := of_read_keyed hvalue
    have hrelated := keyed?_eq_some_iff.mp hconnections
    refine ⟨(hrelated.ascending hsources).nodup_names, fun source kinds hentry => ?_⟩
    obtain ⟨⟨name, value⟩, hmem, -, hread⟩ := exists_of_forall₂ hrelated hentry
    obtain ⟨d', hd'⟩ := hkinds _ hmem
    obtain ⟨found, rfl, hfound, -⟩ := of_read_keyed hd'
    exact ((keyed?_eq_some_iff.mp hread).ascending hfound).nodup_names

end Definition
end FlowEngine
