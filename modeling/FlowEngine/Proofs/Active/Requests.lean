import Mathlib.Logic.Basic
import FlowEngine.Proofs.Active.Quiescence

/-! Requests that are answered at once. The answer is given when the event is on its channel; whether its run starts is
up to what the dispatcher sees first. -/
namespace FlowEngine.Dispatch

variable {active : Active} {s s' s'' : State} {past happenings happenings' : List Happening} {ticket : Nat}
  {tasks : Multiset (Nat × Phase)} {rest : Activity (Except Failure RunRecord)} {outcome : Except Failure RunRecord}
  {request : Node.WebhookRequest} {present : Time.Stamp} {event : Event} {status : Nat} {body : Json}

/-! What becomes of a request. -/

private theorem Emission.event_inj {emission emission' : Emission} {channel channel' : Channel} :
    emission.event channel.mode = emission'.event channel'.mode ↔ emission = emission' ∧ channel = channel' := by
  obtain ⟨node, items⟩ := emission
  obtain ⟨node', items'⟩ := emission'
  cases channel <;> cases channel' <;> simp [Emission.event, Channel.mode]

/-- The events that are held on the channels are those that are there. -/
private theorem mem_filterMap_onChannels (active : Active) {queue : Channel → List (Nat × Emission)} {channel : Channel}
    {emission : Emission} :
    (ticket, emission.event channel.mode) ∈ (onChannels queue).filterMap (eventBalance active).held ↔
      (ticket, emission) ∈ queue channel := by
  rw [Multiset.mem_filterMap]
  constructor
  · rintro ⟨⟨other, phase⟩, hmem, hheld⟩
    obtain ⟨channel', emission', rfl, hqueue⟩ := mem_onChannels.mp hmem
    obtain ⟨rfl, hevent⟩ := Prod.mk.inj (Option.some.inj hheld)
    obtain ⟨rfl, rfl⟩ := Emission.event_inj.mp hevent
    exact hqueue
  · exact fun hqueue => ⟨_, mem_onChannels.mpr ⟨channel, emission, rfl, hqueue⟩, rfl⟩

private theorem mem_tally_dispatched :
    (ticket, event) ∈ tally Happening.dispatched? past ↔ .started ticket .dispatcher event ∈ past :=
  mem_tally_iff fun other => by
    cases other with
    | started ticket starter event => cases starter <;> simp
    | _ => simp

/-- When deactivation has returned, an event that was put on a channel has started its run, or else it was left there.
-/
private theorem Course.started_xor_left (h : Course active .start past s) (hreturned : s.shutdown = .returned)
    {channel : Channel} {emission : Emission} (hput : .put ticket channel emission ∈ past) :
    Xor (.started ticket .dispatcher (emission.event channel.mode) ∈ past) ((ticket, emission) ∈ s.queue channel) := by
  have hquiet := h.fits.quiet hreturned
  have hevents := h.events
  rw [State.all, hquiet.tasks, hquiet.awaited, add_zero, add_zero] at hevents
  have hnodup : (tally Happening.put? past).Nodup := .of_map _ h.nodup_puts
  have hmem : (ticket, emission.event channel.mode) ∈ tally Happening.put? past := mem_tally.mpr ⟨_, hput, rfl⟩
  rw [hevents] at hnodup hmem
  have hdisjoint := (Multiset.nodup_add.mp hnodup).2.2
  rw [← mem_tally_dispatched, ← mem_filterMap_onChannels active]
  obtain hqueued | hstarted := Multiset.mem_add.mp hmem
  · exact .inr ⟨hqueued, Multiset.disjoint_left.mp hdisjoint hqueued⟩
  · exact .inl ⟨hstarted, Multiset.disjoint_right.mp hdisjoint hstarted⟩

/-- Whether a request that is answered at once starts its run is not settled by the answer. In any order in which
deactivation has returned, it has started one run, or its event was left on the channel; and there are orders for both,
since the dispatcher may see first that it was cancelled. -/
private theorem acknowledged_request_may_be_lost
    (h : active.receive request present = .ok (event, .atOnce status body)) :
    (∀ past s ticket emission, Course active .start past s → s.shutdown = .returned →
      .put ticket .requests emission ∈ past →
      Xor (.started ticket .dispatcher (emission.event .webhook) ∈ past) ((ticket, emission) ∈ s.queue .requests)) ∧
    (∃ past s, Course active .start past s ∧ s.shutdown = .returned ∧
      .put 0 .requests ⟨event.node, event.items⟩ ∈ past ∧ .started 0 .dispatcher event ∈ past) ∧
    ∃ past s, Course active .start past s ∧ s.shutdown = .returned ∧
      .put 0 .requests ⟨event.node, event.items⟩ ∈ past ∧
      ∀ ticket starter event, .started ticket starter event ∉ past := by
  have hput : Course active .start [.put 0 .requests ⟨event.node, event.items⟩]
      (State.start.put .requests ⟨event.node, event.items⟩) := .step .stay (.acknowledge rfl h)
  refine ⟨fun past s ticket emission hcourse hreturned hmem => hcourse.started_xor_left hreturned hmem, ?_, ?_⟩
  · have hevent : (⟨event.node, event.items⟩ : Emission).event .webhook = event := by
      rw [Emission.event, ← (receive_ok h).1]
    have hyields := World.yields_alone (active.runFor ((⟨event.node, event.items⟩ : Emission).event .webhook)) .never
      Engine.quietWorld
    have hqueue : (State.start.put .requests ⟨event.node, event.items⟩).queue .requests =
        [(0, ⟨event.node, event.items⟩)] := rfl
    obtain ⟨happenings, hstarted, -, hserved⟩ := hput.serves rfl hqueue hyields
    exact ⟨_, _, hserved.deactivates rfl rfl rfl rfl, rfl, by simp, List.mem_append_right _ (hevent ▸ hstarted)⟩
  · exact ⟨_, _, hput.deactivates rfl rfl rfl rfl, rfl, by simp, by simp⟩

theorem acknowledged_request_may_be_lost_lively :
    lively.receive ⟨"POST", "a", [], [], .null⟩ ⟨0, 0, 0⟩ = .ok (⟨"A", [default], .webhook⟩, .atOnce 200 .null) ∧
    ∃ past s, Course lively .start past s ∧ s.shutdown = .returned ∧ .put 0 .requests ⟨"A", [default]⟩ ∈ past ∧
      ∀ ticket starter event, .started ticket starter event ∉ past := by
  have hreceive : lively.receive ⟨"POST", "a", [], [], .null⟩ ⟨0, 0, 0⟩ =
      .ok (⟨"A", [default], .webhook⟩, .atOnce 200 .null) := rfl
  exact ⟨hreceive, (acknowledged_request_may_be_lost hreceive).2.2⟩

end FlowEngine.Dispatch
