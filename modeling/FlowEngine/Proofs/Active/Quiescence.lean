import FlowEngine.Proofs.Active.Dispatch
import FlowEngine.Proofs.Run.Tasks

/-! What holds of an active workflow in any order of its steps. No event starts two runs, every record is published
once, and after the deactivation nothing goes on and nothing starts. -/
namespace FlowEngine.Dispatch

variable {active : Active} {s s' : State} {past happenings : List Happening} {ticket : Nat}

/-! Tickets are given once. -/

private theorem Step.issues (h : Step active s happenings s') :
    Multiset.range s.issued + tally Happening.issued? happenings = Multiset.range s'.issued := by
  cases h with
  | emit | acknowledge | await =>
    rw [tally_singleton]
    exact (add_comm _ _).trans (Multiset.range_succ _).symm
  | work _ hwork | workAwaited _ hwork => cases hwork <;> simp
  | refuse | drop | begin => simp
  | fail | take | join | leave | close | answer | deactivate | dispose | finish => simp

private theorem Course.issues (h : Course active .start past s) :
    tally Happening.issued? past = Multiset.range s.issued := by
  induction h with
  | stay => rfl
  | step _ hstep ih => rw [tally_append, ih, hstep.issues]

private theorem map_tally_le {α : Type} {kind : Happening → Option (Nat × α)} {tickets : Happening → Option Nat}
    (h : ∀ happening ticket a, kind happening = some (ticket, a) → tickets happening = some ticket) :
    (tally kind past).map Prod.fst ≤ tally tickets past := by
  induction past with
  | nil => exact le_rfl
  | cons happening past ih =>
    rw [← List.singleton_append, tally_append, tally_append, Multiset.map_add]
    refine add_le_add ?_ ih
    rw [tally_singleton, tally_singleton]
    cases hkind : kind happening with
    | none => exact Multiset.zero_le _
    | some a =>
      rw [h happening a.1 a.2 hkind]
      simp

private theorem Course.nodup_issued (h : Course active .start past s) : (tally Happening.issued? past).Nodup :=
  h.issues ▸ Multiset.nodup_range _

/-- Nothing is put on a channel under a ticket that was given before. -/
theorem Course.nodup_puts (h : Course active .start past s) : ((tally Happening.put? past).map Prod.fst).Nodup := by
  have hissued : (tally Happening.put? past).map Prod.fst ≤ tally Happening.issued? past :=
    map_tally_le fun happening _ _ hput => by
      cases happening with
      | put => simp_all
      | _ => cases hput
  exact Multiset.nodup_of_le hissued h.nodup_issued

/-- Of two runs that the dispatcher starts, each has a ticket of its own. -/
private theorem Course.nodup_dispatched (h : Course active .start past s) :
    ((tally Happening.dispatched? past).map Prod.fst).Nodup := by
  have hput : tally Happening.dispatched? past ≤ tally Happening.put? past :=
    h.events ▸ Multiset.le_add_left _ _
  exact Multiset.nodup_of_le (Multiset.map_le_map hput) h.nodup_puts

/-- No two records belong to one ticket. -/
private theorem Course.nodup_records (h : Course active .start past s) :
    ((tally Happening.record? past).map Prod.fst).Nodup := by
  have hclosed : (tally Happening.record? past).map Prod.fst ≤ tally Happening.closed? past :=
    map_tally_le fun happening _ _ hrecord => by
      cases happening with
      | executed ticket outcome => cases outcome <;> simp_all
      | _ => cases hrecord
  have hissued : tally Happening.closed? past ≤ tally Happening.issued? past :=
    h.tickets ▸ Multiset.le_add_left _ _
  exact Multiset.nodup_of_le (hclosed.trans hissued) h.nodup_issued

private theorem Course.nodup_published (h : Course active .start past s) :
    ((tally Happening.published? past).map Prod.fst).Nodup := by
  have hrecord : tally Happening.published? past ≤ tally Happening.record? past :=
    h.records ▸ Multiset.le_add_left _ _
  exact Multiset.nodup_of_le (Multiset.map_le_map hrecord) h.nodup_records

/-! Where things come from. -/

/-- A listener may emit this, or a request may leave it behind. -/
def Emits (active : Active) : Channel → Emission → Prop
  | .triggers, emission => ∃ l ∈ active.listeners, l.node = emission.node
  | .requests, emission => ∃ request present status body binding,
    active.receive request present = .ok (emission.event .webhook, .atOnce status body) ∧
    active.find? request.method request.path = some binding ∧ binding.node.name = emission.node

/-- What a request starts has the mode of requests, and starts at the node that accepts the request. -/
theorem receive_ok {request : Node.WebhookRequest} {present : Time.Stamp} {event : Event} {reply : Node.Reply}
    (h : active.receive request present = .ok (event, reply)) : event.mode = .webhook ∧
      ∃ binding, active.find? request.method request.path = some binding ∧ binding.node.name = event.node := by
  unfold Active.receive at h
  cases hfind : active.find? request.method request.path with
  | none =>
    rw [hfind] at h
    cases h
  | some binding =>
    rw [hfind] at h
    dsimp only at h
    cases hreply : binding.reply ⟨binding.node, active.definition, binding.description, present⟩ request with
    | error failure =>
      rw [hreply] at h
      cases h
    | ok replied =>
      rw [hreply] at h
      cases h
      exact ⟨rfl, binding, rfl, rfl⟩

/-- What has happened fits what is going on. -/
structure Fits (active : Active) (past : List Happening) (s : State) : Prop where
  origin : ∀ ticket channel emission, .put ticket channel emission ∈ past → Emits active channel emission
  /-- What is left of a run comes to nothing that the whole run could not come to. -/
  running : ∀ ticket rest, (ticket, .running rest) ∈ s.tasks + s.awaited →
    ∃ starter event, .started ticket starter event ∈ past ∧
      ∀ outcome, rest.Yields outcome → (active.runFor event).Yields outcome
  executed : ∀ ticket outcome, .executed ticket outcome ∈ past →
    ∃ starter event, .started ticket starter event ∈ past ∧ (active.runFor event).Yields outcome
  /-- The dispatcher loses no run that it has started. -/
  dispatched : ∀ ticket event, .started ticket .dispatcher event ∈ past →
    (∃ rest, (ticket, .running rest) ∈ s.tasks) ∨ ∃ outcome, .executed ticket outcome ∈ past
  /-- Before the deactivation, the dispatcher listens. -/
  listening : s.shutdown = .none → s.dispatcher = .listening
  drained : s.dispatcher = .ended → s.tasks = 0
  returned : s.shutdown = .returned → s.dispatcher = .ended
  /-- Nobody waits for a run once the deactivation has begun. -/
  owned : s.shutdown ≠ .none → s.awaited = 0

section
variable {phase phase' : Phase} {rest : Activity (Except Failure RunRecord)}

private theorem Step.origin (h : Step active s happenings s') {channel : Channel} {emission : Emission}
    (hput : .put ticket channel emission ∈ happenings) : Emits active channel emission := by
  cases h with
  | emit items hlistener _ =>
    cases List.mem_singleton.mp hput
    exact ⟨_, hlistener, rfl⟩
  | @acknowledge request present event status body _ hreceive =>
    cases List.mem_singleton.mp hput
    obtain ⟨hmode, binding, hfind, hnode⟩ := receive_ok hreceive
    refine ⟨request, present, status, body, binding, ?_, hfind, hnode⟩
    rw [hreceive, Emission.event, ← hmode]
  | work _ hwork | workAwaited _ hwork => cases hwork <;> simp at hput
  | _ => simp at hput

/-- What is left of a run after a step: the same as before, the whole run, or what follows an answer. -/
def LeftOver (active : Active) (before : Multiset (Nat × Phase)) (happenings : List Happening) (ticket : Nat)
    (rest : Activity (Except Failure RunRecord)) : Prop :=
  (ticket, .running rest) ∈ before ∨
    (∃ starter event, .started ticket starter event ∈ happenings ∧ rest = active.runFor event) ∨
    ∃ (question : Ask) (next : question.Answer → Activity (Except Failure RunRecord)) (answer : question.Answer),
      (ticket, .running (.ask question next)) ∈ before ∧ rest = next answer

private theorem Work.leftOver {other : Nat} {tasks : Multiset (Nat × Phase)} (h : Work ticket phase happenings phase')
    (hmem : (other, .running rest) ∈ (ticket, phase') ::ₘ tasks) :
    LeftOver active ((ticket, phase) ::ₘ tasks) happenings other rest := by
  obtain heq | hmem := Multiset.mem_cons.mp hmem
  · cases h with
    | goOn answer =>
      cases heq
      exact .inr (.inr ⟨_, _, answer, Multiset.mem_cons_self _ _, rfl⟩)
    | _ => cases heq
  · exact .inl (Multiset.mem_cons_of_mem hmem)

private theorem LeftOver.mono {before before' : Multiset (Nat × Phase)}
    (h : LeftOver active before happenings ticket rest)
    (hle : before ≤ before') : LeftOver active before' happenings ticket rest := by
  obtain hmem | hwhole | ⟨question, next, answer, hmem, hrest⟩ := h
  · exact .inl (Multiset.mem_of_le hle hmem)
  · exact .inr (.inl hwhole)
  · exact .inr (.inr ⟨question, next, answer, Multiset.mem_of_le hle hmem, hrest⟩)

private theorem Step.leftOver (h : Step active s happenings s')
    (hmem : (ticket, .running rest) ∈ s'.tasks + s'.awaited) :
    LeftOver active (s.tasks + s.awaited) happenings ticket rest := by
  cases h with
  | await =>
    simp only [Multiset.mem_add, Multiset.mem_cons, Prod.mk.injEq, Phase.running.injEq] at hmem
    obtain hmem | ⟨rfl, rfl⟩ | hmem := hmem
    · exact .inl (Multiset.mem_add.mpr (.inl hmem))
    · exact .inr (.inl ⟨.request, _, List.mem_singleton_self _, rfl⟩)
    · exact .inl (Multiset.mem_add.mpr (.inr hmem))
  | take =>
    simp only [Multiset.mem_add, Multiset.mem_cons, Prod.mk.injEq, reduceCtorEq, and_false, false_or] at hmem
    exact .inl (Multiset.mem_add.mpr hmem)
  | begin htasks =>
    simp only [Multiset.mem_add, Multiset.mem_cons, Prod.mk.injEq, Phase.running.injEq] at hmem
    obtain (⟨rfl, rfl⟩ | hmem) | hmem := hmem
    · exact .inr (.inl ⟨.dispatcher, _, List.mem_singleton_self _, rfl⟩)
    · exact .inl (by simp [htasks, hmem])
    · exact .inl (by simp [hmem])
  | join _ htasks =>
    rw [htasks]
    exact .inl (Multiset.mem_of_le (add_le_add_left (Multiset.le_cons_self _ _) _) hmem)
  | answer hawaited | drop hawaited =>
    rw [hawaited]
    exact .inl (Multiset.mem_of_le (add_le_add_right (Multiset.le_cons_self _ _) _) hmem)
  | work htasks hwork =>
    rw [htasks]
    obtain hmem | hmem := Multiset.mem_add.mp hmem
    · exact (hwork.leftOver hmem).mono (Multiset.le_add_right _ _)
    · exact .inl (Multiset.mem_add.mpr (.inr hmem))
  | workAwaited hawaited hwork =>
    rw [hawaited]
    obtain hmem | hmem := Multiset.mem_add.mp hmem
    · exact .inl (Multiset.mem_add.mpr (.inl hmem))
    · exact (hwork.leftOver hmem).mono (Multiset.le_add_left _ _)
  | _ => exact .inl hmem

/-- Execution ends where nothing is left of a run. -/
private theorem Step.executed {outcome : Except Failure RunRecord} (h : Step active s happenings s')
    (hexecuted : .executed ticket outcome ∈ happenings) : (ticket, .running (.done outcome)) ∈ s.tasks + s.awaited := by
  cases h with
  | work htasks hwork =>
    cases hwork with
    | execute =>
      cases List.mem_singleton.mp hexecuted
      simp [htasks]
    | _ => simp at hexecuted
  | workAwaited hawaited hwork =>
    cases hwork with
    | execute =>
      cases List.mem_singleton.mp hexecuted
      simp [hawaited]
    | _ => simp at hexecuted
  | _ => simp at hexecuted

/-- A run that the dispatcher starts goes on. -/
private theorem Step.dispatched {event : Event} (h : Step active s happenings s')
    (hstarted : .started ticket .dispatcher event ∈ happenings) : ∃ rest, (ticket, .running rest) ∈ s'.tasks := by
  cases h with
  | begin htasks =>
    cases List.mem_singleton.mp hstarted
    exact ⟨_, Multiset.mem_cons_self _ _⟩
  | work _ hwork | workAwaited _ hwork => cases hwork <;> simp at hstarted
  | _ => simp at hstarted

/-- A run of the dispatcher goes on until its execution is over. -/
private theorem Step.goesOn (h : Step active s happenings s') (hmem : (ticket, .running rest) ∈ s.tasks) :
    (∃ rest, (ticket, .running rest) ∈ s'.tasks) ∨ ∃ outcome, .executed ticket outcome ∈ happenings := by
  cases h with
  | take => exact .inl ⟨rest, Multiset.mem_cons_of_mem hmem⟩
  | join _ htasks =>
    simp only [htasks, Multiset.mem_cons, Prod.mk.injEq, reduceCtorEq, and_false, false_or] at hmem
    exact .inl ⟨rest, hmem⟩
  | begin htasks =>
    simp only [htasks, Multiset.mem_cons, Prod.mk.injEq, reduceCtorEq, and_false, false_or] at hmem
    exact .inl ⟨rest, Multiset.mem_cons_of_mem hmem⟩
  | work htasks hwork =>
    obtain heq | hmem := Multiset.mem_cons.mp (htasks ▸ hmem)
    · cases hwork with
      | goOn answer =>
        cases heq
        exact .inl ⟨_, Multiset.mem_cons_self _ _⟩
      | execute outcome =>
        cases heq
        exact .inr ⟨outcome, List.mem_singleton_self _⟩
      | _ => cases heq
    · exact .inl ⟨rest, Multiset.mem_cons_of_mem hmem⟩
  | _ => exact .inl ⟨rest, hmem⟩

end

private theorem fits_start : Fits active [] .start where
  origin := by simp
  running := by simp [State.start]
  executed := by simp
  dispatched := by simp
  listening _ := rfl
  drained _ := rfl
  returned h := by cases h
  owned _ := rfl

private theorem Fits.step (hfits : Fits active past s) (h : Step active s happenings s') :
    Fits active (past ++ happenings) s' where
  origin ticket channel emission hput := by
    obtain hput | hput := List.mem_append.mp hput
    · exact hfits.origin ticket channel emission hput
    · exact h.origin hput
  running ticket rest hmem := by
    obtain hbefore | ⟨starter, event, hstarted, rfl⟩ | ⟨question, next, answer, hbefore, rfl⟩ := h.leftOver hmem
    · obtain ⟨starter, event, hstarted, hyields⟩ := hfits.running ticket rest hbefore
      exact ⟨starter, event, List.mem_append_left _ hstarted, hyields⟩
    · exact ⟨starter, event, List.mem_append_right _ hstarted, fun _ hyields => hyields⟩
    · obtain ⟨starter, event, hstarted, hyields⟩ := hfits.running ticket _ hbefore
      exact ⟨starter, event, List.mem_append_left _ hstarted, fun outcome hrest => hyields outcome (.ask answer hrest)⟩
  executed ticket outcome hexecuted := by
    obtain hexecuted | hexecuted := List.mem_append.mp hexecuted
    · obtain ⟨starter, event, hstarted, hyields⟩ := hfits.executed ticket outcome hexecuted
      exact ⟨starter, event, List.mem_append_left _ hstarted, hyields⟩
    · obtain ⟨starter, event, hstarted, hyields⟩ := hfits.running ticket _ (h.executed hexecuted)
      exact ⟨starter, event, List.mem_append_left _ hstarted, hyields outcome (.done outcome)⟩
  dispatched ticket event hstarted := by
    obtain hstarted | hstarted := List.mem_append.mp hstarted
    · obtain ⟨rest, hmem⟩ | ⟨outcome, hexecuted⟩ := hfits.dispatched ticket event hstarted
      · exact (h.goesOn hmem).imp_right fun ⟨outcome, hexecuted⟩ => ⟨outcome, List.mem_append_right _ hexecuted⟩
      · exact .inr ⟨outcome, List.mem_append_left _ hexecuted⟩
    · exact .inl (h.dispatched hstarted)
  listening := by
    have hlistening := hfits.listening
    cases h <;> simp_all [State.put]
  drained := by
    have hdrained := hfits.drained
    cases h <;> simp_all [State.put]
  returned := by
    have hreturned := hfits.returned
    cases h <;> simp_all [State.put]
  owned := by
    have howned := hfits.owned
    cases h <;> simp_all [State.put]

theorem Course.fits (h : Course active .start past s) : Fits active past s := by
  induction h with
  | stay => exact fits_start
  | step _ hstep ih => exact ih.step hstep

/-! After the deactivation. -/

/-- Deactivation has returned, and nothing goes on any more. -/
structure Quiet (s : State) : Prop where
  returned : s.shutdown = .returned
  ended : s.dispatcher = .ended
  tasks : s.tasks = 0
  awaited : s.awaited = 0

theorem Fits.quiet (hfits : Fits active past s) (h : s.shutdown = .returned) : Quiet s where
  returned := h
  ended := hfits.returned h
  tasks := hfits.drained (hfits.returned h)
  awaited := hfits.owned (by rw [h]; exact nofun)

private theorem Step.quiet (hquiet : Quiet s) (h : Step active s happenings s') :
    Quiet s' ∧ ∀ ticket starter event, .started ticket starter event ∉ happenings := by
  obtain ⟨hreturned, hended, htasks, hawaited⟩ := hquiet
  cases h <;> simp_all [Quiet.mk]

private theorem Quiet.silent (hquiet : Quiet s) (h : Course active s happenings s') :
    Quiet s' ∧ ∀ ticket starter event, .started ticket starter event ∉ happenings := by
  induction h with
  | stay => exact ⟨hquiet, by simp⟩
  | step _ hstep ih =>
    obtain ⟨hquiet', hnone⟩ := hstep.quiet ih.1
    refine ⟨hquiet', fun ticket starter event hstarted => ?_⟩
    exact (List.mem_append.mp hstarted).elim (ih.2 ticket starter event) (hnone ticket starter event)

/-- A run that the dispatcher starts belongs to an event that was put on a channel. -/
private theorem Course.put_of_dispatched {event : Event} (h : Course active .start past s)
    (hstarted : .started ticket .dispatcher event ∈ past) :
    ∃ channel emission, .put ticket channel emission ∈ past ∧ event = emission.event channel.mode := by
  have hmem : (ticket, event) ∈ tally Happening.put? past := by
    rw [h.events]
    exact Multiset.mem_add.mpr (.inr (mem_tally.mpr ⟨_, hstarted, rfl⟩))
  obtain ⟨happening, hpast, hput⟩ := mem_tally.mp hmem
  cases happening with
  | put other channel emission =>
    cases hput
    exact ⟨channel, emission, hpast, rfl⟩
  | _ => cases hput

private theorem mem_tally_record {record : RunRecord} :
    (ticket, record) ∈ tally Happening.record? past ↔ .executed ticket (.ok record) ∈ past :=
  mem_tally_iff fun other => by
    cases other with
    | executed ticket outcome => cases outcome <;> simp
    | _ => simp

private theorem mem_tally_published {record : RunRecord} :
    (ticket, record) ∈ tally Happening.published? past ↔ .published ticket record ∈ past :=
  mem_tally_iff fun other => by cases other <;> simp

/-- What execution leaves is published, or the task is about to publish it. -/
private theorem Course.executed_iff {record : RunRecord} (h : Course active .start past s) :
    .executed ticket (.ok record) ∈ past ↔
      (ticket, .executed (.ok record)) ∈ s.tasks + s.awaited ∨ .published ticket record ∈ past := by
  have hheld : (ticket, record) ∈ s.all.filterMap (recordBalance active).held ↔
      (ticket, .executed (.ok record)) ∈ s.tasks + s.awaited := by
    rw [State.all, add_assoc, Multiset.filterMap_add, Multiset.mem_add, Multiset.mem_filterMap, Multiset.mem_filterMap]
    constructor
    · rintro (⟨⟨other, phase⟩, hmem, hheld⟩ | ⟨⟨other, phase⟩, hmem, hheld⟩)
      · obtain ⟨channel, emission, rfl, -⟩ := mem_onChannels.mp hmem
        cases hheld
      · cases phase with
        | executed outcome =>
          cases outcome <;> cases hheld
          exact hmem
        | _ => cases hheld
    · exact fun hmem => .inr ⟨_, hmem, rfl⟩
  rw [← mem_tally_record, ← mem_tally_published, ← hheld, ← Multiset.mem_add, h.records]

/-- What holds of an active workflow after any steps. -/
structure Orderly (active : Active) (past : List Happening) (s : State) : Prop where
  /-- Each event on a channel has a ticket of its own. -/
  puts : ((tally Happening.put? past).map Prod.fst).Nodup
  /-- No event starts two runs. -/
  dispatched : ((tally Happening.dispatched? past).map Prod.fst).Nodup
  /-- A run that the dispatcher starts has the items and the node of an emission, and the mode of its channel. -/
  origin : ∀ ticket event, .started ticket .dispatcher event ∈ past → ∃ channel emission,
    .put ticket channel emission ∈ past ∧ event = emission.event channel.mode ∧ Emits active channel emission
  /-- Execution comes to what the run that was started can come to. -/
  executed : ∀ ticket outcome, .executed ticket outcome ∈ past →
    ∃ starter event, .started ticket starter event ∈ past ∧ (active.runFor event).Yields outcome
  /-- No run publishes two records, -/
  published : ((tally Happening.published? past).map Prod.fst).Nodup
  /-- and what it publishes is the record that its execution left; until then, its task is about to publish it. -/
  records : ∀ ticket record, .executed ticket (.ok record) ∈ past ↔
    (ticket, .executed (.ok record)) ∈ s.tasks + s.awaited ∨ .published ticket record ∈ past
  /-- When deactivation has returned, no run is going on: what the dispatcher started has been executed, and what was
  executed is published. -/
  settled : s.shutdown = .returned → s.tasks = 0 ∧ s.awaited = 0 ∧
    (∀ ticket event, .started ticket .dispatcher event ∈ past → ∃ outcome, .executed ticket outcome ∈ past) ∧
    ∀ ticket record, .executed ticket (.ok record) ∈ past → .published ticket record ∈ past
  /-- From then on, whatever is emitted, no run starts. -/
  silent : s.shutdown = .returned → ∀ happenings s', Course active s happenings s' →
    s'.tasks = 0 ∧ ∀ ticket starter event, .started ticket starter event ∉ happenings

/-- In whatever order listeners emit, requests come in, runs go on and the workflow is deactivated: no event starts two
runs, every record is published once, and deactivation leaves nothing behind that goes on or could start. -/
theorem course_is_orderly (h : Course active .start past s) : Orderly active past s where
  puts := h.nodup_puts
  dispatched := h.nodup_dispatched
  origin ticket event hstarted := by
    obtain ⟨channel, emission, hput, hevent⟩ := h.put_of_dispatched hstarted
    exact ⟨channel, emission, hput, hevent, h.fits.origin ticket channel emission hput⟩
  executed := h.fits.executed
  published := h.nodup_published
  records _ _ := h.executed_iff
  settled hreturned := by
    have hquiet := h.fits.quiet hreturned
    refine ⟨hquiet.tasks, hquiet.awaited, fun ticket event hstarted => ?_, fun ticket record hexecuted => ?_⟩
    · obtain ⟨rest, hmem⟩ | hexecuted := h.fits.dispatched ticket event hstarted
      · simp [hquiet.tasks] at hmem
      · exact hexecuted
    · simpa [hquiet.tasks, hquiet.awaited] using h.executed_iff.mp hexecuted
  silent hreturned happenings s' hmore :=
    ((h.fits.quiet hreturned).silent hmore).imp_left Quiet.tasks

/-- One node that starts runs every second, and by requests to any path that it accepts. -/
def lively : Active where
  engine := Engine.smallEngine
  definition := Engine.loneNode
  listeners := [⟨"A", ⟨1000, fun _ => [default]⟩⟩]
  bindings := [⟨.named "A" "noOp", ⟨"POST", "a"⟩, fun _ _ => .ok ([default], .atOnce 200 .null),
    Node.noOp.description⟩]

def tick : Emission := ⟨"A", [default]⟩

/-- The run that the listener starts goes on to its end, and then the workflow is deactivated. -/
theorem course_is_orderly_lively : ∃ past s record, Course lively .start past s ∧ s.shutdown = .returned ∧
    .put 0 .triggers tick ∈ past ∧ .published 0 record ∈ past ∧
    (∃ starter event, .started 0 starter event ∈ past ∧ (lively.runFor event).Yields (.ok record)) ∧
    ∀ happenings s', Course lively s happenings s' →
      ∀ ticket starter event, .started ticket starter event ∉ happenings := by
  have hresult : (World.alone (lively.runFor (tick.event Channel.triggers.mode)) .never
      Engine.quietWorld).1.toOption.isSome = true := by
    decide +kernel
  have hyields := World.yields_alone (lively.runFor (tick.event Channel.triggers.mode)) .never Engine.quietWorld
  generalize (World.alone (lively.runFor (tick.event Channel.triggers.mode)) .never Engine.quietWorld).1 = outcome at *
  cases outcome with
  | error failure => cases hresult
  | ok record =>
    have hlistener : (⟨"A", ⟨1000, fun _ => [default]⟩⟩ : Listener) ∈ lively.listeners := List.mem_cons_self
    have hemitted : Course lively .start [.put 0 .triggers tick] (State.start.put .triggers tick) :=
      .step .stay (.emit [default] hlistener (by decide))
    have hqueue : (State.start.put .triggers tick).queue .triggers = [(0, tick)] := rfl
    obtain ⟨happenings, -, hexecuted, hserved⟩ := hemitted.serves rfl hqueue hyields
    have hcourse := hserved.deactivates rfl rfl rfl rfl
    have horderly := course_is_orderly hcourse
    have hpast := List.mem_append_right [.put 0 .triggers tick] hexecuted
    exact ⟨_, _, record, hcourse, rfl, List.mem_cons_self, (horderly.settled rfl).2.2.2 0 record hpast,
      horderly.executed 0 _ hpast, fun _ _ hmore => (horderly.silent rfl _ _ hmore).2⟩

end FlowEngine.Dispatch
