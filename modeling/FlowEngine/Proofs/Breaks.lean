import FlowEngine.Proofs.Decimal.Nearest
import FlowEngine.Proofs.Run.Tries

/-! Where everything breaks down. A length of time that is too long to be held, or a point in time that is too late for
the clock, is insisted on and does not hold; nothing else is insisted on. -/
namespace FlowEngine
variable {α β : Type}

def Ask.insists : Ask → Bool
  | .insist _ => true
  | _ => false

/-- Something was insisted on and did not hold. -/
def Answered.breaks : Answered → Bool
  | ⟨.insist holds, _⟩ => !holds
  | _ => false

/-- Something that was insisted on did not hold. -/
def Transcript.Breaks (t : Transcript) : Prop := ⟨.insist false, ()⟩ ∈ t

namespace Transcript
variable {t t' : Transcript}

theorem not_breaks_nil : ¬Breaks [] := List.not_mem_nil

theorem breaks_append : Breaks (t ++ t') ↔ t.Breaks ∨ t'.Breaks := List.mem_append

theorem breaks_cons {said : Answered} : Breaks (said :: t) ↔ said.breaks = true ∨ t.Breaks := by
  refine List.mem_cons.trans (or_congr_left ⟨?_, fun h => ?_⟩)
  · rintro rfl
    rfl
  · obtain ⟨question, answer⟩ := said
    cases question with
    | insist holds =>
      cases holds with
      | false => rfl
      | true => cases h
    | _ => cases h

private theorem breaks_insist {holds : Bool} {answer : Unit} :
    Breaks (⟨.insist holds, answer⟩ :: t) ↔ holds = false ∨ t.Breaks := by
  rw [breaks_cons, Answered.breaks, Bool.not_eq_true']

/-- What is only asked breaks nothing. -/
theorem breaks_cons_of_asks {question : Ask} {answer : question.Answer} (h : question.insists = false) :
    Breaks (⟨question, answer⟩ :: t) ↔ t.Breaks := by
  rw [breaks_cons, or_iff_right]
  cases question with
  | insist => cases h
  | _ => exact Bool.false_ne_true

theorem not_breaks_pause {nanos : Nat} {cancelled : Bool} : ¬Breaks [⟨.pause nanos, cancelled⟩] := by
  simp [breaks_cons, Answered.breaks, not_breaks_nil]

private theorem breaks_timeless : t.timeless.Breaks ↔ t.Breaks := by
  rw [Breaks, timeless, List.mem_filterMap]
  constructor
  · rintro ⟨⟨question, answer⟩, hmem, hsaid⟩
    cases question with
    | insist holds =>
      cases hsaid
      exact hmem
    | pause =>
      cases answer <;> cases hsaid
    | _ => cases hsaid
  · exact fun h => ⟨_, h, rfl⟩

theorem Retimed.breaks_iff (h : t'.Retimed t) : t'.Breaks ↔ t.Breaks := by
  rw [← breaks_timeless, h.timeless, breaks_timeless]

def BreaksAfter (t before : Transcript) : Prop :=
  ¬before.Breaks ∧ ∃ after, t = before ++ ⟨.insist false, ()⟩ :: after

theorem Breaks.exists_after (h : t.Breaks) : ∃ before, t.BreaksAfter before := by
  obtain ⟨before, after, rfl, hnot⟩ := List.eq_append_cons_of_mem h
  exact ⟨before, hnot, after, rfl⟩

theorem BreaksAfter.breaks {before : Transcript} (h : t.BreaksAfter before) : t.Breaks := by
  obtain ⟨-, after, rfl⟩ := h
  exact List.mem_append_right before List.mem_cons_self

/-- What breaks first in a sequence is what breaks first in one of its parts. -/
theorem BreaksAfter.of_append {before : Transcript} (h : BreaksAfter (t ++ t') before) :
    t.BreaksAfter before ∨ ∃ before', before = t ++ before' ∧ t'.BreaksAfter before' := by
  obtain ⟨hnot, after, heq⟩ := h
  obtain ⟨rest, rfl, hrest⟩ | ⟨rest, rfl, hrest⟩ := List.append_eq_append_iff.mp heq
  · exact .inr ⟨rest, rfl, fun hbreaks => hnot (breaks_append.mpr (.inr hbreaks)), after, hrest⟩
  · cases rest with
    | nil => exact .inr ⟨[], by simp, not_breaks_nil, after, by simpa using hrest.symm⟩
    | cons said rest =>
      obtain ⟨rfl, -⟩ := List.cons.inj hrest
      exact .inl ⟨hnot, rest, rfl⟩

/-- What breaks first has been said in any part that breaks. -/
theorem BreaksAfter.subset {before : Transcript} (h : BreaksAfter (t ++ t') before) (hbreaks : t.Breaks) : before ⊆ t := by
  obtain ⟨-, after, rfl⟩ | ⟨before', rfl, hnot, -⟩ := h.of_append
  · exact List.subset_append_left before _
  · exact absurd (breaks_append.mpr (.inl hbreaks)) h.1

end Transcript

/-- Whatever is answered, nothing breaks. -/
def Activity.Sound (activity : Activity α) : Prop := ∀ t a, activity.Unfolds t a → ¬t.Breaks

namespace Activity
variable {activity : Activity α} {f : α → Activity β} {question : Ask}

theorem sound_pure {a : α} : (pure a : Activity α).Sound := by
  intro t a' h
  obtain ⟨rfl, -⟩ := unfolds_pure.mp h
  exact Transcript.not_breaks_nil

private theorem sound_request_bind {next : question.Answer → Activity β} (hquestion : question.insists = false)
    (hnext : ∀ answer, (next answer).Sound) : (request question >>= next).Sound := by
  intro t b h
  obtain ⟨answer, t', rfl, hrest⟩ := unfolds_request_bind.mp h
  rw [Transcript.breaks_cons_of_asks hquestion]
  exact hnext answer t' b hrest

private theorem Sound.bind (h : activity.Sound) (hf : ∀ a, (f a).Sound) : (activity >>= f).Sound := by
  intro t b hbind
  obtain ⟨t₁, t₂, a, rfl, hfirst, hrest⟩ := unfolds_bind.mp hbind
  exact fun hbreaks => (Transcript.breaks_append.mp hbreaks).elim (h t₁ a hfirst) (hf a t₂ b hrest)

private theorem Sound.within (h : activity.Sound) (deadline : Nat) : (activity.within deadline).Sound := by
  intro t result hwithin hbreaks
  obtain ⟨t', htimed, ⟨a, -, hdone⟩ | ⟨-, rest, a, -, hmore⟩⟩ := limited_of_within hwithin
  · exact h t' a hdone (htimed.breaks_iff.mpr hbreaks)
  · exact h _ a hmore (Transcript.breaks_append.mpr (.inl (htimed.breaks_iff.mpr hbreaks)))

end Activity

private theorem Activity.sound_await {delayed : Delayed α} : (await delayed).Sound :=
  sound_request_bind rfl fun _ => sound_pure

namespace Http
variable {nanos : Nat} {draft : Draft}

private theorem sound_send : (send draft).Sound := by
  rw [send]
  split
  · exact Activity.sound_pure
  · refine Activity.sound_request_bind ?_ fun delayed => Activity.sound_await
    rfl

theorem sound_sendWithin : (sendWithin nanos draft).Sound := by
  rw [sendWithin]
  refine Activity.sound_request_bind ?_ fun time => (sound_send.within _).bind fun outcome => ?_
  · rfl
  · cases outcome <;> exact Activity.sound_pure

end Http

namespace Action
variable {action : Action α} {f : α → Action β}

theorem sound_throw {failure : Failure} : (throw failure : Action α).run.Sound := Activity.sound_pure

private theorem sound_ofExcept {x : Except Failure α} : (ofExcept x).run.Sound := by
  cases x <;> exact Activity.sound_pure

private theorem sound_await {delayed : Delayed (Except Failure α)} : (await delayed).run.Sound := by
  intro t result h
  obtain ⟨rfl, -⟩ := unfolds_await.mp h
  rw [Transcript.breaks_cons_of_asks rfl]
  exact Transcript.not_breaks_nil

/-- An expression that breaks down is not insisted on. -/
theorem sound_ofComputation {x : Except Setback α} : (ofComputation x).run.Sound := by
  intro t result h
  obtain ⟨_, -, rfl, -⟩ | ⟨cause, -, rfl, -⟩ := unfolds_ofComputation.mp h
  · exact Transcript.not_breaks_nil
  · rw [Transcript.breaks_cons_of_asks rfl]
    exact Transcript.not_breaks_nil

theorem sound_perform_bind {question : Ask} {next : question.Answer → Action β}
    (hquestion : question.insists = false) (hnext : ∀ answer, (next answer).run.Sound) :
    (perform question >>= next).run.Sound := by
  intro t result h
  obtain ⟨answer, t', rfl, hrest⟩ := unfolds_perform_bind.mp h
  rw [Transcript.breaks_cons_of_asks hquestion]
  exact hnext answer t' result hrest

theorem sound_bind (h : action.run.Sound) (hf : ∀ a, (f a).run.Sound) : (action >>= f).run.Sound := by
  intro t result hbind
  obtain ⟨failure, hfailed, -⟩ | ⟨t₁, t₂, a, rfl, hfirst, hrest⟩ := unfolds_bind.mp hbind
  · exact h t _ hfailed
  · exact fun hbreaks => (Transcript.breaks_append.mp hbreaks).elim (h t₁ _ hfirst) (hf a t₂ result hrest)

/-- An action that insists on something breaks just if that does not hold, provided that nothing breaks behind it. -/
theorem breaks_insist_bind {holds : Bool} {next : Unit → Action β} {t : Transcript} {result : Except Failure β}
    (hnext : (next ()).run.Sound) (h : (perform (.insist holds) >>= next).run.Unfolds t result) :
    t.Breaks ↔ holds = false := by
  obtain ⟨⟨⟩, t', rfl, hrest⟩ := unfolds_perform_bind.mp h
  rw [Transcript.breaks_insist, or_iff_left (hnext t' result hrest)]

/-- What is done for the elements of a list breaks in what is done for one of them. -/
theorem exists_breaks_of_forEach {g : Nat → Action β} {index : Nat} {xs : List Nat} {t before : Transcript}
    {result : Except Failure (List β)} (h : (forEach (fun _ x => g x) index xs).run.Unfolds t result)
    (hbreaks : t.BreaksAfter before) :
    ∃ x ∈ xs, ∃ t' before' outcome, (g x).run.Unfolds t' outcome ∧ t'.BreaksAfter before' ∧ before' ⊆ before := by
  induction xs generalizing index t before result with
  | nil =>
    obtain ⟨rfl, -⟩ := unfolds_pure.mp h
    exact absurd hbreaks.breaks Transcript.not_breaks_nil
  | cons x xs ih =>
    obtain ⟨failure, hfailed, -⟩ | ⟨t₁, t₂, first, rfl, hfirst, hrest⟩ := unfolds_bind.mp h
    · exact ⟨x, List.mem_cons_self, t, before, _, hfailed, hbreaks, List.Subset.refl before⟩
    obtain hhere | ⟨before', rfl, hthere⟩ := hbreaks.of_append
    · exact ⟨x, List.mem_cons_self, t₁, before, _, hfirst, hhere, List.Subset.refl before⟩
    · obtain ⟨later, hlater, -⟩ := unfolds_bind_pure.mp hrest
      obtain ⟨x', hmem, t', before'', outcome, hx', hbreaks', hsub⟩ := ih hlater hthere
      exact ⟨x', List.mem_cons_of_mem x hmem, t', before'', outcome, hx', hbreaks',
        List.Subset.trans hsub (List.subset_append_right t₁ before')⟩

/-- If all goes well, something is done for each element of a list. -/
theorem unfolds_of_forEach {g : Nat → Action β} {index : Nat} {xs : List Nat} {t : Transcript} {ys : List β}
    (h : (forEach (fun _ x => g x) index xs).run.Unfolds t (.ok ys)) :
    ∀ x ∈ xs, ∃ t' outcome, t' ⊆ t ∧ (g x).run.Unfolds t' outcome := by
  induction xs generalizing index t ys with
  | nil => exact List.forall_mem_nil _
  | cons x xs ih =>
    obtain ⟨_, -, ⟨⟩⟩ | ⟨t₁, t₂, first, rfl, hfirst, hrest⟩ := unfolds_bind.mp h
    obtain ⟨_ | later, hlater, heq⟩ := unfolds_bind_pure.mp hrest
    · cases heq
    refine List.forall_mem_cons.mpr ⟨⟨t₁, _, List.subset_append_left t₁ t₂, hfirst⟩, fun x' hmem => ?_⟩
    obtain ⟨t', outcome, hsub, hx'⟩ := ih hlater x' hmem
    exact ⟨t', outcome, List.Subset.trans hsub (List.subset_append_right t₁ t₂), hx'⟩

end Action

/-! Lengths of time. -/

private theorem Decimal.roundDiv_one (n : Nat) : roundDiv n 1 = n := by
  simp [roundDiv, Nat.mod_one, compare, compareOfLessAndEq]

private theorem Decimal.roundDiv_le (n d : Nat) : roundDiv n d ≤ n / d + 1 := by
  rw [roundDiv]
  split
  · omega
  · omega
  · split <;> omega

/-- A number of seconds can be held just if it is below `2 ^ 64`. -/
theorem Time.lengthLimit_le_nanosOfFloat_iff {seconds : Float} :
    lengthLimit ≤ nanosOfFloat seconds ↔ 2 ^ 64 ≤ |Binary64.value seconds| := by
  have hsmall := Binary64.parts_m_lt seconds
  rw [Binary64.abs_value, nanosOfFloat, lengthLimit, nanosOfSeconds]
  generalize (Binary64.parts seconds).m = m at hsmall
  by_cases hq : 0 ≤ (Binary64.parts seconds).q
  · obtain ⟨k, hk⟩ := Int.eq_ofNat_of_zero_le hq
    rw [hk, show (-(k : Int)).toNat = 0 by omega, pow_zero, Decimal.roundDiv_one, Int.toNat_natCast,
      Nat.mul_le_mul_right_iff (by decide), zpow_natCast]
    exact_mod_cast Iff.rfl
  · obtain ⟨k, hk⟩ : ∃ k : Nat, (Binary64.parts seconds).q = -k := ⟨(-(Binary64.parts seconds).q).toNat, by omega⟩
    rw [hk, Int.neg_neg, Int.toNat_natCast, show (-(k : Int)).toNat = 0 by omega, pow_zero, mul_one, zpow_neg, zpow_natCast]
    refine iff_of_false (Nat.not_le.mpr ?_) (not_le.mpr ?_)
    · have := Decimal.roundDiv_le (m * 1000000000) (2 ^ k)
      have := Nat.div_le_self (m * 1000000000) (2 ^ k)
      omega
    · calc (m : ℚ) * (2 ^ k)⁻¹
        _ ≤ m := mul_le_of_le_one_right (Nat.cast_nonneg m) (inv_le_one_of_one_le₀ (one_le_pow₀ one_le_two))
        _ < 2 ^ 53 := by exact_mod_cast hsmall
        _ < 2 ^ 64 := by norm_num

/-! Voice services. -/

/-- Nothing breaks in what a service does. -/
structure VoiceService.Sound (service : VoiceService) : Prop where
  place : ∀ request, (service.place request).run.Sound
  lookUp : ∀ id, (service.lookUp id).run.Sound

namespace VoiceService

theorem sound_offered : offered.Sound where
  place _ := Action.sound_perform_bind rfl fun _ => Action.sound_await
  lookUp _ := Action.sound_perform_bind rfl fun _ => Action.sound_await

private theorem sound_consult {read : Http.Url.Reader} {method address : String} {key body : Option String} :
    (consult read method address key body).run.Sound := by
  rw [consult]
  split
  · exact Action.sound_throw
  · refine Action.sound_bind (fun t result h => ?_) fun outcome => ?_
    · obtain ⟨a, hsend, -⟩ := Action.unfolds_lift.mp h
      exact Http.sound_send t a hsend
    · cases outcome with
      | ok response => exact Action.sound_ofExcept
      | error fault => exact Action.sound_throw

theorem sound_overHttp (read : Http.Url.Reader) (endpoint : String) (key : Option String) :
    (overHttp read endpoint key).Sound := by
  unfold overHttp
  constructor
  all_goals
    intro _
    dsimp only
    exact sound_consult

end VoiceService

end FlowEngine
