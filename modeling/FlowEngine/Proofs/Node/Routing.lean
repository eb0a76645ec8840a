import FlowEngine.Node.If
import FlowEngine.Proofs.Node.Items
import FlowEngine.Proofs.Param.Blame
import Mathlib.Data.List.Perm.Basic

/-! Routing items by conditions. Every item goes to one of two outputs, in the order of the input, as its own conditions
say. What fails on the way goes to the second output as an item that stands for the failure, or ends the node there. -/
namespace FlowEngine

/-! Walking through tests until one of them settles the answer. -/

section
variable {ε α : Type} {test : α → Except ε Bool} {l : List α} {stop : Bool} {result : Except ε Bool}

/-- Tests are tried one after another until one comes out as `stop` says. A test that fails counts only if none before it
has come out so. -/
inductive Settles (stop : Bool) (test : α → Except ε Bool) : List α → Except ε Bool → Prop where
  | through {l : List α} : (∀ a ∈ l, test a = .ok (!stop)) → Settles stop test l (.ok (!stop))
  | stopped (before : List α) {a : α} {after : List α} : (∀ b ∈ before, test b = .ok (!stop)) → test a = .ok stop →
      Settles stop test (before ++ a :: after) (.ok stop)
  | failed (before : List α) {a : α} {after : List α} {e : ε} : (∀ b ∈ before, test b = .ok (!stop)) →
      test a = .error e → Settles stop test (before ++ a :: after) (.error e)

private theorem settles_nil_iff : Settles stop test [] result ↔ result = .ok (!stop) := by
  constructor
  · intro h
    generalize hl : [] = whole at h
    cases h with
    | through => rfl
    | stopped before => cases before <;> cases hl
    | failed before => cases before <;> cases hl
  · rintro rfl
    exact .through (List.forall_mem_nil _)

private theorem settles_cons_iff {a : α} : Settles stop test (a :: l) result ↔
    test a = .ok (!stop) ∧ Settles stop test l result ∨ test a = .ok stop ∧ result = .ok stop ∨
      ∃ e, test a = .error e ∧ result = .error e := by
  constructor
  · intro h
    generalize hl : a :: l = whole at h
    cases h with
    | through hall =>
      obtain ⟨ha, hrest⟩ := List.forall_mem_cons.mp (hl ▸ hall)
      exact .inl ⟨ha, .through hrest⟩
    | stopped before hbefore hstop =>
      cases before with
      | nil =>
        obtain ⟨rfl, rfl⟩ := List.cons.inj hl
        exact .inr (.inl ⟨hstop, rfl⟩)
      | cons b before =>
        obtain ⟨rfl, rfl⟩ := List.cons.inj hl
        obtain ⟨ha, hrest⟩ := List.forall_mem_cons.mp hbefore
        exact .inl ⟨ha, .stopped before hrest hstop⟩
    | @failed before _ _ e hbefore hfail =>
      cases before with
      | nil =>
        obtain ⟨rfl, rfl⟩ := List.cons.inj hl
        exact .inr (.inr ⟨e, hfail, rfl⟩)
      | cons b before =>
        obtain ⟨rfl, rfl⟩ := List.cons.inj hl
        obtain ⟨ha, hrest⟩ := List.forall_mem_cons.mp hbefore
        exact .inl ⟨ha, .failed before hrest hfail⟩
  · rintro (⟨ha, h⟩ | ⟨ha, rfl⟩ | ⟨e, ha, rfl⟩)
    · cases h with
      | through hall => exact .through (List.forall_mem_cons.mpr ⟨ha, hall⟩)
      | stopped before hbefore hstop => exact .stopped (a :: before) (List.forall_mem_cons.mpr ⟨ha, hbefore⟩) hstop
      | failed before hbefore hfail => exact .failed (a :: before) (List.forall_mem_cons.mpr ⟨ha, hbefore⟩) hfail
    · exact .stopped [] (List.forall_mem_nil _) ha
    · exact .failed [] (List.forall_mem_nil _) ha

/-- Looking for one test that holds. -/
private theorem anyM_eq_iff : l.anyM test = result ↔ Settles true test l result := by
  induction l with
  | nil =>
    rw [settles_nil_iff]
    exact eq_comm
  | cons a l ih =>
    rw [List.anyM, settles_cons_iff, ← ih]
    cases test a with
    | error e => simp [bind, Except.bind, eq_comm]
    | ok answer => cases answer <;> simp [bind, Except.bind, pure, Except.pure, eq_comm]

/-- Looking for one test that does not hold. -/
private theorem allM_eq_iff : l.allM test = result ↔ Settles false test l result := by
  induction l with
  | nil =>
    rw [settles_nil_iff]
    exact eq_comm
  | cons a l ih =>
    rw [List.allM, settles_cons_iff, ← ih]
    cases test a with
    | error e => simp [bind, Except.bind, eq_comm]
    | ok answer => cases answer <;> simp [bind, Except.bind, pure, Except.pure, eq_comm]

end

/-! Splitting a list in two. -/

section
variable {γ : Type} {entries : List (Bool × γ)} {accepted : Bool}

def placesOf (accepted : Bool) (entries : List (Bool × γ)) : List Nat :=
  (entries.zipIdx.filter fun entry => entry.1.1 == accepted).map (·.2)

private theorem pairwise_placesOf : (placesOf accepted entries).Pairwise (· < ·) := by
  have hall : (entries.zipIdx.map (·.2)).Pairwise (· < ·) := by
    rw [List.zipIdx_map_snd]
    exact List.pairwise_lt_range'
  exact hall.sublist (List.filter_sublist.map _)

/-- Every place is one of an entry of the one kind or of the other. -/
private theorem perm_placesOf : (placesOf true entries ++ placesOf false entries).Perm (List.range entries.length) := by
  have hrange : List.range entries.length = entries.zipIdx.map (·.2) := by
    rw [List.zipIdx_map_snd, List.range_eq_range']
  rw [hrange, placesOf, placesOf, ← List.map_append]
  refine List.Perm.map _ ?_
  have hsplit := List.filter_append_perm (fun entry : (Bool × γ) × Nat => entry.1.1 == true) entries.zipIdx
  have hother : entries.zipIdx.filter (fun entry => entry.1.1 == false) =
      entries.zipIdx.filter fun entry => !(entry.1.1 == true) :=
    List.filter_congr fun entry _ => by cases entry.1.1 <;> rfl
  rwa [hother]

/-- The entries of one kind, with their places. -/
private theorem forall₂_placesOf :
    List.Forall₂ (fun index made => entries[index]? = some (accepted, made)) (placesOf accepted entries)
      ((entries.filter (·.1 == accepted)).map (·.2)) := by
  have hentries : entries.filter (·.1 == accepted) =
      (entries.zipIdx.filter fun entry => entry.1.1 == accepted).map (·.1) := by
    conv_lhs => rw [← List.zipIdx_map_fst 0 entries]
    rw [List.filter_map]
    rfl
  rw [placesOf, hentries, List.map_map, List.forall₂_map_left_iff, List.forall₂_map_right_iff]
  refine List.forall₂_same.mpr fun entry hentry => ?_
  obtain ⟨hmem, hkind⟩ := List.mem_filter.mp hentry
  rw [List.mem_zipIdx_iff_getElem?.mp hmem, ← beq_iff_eq.mp hkind]
  rfl

end

namespace Node
variable {context : Context} {settings : IfSettings} {index : Nat} {failure : Failure} {cause : Breakdown} {accepted : Bool}

def Context.holds (context : Context) (settings : IfSettings) (condition : Condition) : Except String Bool :=
  condition.holds context.services.languages.pattern settings.ignoreCase

/-- The conditions of an item come out one way. -/
def Decides (context : Context) (index : Nat) (accepted : Bool) : Prop :=
  ∃ settings, context.settings IfSettings.read index = .ok settings ∧
    Settles settings.any (context.holds settings) settings.conditions (.ok accepted)

/-- The parameters of an item cannot be resolved or read, or one of its conditions cannot be evaluated. -/
def Undecided (context : Context) (index : Nat) (failure : Failure) : Prop :=
  context.settings IfSettings.read index = .error (.failed failure) ∨
    ∃ settings message, context.settings IfSettings.read index = .ok settings ∧
      Settles settings.any (context.holds settings) settings.conditions (.error message) ∧
      failure = context.failure message index

private theorem accepts_eq_iff {result : Except String Bool} :
    settings.accepts context.services.languages.pattern = result ↔
      Settles settings.any (context.holds settings) settings.conditions result := by
  rw [IfSettings.accepts]
  cases settings.any with
  | true => exact anyM_eq_iff
  | false => exact allM_eq_iff

private theorem decide_eq_ok_iff : decide context index = .ok accepted ↔ Decides context index accepted := by
  rw [decide, bind_eq_ok_iff]
  refine exists_congr fun settings => and_congr_right fun _ => ?_
  rw [← accepts_eq_iff]
  cases settings.accepts context.services.languages.pattern with
  | ok other => simp [pure, Except.pure]
  | error message => simp [Context.refuse, throw, throwThe, MonadExceptOf.throw]

private theorem decide_eq_failed_iff :
    decide context index = .error (.failed failure) ↔ Undecided context index failure := by
  rw [decide, Undecided]
  cases context.settings IfSettings.read index with
  | error setback => simp [bind, Except.bind]
  | ok settings =>
    simp only [← accepts_eq_iff]
    cases haccepts : settings.accepts context.services.languages.pattern with
    | ok other => simp [bind, Except.bind, haccepts, pure, Except.pure]
    | error message =>
      simp [bind, Except.bind, haccepts, Context.refuse, throw, throwThe, MonadExceptOf.throw, eq_comm]

private theorem decide_eq_broken_iff :
    decide context index = .error (.broken cause) ↔ context.BreaksDown index cause := by
  rw [← Context.settings_eq_broken_iff IfSettings.read, decide]
  cases context.settings IfSettings.read index with
  | error setback => simp [bind, Except.bind]
  | ok settings =>
    cases haccepts : settings.accepts context.services.languages.pattern <;>
      simp [bind, Except.bind, haccepts, Context.refuse, throw, throwThe, MonadExceptOf.throw, pure, Except.pure]

/-- An undecided item is what its failure is about. -/
private theorem Undecided.itemIndex (h : Undecided context index failure) : failure.itemIndex = some index := by
  rcases h with hsettings | ⟨_, _, -, -, rfl⟩
  · exact Context.itemIndex_of_settings hsettings
  · rfl

def sent (context : Context) (item : Item) (index : Nat) : Except Setback (Bool × Item) :=
  (decide context index).map fun accepted => (accepted, item.pairedWith index)

theorem routed_eq : routed context = (context.input 0).zipIdx.mapM (context.make (false, ·) (sent context)) := rfl

private theorem sent_eq_ok_iff {item out : Item} : sent context item index = .ok (accepted, out) ↔
    Decides context index accepted ∧ out = item.pairedWith index := by
  rw [sent, map_eq_ok_iff, ← decide_eq_ok_iff]
  constructor
  · rintro ⟨_, hdecided, ⟨⟩⟩
    exact ⟨hdecided, rfl⟩
  · rintro ⟨hdecided, rfl⟩
    exact ⟨accepted, hdecided, rfl⟩

private theorem sent_eq_error_iff {item : Item} {setback : Setback} :
    sent context item index = .error setback ↔ decide context index = .error setback := by
  rw [sent]
  cases decide context index <;> simp [Except.map]

theorem sent_eq_failed_iff (item : Item) (index : Nat) (failure : Failure) :
    sent context item index = .error (.failed failure) ↔ Undecided context index failure :=
  sent_eq_error_iff.trans decide_eq_failed_iff

theorem sent_eq_broken_iff (item : Item) (index : Nat) (cause : Breakdown) :
    sent context item index = .error (.broken cause) ↔ context.BreaksDown index cause :=
  sent_eq_error_iff.trans decide_eq_broken_iff

theorem ifItems_eq_ok_iff {output : Output} : ifItems context = .ok output ↔ ∃ entries, routed context = .ok entries ∧
    output = [(entries.filter (·.1 == true)).map (·.2), (entries.filter (·.1 == false)).map (·.2)] := by
  rw [ifItems, bind_eq_ok_iff]
  refine exists_congr fun entries => and_congr_right fun _ => ?_
  have htrue : entries.filter (·.1) = entries.filter (·.1 == true) :=
    List.filter_congr fun entry _ => by cases entry.1 <;> rfl
  have hfalse : entries.filter (fun entry => !entry.1) = entries.filter (·.1 == false) :=
    List.filter_congr fun entry _ => by cases entry.1 <;> rfl
  rw [htrue, hfalse]
  simp only [pure, Except.pure, Except.ok.injEq, eq_comm]

theorem ifItems_eq_error_iff {setback : Setback} :
    ifItems context = .error setback ↔ routed context = .error setback := by
  rw [ifItems]
  cases routed context <;> simp [bind, Except.bind, pure, Except.pure]

private theorem exists_ifItems_eq_ok_iff : (∃ output, ifItems context = .ok output) ↔
    ∀ index < (context.input 0).length, (∀ cause, ¬ context.BreaksDown index cause) ∧
      (context.node.continueOnFail = false → ∀ failure, ¬ Undecided context index failure) := by
  simp only [ifItems_eq_ok_iff, routed_eq]
  rw [← exists_mapM_make_eq_ok_iff sent_eq_failed_iff sent_eq_broken_iff]
  exact ⟨fun ⟨_, entries, hentries, _⟩ => ⟨entries, hentries⟩, fun ⟨entries, hentries⟩ => ⟨_, entries, hentries, rfl⟩⟩

/-- What becomes of an entry that was routed: it went its way, or its failure took its place on the second one. -/
theorem of_routed {entries : List (Bool × Item)} {out : Item} (h : routed context = .ok entries)
    (hentry : entries[index]? = some (accepted, out)) :
    out.pairedItem = some ⟨index, 0⟩ ∧ ∃ item, (context.input 0)[index]? = some item ∧
      (Decides context index accepted ∧ out = item.pairedWith index ∨
        accepted = false ∧ context.node.continueOnFail = true ∧
          ∃ failure, Undecided context index failure ∧ out = errorItem context.node.name failure index) := by
  rw [routed_eq] at h
  obtain ⟨hlength, hmade⟩ := made_of_mapM h
  have hindex : index < (context.input 0).length := hlength ▸ (List.getElem?_eq_some_iff.mp hentry).1
  have hitem := List.getElem?_eq_getElem hindex
  obtain ⟨made, hthere, hmade⟩ := hmade index _ hitem
  obtain rfl := Option.some.inj (hentry.symm.trans hthere)
  rcases hmade with hsent | ⟨hcontinues, failure, hfailed, hstands⟩
  · obtain ⟨hdecides, rfl⟩ := sent_eq_ok_iff.mp hsent
    exact ⟨rfl, _, hitem, .inl ⟨hdecides, rfl⟩⟩
  · obtain ⟨rfl, rfl⟩ := Prod.mk.inj hstands
    exact ⟨rfl, _, hitem, .inr ⟨rfl, hcontinues, failure, (sent_eq_failed_iff _ _ _).mp hfailed, rfl⟩⟩

/-- Items are split in two and none is lost, put in twice or moved. Where the node comes to an output, that has two
batches, and the places of their items in the input, to which they are linked, ascend in each and are all the places
together. On the first one are items whose conditions come out true, on the second one items whose conditions come out
false, unchanged but for the link, and items that stand for failures where the node goes on. The node comes to an output
unless an expression breaks down, or an item is undecided and the node stops. It fails just if it stops and some item is
undecided, before an expression breaks down; it fails as the first such item does, and the failure names that item. -/
theorem every_item_is_routed_once (context : Context) :
    (∀ output, ifItems context = .ok output → ∃ (met unmet : Batch) (metPlaces unmetPlaces : List Nat),
      output = [met, unmet] ∧ metPlaces.Pairwise (· < ·) ∧ unmetPlaces.Pairwise (· < ·) ∧
      (metPlaces ++ unmetPlaces).Perm (List.range (context.input 0).length) ∧
      met.map (·.pairedItem) = metPlaces.map (fun index => some ⟨index, 0⟩) ∧
      unmet.map (·.pairedItem) = unmetPlaces.map (fun index => some ⟨index, 0⟩) ∧
      List.Forall₂ (fun index out => Decides context index true ∧
        ∃ item, (context.input 0)[index]? = some item ∧ out = item.pairedWith index) metPlaces met ∧
      List.Forall₂ (fun index out => (Decides context index false ∧
          ∃ item, (context.input 0)[index]? = some item ∧ out = item.pairedWith index) ∨
        context.node.continueOnFail = true ∧
          ∃ failure, Undecided context index failure ∧ out = errorItem context.node.name failure index) unmetPlaces unmet) ∧
    ((∃ output, ifItems context = .ok output) ↔ ∀ index < (context.input 0).length,
      (∀ cause, ¬ context.BreaksDown index cause) ∧
        (context.node.continueOnFail = false → ∀ failure, ¬ Undecided context index failure)) ∧
    (context.node.continueOnFail = false → ((∃ failure, ifItems context = .error (.failed failure)) ↔
      ∃ index < (context.input 0).length, (∃ failure, Undecided context index failure) ∧
        ∀ earlier < index, ∀ cause, ¬ context.BreaksDown earlier cause)) ∧
    ∀ failure, ifItems context = .error (.failed failure) → context.node.continueOnFail = false ∧
      ∃ index < (context.input 0).length, failure.itemIndex = some index ∧ Undecided context index failure ∧
        ∀ earlier < index, ∀ other, ¬ Undecided context earlier other := by
  refine ⟨?_, exists_ifItems_eq_ok_iff, ?_, ?_⟩
  · intro output houtput
    obtain ⟨entries, hentries, rfl⟩ := ifItems_eq_ok_iff.mp houtput
    have hlength : entries.length = (context.input 0).length := by
      rw [routed_eq] at hentries
      exact (made_of_mapM hentries).1
    have hlinks {accepted : Bool} : ((entries.filter (·.1 == accepted)).map (·.2)).map (·.pairedItem) =
        (placesOf accepted entries).map fun index => some ⟨index, 0⟩ := by
      rw [← List.forall₂_eq_eq_eq, List.forall₂_map_left_iff, List.forall₂_map_right_iff]
      exact (forall₂_placesOf.imp fun index out hentry => (of_routed hentries hentry).1).flip
    refine ⟨_, _, placesOf true entries, placesOf false entries, rfl, pairwise_placesOf, pairwise_placesOf,
      hlength ▸ perm_placesOf, hlinks, hlinks, ?_, ?_⟩
    · refine forall₂_placesOf.imp fun index out hentry => ?_
      obtain ⟨-, item, hitem, ⟨hdecides, rfl⟩ | ⟨⟨⟩, -⟩⟩ := of_routed hentries hentry
      exact ⟨hdecides, item, hitem, rfl⟩
    · refine forall₂_placesOf.imp fun index out hentry => ?_
      obtain ⟨-, item, hitem, ⟨hdecides, rfl⟩ | ⟨-, hfailed⟩⟩ := of_routed hentries hentry
      · exact .inl ⟨hdecides, item, hitem, rfl⟩
      · exact .inr hfailed
  · intro hstops
    simp only [ifItems_eq_error_iff, routed_eq]
    exact exists_mapM_make_eq_failed_iff sent_eq_failed_iff sent_eq_broken_iff hstops
  · intro failure hfails
    rw [ifItems_eq_error_iff, routed_eq, mapM_make_eq_failed_iff sent_eq_failed_iff sent_eq_broken_iff] at hfails
    obtain ⟨hstops, index, hindex, hundecided, hbefore⟩ := hfails
    exact ⟨hstops, index, hindex, hundecided.itemIndex, hundecided, fun earlier hearlier => (hbefore earlier hearlier).1⟩

/-- Items with patterns of which the first does not match, the second cannot be read and the third matches. -/
def patternGate (continueOnFail : Bool) : Context :=
  let condition : Json := .mk [("value1", .str "ab"), ("operation", .str "regex"), ("value2", .str "={{ $json.p }}")]
  .alone ifNode { NodeDef.named "Gate" "if" with continueOnFail, parameters := [("conditions", .arr [condition])] }
    (["x", "[", "a"].map fun pattern => Item.ofFields [("p", .str pattern)])

theorem every_item_is_routed_once_patternGate :
    (∃ met unmet, ifItems (patternGate true) = .ok [met, unmet] ∧ met.map (·.pairedItem) = [some ⟨2, 0⟩] ∧
      unmet.map (·.pairedItem) = [some ⟨0, 0⟩, some ⟨1, 0⟩]) ∧
    ∃ failure, ifItems (patternGate false) = .error (.failed failure) ∧ ∃ index < 3, failure.itemIndex = some index ∧
      Undecided (patternGate false) index failure ∧
      ∀ earlier < index, ∀ other, ¬ Undecided (patternGate false) earlier other := by
  constructor
  · obtain ⟨output, houtput, hlinks⟩ : ∃ output, ifItems (patternGate true) = .ok output ∧
        (output.map (·.map (·.pairedItem)) == [[some ⟨2, 0⟩], [some ⟨0, 0⟩, some ⟨1, 0⟩]]) = true :=
      exists_eq_ok_of_any (by decide +kernel)
    obtain ⟨met, unmet, _, _, rfl, -⟩ := (every_item_is_routed_once (patternGate true)).1 output houtput
    obtain ⟨hmet, hunmet⟩ := List.cons.inj (eq_of_beq hlinks)
    exact ⟨met, unmet, houtput, hmet, (List.cons.inj hunmet).1⟩
  · obtain ⟨failure, hfails⟩ : ∃ failure, ifItems (patternGate false) = .error (.failed failure) :=
      exists_eq_failed (by decide +kernel)
    exact ⟨failure, hfails, ((every_item_is_routed_once (patternGate false)).2.2.2 failure hfails).2⟩

end Node
end FlowEngine
