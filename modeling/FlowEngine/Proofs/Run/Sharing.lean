import Mathlib.Data.Multiset.AddSub
import Mathlib.Logic.Function.Basic
import FlowEngine.Proofs.Run.Visits

/-! How concurrent runs share what is stored for workflows. The table of handles is behind one lock, and the data behind
every handle behind a lock of its own. A run gets the handle of its workflow once and keeps it. While it holds the lock
of the data it may write any number of times, and between two writes all others may go on. A snapshot gets a handle in
one step and copies the data in another one. -/
namespace FlowEngine.Sharing

/-- What is stored for a workflow. -/
abbrev Data := Keyed Json

/-- What a run does from getting the lock until it gives it back. -/
structure Section where
  /-- The place in the order of all locking. -/
  turn : Nat
  run : Nat
  /-- The first write first. -/
  writes : List (Data → Data)

/-- The data after all writes of the section. -/
def Section.apply (sect : Section) (data : Data) : Data := sect.writes.foldl (fun data write => write data) data

structure Store where
  handles : Keyed Nat
  /-- The data behind the handles. -/
  cells : List Data
  /-- Who holds the lock of a handle, with the writes so far. -/
  inside : Nat → Option Section
  /-- The key and the handle of a run. -/
  runs : Nat → Option (String × Nat)
  /-- How often a lock was given. -/
  turns : Nat
  /-- Snapshots that have their handle and no copy yet. -/
  looking : Multiset (String × Nat)

namespace Store

def empty : Store := ⟨[], [], fun _ => none, fun _ => none, 0, 0⟩

/-- The handle of a workflow. The first one who asks for it makes it, with the seed for its data. -/
def handle (s : Store) (key : String) (seed : Option Data) : Nat × Store :=
  match s.handles.get? key with
  | some h => (h, s)
  | none =>
    (s.cells.length,
      { s with handles := s.handles.put key s.cells.length, cells := s.cells ++ [seed.getD []] })

/-- The data of a workflow, perhaps in the middle of a section. -/
def data? (s : Store) (key : String) : Option Data := (s.handles.get? key).bind (s.cells[·]?)

/-- The section that is going on. -/
def inside? (s : Store) (key : String) : Option Section := (s.handles.get? key).bind s.inside

end Store

/-- What happens at a step. -/
inductive Act where
  /-- A run gets its handle. -/
  | opened (run : Nat) (key : String) (seed : Option Data)
  | entered (run : Nat) (key : String) (turn : Nat)
  | wrote (run : Nat) (key : String)
  | left (key : String) (sect : Section)
  /-- A snapshot gets its handle. -/
  | looked (key : String)
  /-- A snapshot gets its copy, or learns that there is nothing. -/
  | copied (key : String) (data : Option Data)

def Act.key : Act → String
  | opened _ key _ => key
  | entered _ key _ => key
  | wrote _ key => key
  | left key _ => key
  | looked key => key
  | copied key _ => key

/-- The steps of all runs and snapshots, in any order. -/
inductive Step : Store → Act → Store → Prop where
  | get {s : Store} {run : Nat} (key : String) (seed : Option Data) : s.runs run = none →
      Step s (.opened run key seed)
        { (s.handle key seed).2 with runs := Function.update s.runs run (some (key, (s.handle key seed).1)) }
  /-- The lock is given only when nobody has it. -/
  | enter {s : Store} {run h : Nat} {key : String} : s.runs run = some (key, h) → s.inside h = none →
      Step s (.entered run key s.turns)
        { s with inside := Function.update s.inside h (some ⟨s.turns, run, []⟩), turns := s.turns + 1 }
  | write {s : Store} {h : Nat} {key : String} {sect : Section} (write : Data → Data) :
      s.runs sect.run = some (key, h) → s.inside h = some sect →
      Step s (.wrote sect.run key) { s with
        cells := s.cells.modify h write
        inside := Function.update s.inside h (some { sect with writes := sect.writes ++ [write] }) }
  /-- The lock is given back, when the section is over or its run is broken off. -/
  | leave {s : Store} {h : Nat} {key : String} {sect : Section} :
      s.runs sect.run = some (key, h) → s.inside h = some sect →
      Step s (.left key sect) { s with inside := Function.update s.inside h none }
  | miss {s : Store} {key : String} : s.handles.get? key = none → Step s (.copied key none) s
  | look {s : Store} {h : Nat} {key : String} : s.handles.get? key = some h →
      Step s (.looked key) { s with looking := (key, h) ::ₘ s.looking }
  | copy {s : Store} {h : Nat} {key : String} {looking : Multiset (String × Nat)} :
      s.looking = (key, h) ::ₘ looking → s.inside h = none → Step s (.copied key s.cells[h]?) { s with looking }

/-- Any number of steps from the empty store, with all that happens at them. -/
inductive Course : List Act → Store → Prop where
  | start : Course [] .empty
  | step {past : List Act} {s s' : Store} {act : Act} : Course past s → Step s act s' → Course (past ++ [act]) s'

/-! What a past comes to, one section after another. -/

def Act.seed? (key : String) : Act → Option (Option Data)
  | opened _ other seed => if other = key then some seed else none
  | _ => none

def Act.section? (key : String) : Act → Option Section
  | left other sect => if other = key then some sect else none
  | _ => none

/-- The turn of a lock that was given. -/
def Act.turn? : Act → Option Nat
  | entered _ _ turn => some turn
  | _ => none

/-- The sections that are over, in their order. -/
def sections (key : String) (past : List Act) : List Section := past.filterMap (Act.section? key)

/-- The first seed, changed by one section after another. Before the first seed there is nothing. -/
def serial (key : String) (past : List Act) : Option Data :=
  (past.findSome? (Act.seed? key)).map fun seed =>
    (sections key past).foldl (fun data sect => sect.apply data) (seed.getD [])

/-- What the act amounts to as one question of an activity. -/
def Act.question? : Act → Option Ask
  | opened _ key seed => some (.changeStore key fun stored => stored.getD (seed.getD []))
  | left key sect => some (.changeStore key fun stored => sect.apply (stored.getD []))
  | _ => none

/-- What is stored in a world after questions that are asked one after another. -/
def storedAfter (w : World) (questions : List Ask) : Keyed Data :=
  (questions.foldl (fun w question => (w.answer false question).2) w).stores

section
variable {s s' : Store} {act : Act} {past : List Act} {key other : String} {h : Nat} {sect : Section}

private theorem Section.apply_append {turn run : Nat} {writes : List (Data → Data)} {write : Data → Data}
    {data : Data} :
    Section.apply ⟨turn, run, writes ++ [write]⟩ data = write (Section.apply ⟨turn, run, writes⟩ data) :=
  List.foldl_append

private theorem Store.handle_of_get? {seed : Option Data} (hget : s.handles.get? key = some h) :
    s.handle key seed = (h, s) := by
  rw [handle, hget]

private theorem Store.handle_of_missing {seed : Option Data} (hget : s.handles.get? key = none) :
    s.handle key seed = (s.cells.length,
      { s with handles := s.handles.put key s.cells.length, cells := s.cells ++ [seed.getD []] }) := by
  rw [handle, hget]

/-! Handles. -/

/-- Every workflow has one handle, which all who deal with its data have. -/
structure Linked (s : Store) : Prop where
  bounded {key : String} {h : Nat} : s.handles.get? key = some h → h < s.cells.length
  apart {key key' : String} {h : Nat} : s.handles.get? key = some h → s.handles.get? key' = some h → key = key'
  runs {run : Nat} {key : String} {h : Nat} : s.runs run = some (key, h) → s.handles.get? key = some h
  looking {key : String} {h : Nat} : (key, h) ∈ s.looking → s.handles.get? key = some h
  inside {h : Nat} {sect : Section} : s.inside h = some sect → ∃ key, s.runs sect.run = some (key, h)

/-- Nobody is inside where there is no handle. -/
private theorem Linked.inside_fresh (hlinked : Linked s) : s.inside s.cells.length = none := by
  refine Option.eq_none_iff_forall_ne_some.mpr fun sect hsect => ?_
  obtain ⟨key, hrun⟩ := hlinked.inside hsect
  exact Nat.lt_irrefl _ (hlinked.bounded (hlinked.runs hrun))

private theorem Linked.handle (hlinked : Linked s) (key : String) (seed : Option Data) :
    Linked (s.handle key seed).2 ∧ (s.handle key seed).2.handles.get? key = some (s.handle key seed).1 ∧
      (s.handle key seed).2.runs = s.runs := by
  cases hget : s.handles.get? key with
  | some h =>
    rw [Store.handle_of_get? hget]
    exact ⟨hlinked, hget, rfl⟩
  | none =>
    rw [Store.handle_of_missing hget]
    refine ⟨?_, by simp [Keyed.get?_put], rfl⟩
    have hold {other : String} {h : Nat} (hother : s.handles.get? other = some h) :
        (s.handles.put key s.cells.length).get? other = some h := by
      rw [Keyed.get?_put, if_neg, hother]
      rintro rfl
      rw [hget] at hother
      cases hother
    have hnew {other : String} {h : Nat} (hother : (s.handles.put key s.cells.length).get? other = some h) :
        (other = key ∧ h = s.cells.length) ∨ s.handles.get? other = some h := by
      rw [Keyed.get?_put] at hother
      split at hother
      · rename_i heq
        exact .inl ⟨heq.symm, (Option.some.inj hother).symm⟩
      · exact .inr hother
    constructor
    · intro other h hother
      rw [List.length_append]
      rcases hnew hother with ⟨-, rfl⟩ | hother
      · exact Nat.lt_succ_self _
      · exact Nat.lt_succ_of_lt (hlinked.bounded hother)
    · intro other other' h hother hother'
      rcases hnew hother with ⟨hkey, hh⟩ | hbefore <;> rcases hnew hother' with ⟨hkey', hh'⟩ | hbefore'
      · exact hkey.trans hkey'.symm
      · exact absurd (hh ▸ hlinked.bounded hbefore') (Nat.lt_irrefl _)
      · exact absurd (hh' ▸ hlinked.bounded hbefore) (Nat.lt_irrefl _)
      · exact hlinked.apart hbefore hbefore'
    · exact fun hrun => hold (hlinked.runs hrun)
    · exact fun hlooking => hold (hlinked.looking hlooking)
    · exact hlinked.inside

private theorem Linked.step (hlinked : Linked s) (hstep : Step s act s') : Linked s' := by
  cases hstep with
  | get key seed hrun =>
    obtain ⟨hlinked', hget, hruns⟩ := hlinked.handle key seed
    refine ⟨hlinked'.bounded, hlinked'.apart, fun {run' key' h'} hrun' => ?_, hlinked'.looking, fun hsect => ?_⟩
    · simp only [Function.update_apply] at hrun'
      split at hrun'
      · cases hrun'
        exact hget
      · exact hlinked'.runs (hruns ▸ hrun')
    · obtain ⟨key', hkey'⟩ := hlinked'.inside hsect
      refine ⟨key', ?_⟩
      rw [hruns] at hkey'
      dsimp only
      rwa [Function.update_of_ne]
      rintro rfl
      rw [hrun] at hkey'
      cases hkey'
  | @enter run h key hrun hfree =>
    refine ⟨hlinked.bounded, hlinked.apart, hlinked.runs, hlinked.looking, fun {h' sect} hsect => ?_⟩
    simp only [Function.update_apply] at hsect
    split at hsect
    · rename_i heq
      cases hsect
      exact ⟨key, heq ▸ hrun⟩
    · exact hlinked.inside hsect
  | @write h key sect write hrun hinside =>
    refine ⟨fun hget => ?_, hlinked.apart, hlinked.runs, hlinked.looking, fun {h' sect'} hsect => ?_⟩
    · rw [List.length_modify]
      exact hlinked.bounded hget
    · simp only [Function.update_apply] at hsect
      split at hsect
      · rename_i heq
        cases hsect
        exact ⟨key, heq ▸ hrun⟩
      · exact hlinked.inside hsect
  | @leave h key sect hrun hinside =>
    refine ⟨hlinked.bounded, hlinked.apart, hlinked.runs, hlinked.looking, fun {h' sect'} hsect => ?_⟩
    simp only [Function.update_apply] at hsect
    split at hsect
    · cases hsect
    · exact hlinked.inside hsect
  | miss => exact hlinked
  | look hget =>
    refine ⟨hlinked.bounded, hlinked.apart, hlinked.runs, fun hmem => ?_, hlinked.inside⟩
    rcases Multiset.mem_cons.mp hmem with heq | hmem
    · cases heq
      exact hget
    · exact hlinked.looking hmem
  | copy hlooking hfree =>
    refine ⟨hlinked.bounded, hlinked.apart, hlinked.runs, fun hmem => ?_, hlinked.inside⟩
    exact hlinked.looking (hlooking ▸ Multiset.mem_cons_of_mem hmem)

private theorem Linked.empty : Linked .empty := by
  constructor <;> intros <;> contradiction

private theorem Course.linked (hcourse : Course past s) : Linked s := by
  induction hcourse with
  | start => exact .empty
  | step _ hstep ih => exact ih.step hstep

/-! What a step does to the data and the sections. -/

private theorem Store.turns_handle (s : Store) (key : String) (seed : Option Data) :
    (s.handle key seed).2.turns = s.turns := by
  rw [handle]
  cases s.handles.get? key <;> rfl

private theorem Store.data?_of_get? (hget : s.handles.get? key = some h) : s.data? key = s.cells[h]? := by
  rw [data?, hget, Option.bind_some]

private theorem Store.inside?_of_get? (hget : s.handles.get? key = some h) : s.inside? key = s.inside h := by
  rw [inside?, hget, Option.bind_some]

private theorem Linked.data?_eq_none_iff (hlinked : Linked s) : s.data? key = none ↔ s.handles.get? key = none := by
  cases hget : s.handles.get? key with
  | none => simp [Store.data?, hget]
  | some h => simp [Store.data?_of_get? hget, hlinked.bounded hget]

/-- Who asks first for a handle makes it, with the seed for the data. -/
private theorem Store.handle_data? (hlinked : Linked s) (key : String) (seed : Option Data) :
    (s.handle key seed).2.data? key = some ((s.data? key).getD (seed.getD [])) ∧
      (s.handle key seed).2.inside? key = s.inside? key := by
  cases hget : s.handles.get? key with
  | some h =>
    rw [handle_of_get? hget, data?_of_get? hget, List.getElem?_eq_getElem (hlinked.bounded hget)]
    exact ⟨rfl, rfl⟩
  | none =>
    rw [handle_of_missing hget, hlinked.data?_eq_none_iff.mpr hget]
    have hnew : (s.handles.put key s.cells.length).get? key = some s.cells.length := by simp [Keyed.get?_put]
    rw [data?_of_get? hnew, inside?_of_get? hnew, inside?, hget]
    exact ⟨by simp, hlinked.inside_fresh⟩

private theorem Store.handle_elsewhere (hlinked : Linked s) (seed : Option Data) (hne : other ≠ key) :
    (s.handle other seed).2.data? key = s.data? key ∧ (s.handle other seed).2.inside? key = s.inside? key := by
  cases hget : s.handles.get? other with
  | some h =>
    rw [handle_of_get? hget]
    exact ⟨rfl, rfl⟩
  | none =>
    rw [handle_of_missing hget]
    have hsame : (s.handles.put other s.cells.length).get? key = s.handles.get? key := by
      rw [Keyed.get?_put, if_neg hne]
    rw [data?, data?, inside?, inside?]
    dsimp only
    rw [hsame]
    refine ⟨?_, rfl⟩
    cases hkey : s.handles.get? key with
    | none => rfl
    | some h => exact List.getElem?_append_left (hlinked.bounded hkey)

/-- What happens behind one handle is not seen behind another. -/
private theorem Store.eq_of_other_handle (hhandles : s'.handles = s.handles) (hne : s.handles.get? key ≠ some h)
    (hcells : ∀ h', h' ≠ h → s'.cells[h']? = s.cells[h']?) (hinside : ∀ h', h' ≠ h → s'.inside h' = s.inside h') :
    s'.data? key = s.data? key ∧ s'.inside? key = s.inside? key := by
  rw [data?, data?, inside?, inside?, hhandles]
  cases hget : s.handles.get? key with
  | none => exact ⟨rfl, rfl⟩
  | some h' =>
    have hother : h' ≠ h := fun heq => hne (heq ▸ hget)
    exact ⟨hcells h' hother, hinside h' hother⟩

/-- A step leaves the data of all other workflows alone. -/
private theorem Step.elsewhere (hlinked : Linked s) (hstep : Step s act s') (hne : act.key ≠ key) :
    s'.data? key = s.data? key ∧ s'.inside? key = s.inside? key := by
  have hapart {run h : Nat} (hrun : s.runs run = some (act.key, h)) : s.handles.get? key ≠ some h :=
    fun hkey => hne (hlinked.apart (hlinked.runs hrun) hkey)
  cases hstep with
  | get other seed hrun => exact Store.handle_elsewhere hlinked seed hne
  | enter hrun hfree =>
    exact Store.eq_of_other_handle rfl (hapart hrun) (fun _ _ => rfl) fun _ hother => Function.update_of_ne hother _ _
  | write write hrun hinside =>
    exact Store.eq_of_other_handle rfl (hapart hrun) (fun _ hother => List.getElem?_modify_ne _ _ hother.symm)
      fun _ hother => Function.update_of_ne hother _ _
  | leave hrun hinside =>
    exact Store.eq_of_other_handle rfl (hapart hrun) (fun _ _ => rfl) fun _ hother => Function.update_of_ne hother _ _
  | miss => exact ⟨rfl, rfl⟩
  | look => exact ⟨rfl, rfl⟩
  | copy => exact ⟨rfl, rfl⟩

/-! What the past comes to, step by step. -/

private theorem sections_append : sections key (past ++ [act]) = sections key past ++ (act.section? key).toList := by
  rw [sections, List.filterMap_append, List.filterMap_cons, List.filterMap_nil]
  cases act.section? key <;> rfl

private theorem serial_append_of_none (past : List Act) (hsection : act.section? key = none)
    (hseed : act.seed? key = none) :
    sections key (past ++ [act]) = sections key past ∧ serial key (past ++ [act]) = serial key past := by
  rw [serial, serial, sections_append, hsection, List.findSome?_append, List.findSome?_cons, hseed]
  simp

/-- What happens to other workflows does not count. -/
private theorem serial_append_of_ne (hne : act.key ≠ key) :
    sections key (past ++ [act]) = sections key past ∧ serial key (past ++ [act]) = serial key past := by
  cases act with
  | opened => exact serial_append_of_none _ rfl (if_neg hne)
  | left => exact serial_append_of_none _ (if_neg hne) rfl
  | _ => exact serial_append_of_none _ rfl rfl

private theorem serial_opened {run : Nat} {seed : Option Data}
    (hempty : serial key past = none → sections key past = []) :
    serial key (past ++ [.opened run key seed]) = some ((serial key past).getD (seed.getD [])) := by
  have hsection : (Act.opened run key seed).section? key = none := rfl
  have hseed : (Act.opened run key seed).seed? key = some seed := if_pos rfl
  rw [serial] at hempty ⊢
  rw [serial, sections_append, hsection, List.findSome?_append, List.findSome?_cons, hseed]
  cases hfirst : past.findSome? (Act.seed? key) with
  | none => simp [hempty (by rw [hfirst]; rfl)]
  | some first => simp

private theorem serial_left : serial key (past ++ [.left key sect]) = (serial key past).map sect.apply := by
  have hsection : (Act.left key sect).section? key = some sect := if_pos rfl
  have hseed : (Act.left key sect).seed? key = none := rfl
  rw [serial, serial, sections_append, hsection, List.findSome?_append, List.findSome?_cons, hseed]
  cases past.findSome? (Act.seed? key) <;> simp

/-- What holds of the data after a past. -/
structure Coherent (past : List Act) (s : Store) : Prop where
  /-- The data is what the sections that are over have made of the first seed, and the one that is going on of that. -/
  data (key : String) :
    s.data? key = (serial key past).map fun data => ((s.inside? key).map (·.apply data)).getD data
  /-- Without a handle there are no sections. -/
  unopened {key : String} : s.data? key = none → sections key past = []
  /-- Sections are over in the order of locking. -/
  ordered (key : String) : (sections key past ++ (s.inside? key).toList).Pairwise (·.turn < ·.turn)
  entered {key : String} {sect : Section} : sect ∈ sections key past ++ (s.inside? key).toList →
    .entered sect.run key sect.turn ∈ past
  /-- The turns count how often the lock was given. -/
  granted : past.filterMap Act.turn? = List.range s.turns

private theorem Coherent.start : Coherent [] .empty := by
  refine ⟨fun _ => rfl, fun _ => rfl, fun _ => .nil, fun hmem => ?_, rfl⟩
  cases hmem

private theorem Coherent.turn_lt (hcoherent : Coherent past s)
    (hsect : sect ∈ sections key past ++ (s.inside? key).toList) : sect.turn < s.turns := by
  have hmem : sect.turn ∈ past.filterMap Act.turn? :=
    List.mem_filterMap.mpr ⟨_, hcoherent.entered hsect, rfl⟩
  exact List.mem_range.mp (hcoherent.granted ▸ hmem)

/-- What is left to show for a step: what it does to its own workflow. -/
private theorem Coherent.of_own (hcoherent : Coherent past s) (hlinked : Linked s) (hstep : Step s act s')
    (key : String) (hkey : act.key = key) (now : Option Section) (hinside : s'.inside? key = now)
    (hdata : s'.data? key = (serial key (past ++ [act])).map fun data => (now.map (·.apply data)).getD data)
    (hunopened : s'.data? key = none → sections key (past ++ [act]) = [])
    (hordered : (sections key (past ++ [act]) ++ now.toList).Pairwise (·.turn < ·.turn))
    (hentered : ∀ sect ∈ sections key (past ++ [act]) ++ now.toList,
      .entered sect.run key sect.turn ∈ past ++ [act])
    (hgranted : (past ++ [act]).filterMap Act.turn? = List.range s'.turns) : Coherent (past ++ [act]) s' := by
  have hother {other : String} (hne : ¬key = other) :
      s'.data? other = s.data? other ∧ s'.inside? other = s.inside? other ∧
        sections other (past ++ [act]) = sections other past ∧ serial other (past ++ [act]) = serial other past :=
    have hapart : act.key ≠ other := hkey ▸ hne
    ⟨(hstep.elsewhere hlinked hapart).1, (hstep.elsewhere hlinked hapart).2, serial_append_of_ne hapart⟩
  refine ⟨fun other => ?_, fun {other} => ?_, fun other => ?_, fun {other sect} => ?_, hgranted⟩ <;>
    by_cases hne : key = other
  · subst hne
    rwa [hinside]
  · obtain ⟨hdata', hinside', -, hserial'⟩ := hother hne
    rw [hdata', hinside', hserial']
    exact hcoherent.data other
  · subst hne
    exact hunopened
  · obtain ⟨hdata', -, hsections', -⟩ := hother hne
    rw [hdata', hsections']
    exact hcoherent.unopened
  · subst hne
    rwa [hinside]
  · obtain ⟨-, hinside', hsections', -⟩ := hother hne
    rw [hinside', hsections']
    exact hcoherent.ordered other
  · subst hne
    rw [hinside]
    exact hentered sect
  · obtain ⟨-, hinside', hsections', -⟩ := hother hne
    rw [hinside', hsections']
    exact fun hmem => List.mem_append_left _ (hcoherent.entered hmem)

private theorem granted_append_of_none (hturn : act.turn? = none) :
    (past ++ [act]).filterMap Act.turn? = past.filterMap Act.turn? := by
  rw [List.filterMap_append, List.filterMap_cons_none hturn, List.filterMap_nil, List.append_nil]

/-- A step that neither asks for a handle nor has to do with a lock. -/
private theorem Coherent.of_same (hcoherent : Coherent past s) (hlinked : Linked s) (hstep : Step s act s')
    (key : String) (hkey : act.key = key) (hturn : act.turn? = none) (hsection : act.section? key = none)
    (hseed : act.seed? key = none) (hdata : s'.data? key = s.data? key) (hinside : s'.inside? key = s.inside? key)
    (hturns : s'.turns = s.turns) : Coherent (past ++ [act]) s' := by
  obtain ⟨hsections, hserial⟩ := serial_append_of_none past hsection hseed
  apply hcoherent.of_own hlinked hstep key hkey _ hinside
  · rw [hdata, hserial]
    exact hcoherent.data key
  · rw [hdata, hsections]
    exact hcoherent.unopened
  · rw [hsections]
    exact hcoherent.ordered key
  · rw [hsections]
    exact fun sect hmem => List.mem_append_left _ (hcoherent.entered hmem)
  · rw [granted_append_of_none hturn, hturns]
    exact hcoherent.granted

private theorem Coherent.get (hcoherent : Coherent past s) (hlinked : Linked s) {run : Nat} {seed : Option Data}
    (hrun : s.runs run = none) : Coherent (past ++ [.opened run key seed])
      { (s.handle key seed).2 with runs := Function.update s.runs run (some (key, (s.handle key seed).1)) } := by
  obtain ⟨hdata, hinside⟩ := Store.handle_data? hlinked key seed
  have hsections : sections key (past ++ [.opened run key seed]) = sections key past :=
    sections_append.trans (List.append_nil _)
  have hserial : serial key (past ++ [.opened run key seed]) = some ((serial key past).getD (seed.getD [])) := by
    refine serial_opened fun hnone => hcoherent.unopened ?_
    rw [hcoherent.data, hnone, Option.map_none]
  apply hcoherent.of_own hlinked (.get key seed hrun) key rfl _ hinside
  · refine hdata.trans ?_
    rw [hserial, hcoherent.data key]
    cases hbefore : serial key past with
    | none =>
      have hnone : s.data? key = none := by rw [hcoherent.data, hbefore, Option.map_none]
      rw [Store.inside?, hlinked.data?_eq_none_iff.mp hnone]
      rfl
    | some data => rfl
  · exact fun hnone => nomatch hdata.symm.trans hnone
  · rw [hsections]
    exact hcoherent.ordered key
  · rw [hsections]
    exact fun sect hmem => List.mem_append_left _ (hcoherent.entered hmem)
  · rw [granted_append_of_none rfl, hcoherent.granted]
    exact congrArg List.range (s.turns_handle key seed).symm

private theorem Coherent.enter (hcoherent : Coherent past s) (hlinked : Linked s) {run : Nat}
    (hrun : s.runs run = some (key, h)) (hfree : s.inside h = none) :
    Coherent (past ++ [.entered run key s.turns])
      { s with inside := Function.update s.inside h (some ⟨s.turns, run, []⟩), turns := s.turns + 1 } := by
  have hget := hlinked.runs hrun
  have hbefore : s.inside? key = none := (Store.inside?_of_get? hget).trans hfree
  obtain ⟨hsections, hserial⟩ : sections key (past ++ [.entered run key s.turns]) = sections key past ∧
      serial key (past ++ [.entered run key s.turns]) = serial key past := serial_append_of_none past rfl rfl
  have hdata := hcoherent.data key
  have hordered := hcoherent.ordered key
  rw [hbefore] at hdata hordered
  rw [Option.toList_none, List.append_nil] at hordered
  apply hcoherent.of_own hlinked (.enter hrun hfree) key rfl (some ⟨s.turns, run, []⟩)
  · simp [Store.inside?, hget]
  · rw [hserial]
    exact hdata
  · rw [hsections]
    exact hcoherent.unopened
  · rw [hsections]
    refine List.pairwise_append.mpr ⟨hordered, List.pairwise_singleton _ _, fun done hdone sect hsect => ?_⟩
    rw [List.mem_singleton.mp hsect]
    exact hcoherent.turn_lt (List.mem_append_left _ hdone)
  · rw [hsections]
    intro sect hsect
    rcases List.mem_append.mp hsect with hsect | hsect
    · exact List.mem_append_left _ (hcoherent.entered (List.mem_append_left _ hsect))
    · rw [List.mem_singleton.mp hsect]
      exact List.mem_append_right _ (List.mem_singleton_self _)
  · rw [List.filterMap_append, hcoherent.granted]
    exact List.range_succ.symm

private theorem Coherent.write (hcoherent : Coherent past s) (hlinked : Linked s) (write : Data → Data)
    (hrun : s.runs sect.run = some (key, h)) (hsect : s.inside h = some sect) :
    Coherent (past ++ [.wrote sect.run key]) { s with
      cells := s.cells.modify h write
      inside := Function.update s.inside h (some { sect with writes := sect.writes ++ [write] }) } := by
  have hget := hlinked.runs hrun
  have hbefore : s.inside? key = some sect := (Store.inside?_of_get? hget).trans hsect
  obtain ⟨hsections, hserial⟩ : sections key (past ++ [.wrote sect.run key]) = sections key past ∧
      serial key (past ++ [.wrote sect.run key]) = serial key past := serial_append_of_none past rfl rfl
  have hordered := hcoherent.ordered key
  have hentered : ∀ done ∈ sections key past ++ (s.inside? key).toList, .entered done.run key done.turn ∈ past :=
    fun _ hmem => hcoherent.entered hmem
  rw [hbefore] at hordered hentered
  have hdata : Store.data? { s with
      cells := s.cells.modify h write
      inside := Function.update s.inside h (some { sect with writes := sect.writes ++ [write] }) } key =
      (s.data? key).map write := by
    simp [Store.data?, hget]
  apply hcoherent.of_own hlinked (.write write hrun hsect) key rfl (some { sect with writes := sect.writes ++ [write] })
  · simp [Store.inside?, hget]
  · rw [hdata, hserial, hcoherent.data key, hbefore, Option.map_map]
    refine congrArg (Option.map · _) (funext fun data => ?_)
    exact Section.apply_append.symm
  · rw [hdata, hsections, Option.map_eq_none_iff]
    exact hcoherent.unopened
  -- The section has the turn and the run that it had before.
  · rw [hsections]
    rw [List.pairwise_append] at hordered ⊢
    refine ⟨hordered.1, List.pairwise_singleton _ _, fun done hdone sect' hsect' => ?_⟩
    rw [List.mem_singleton.mp hsect']
    exact hordered.2.2 done hdone sect (List.mem_singleton_self _)
  · rw [hsections]
    intro sect' hsect'
    have hsame : .entered sect.run key sect.turn ∈ past :=
      hentered sect (List.mem_append_right _ (List.mem_singleton_self _))
    rcases List.mem_append.mp hsect' with hdone | hnow
    · exact List.mem_append_left _ (hentered _ (List.mem_append_left _ hdone))
    · rw [List.mem_singleton.mp hnow]
      exact List.mem_append_left _ hsame
  · rw [granted_append_of_none rfl]
    exact hcoherent.granted

private theorem Coherent.leave (hcoherent : Coherent past s) (hlinked : Linked s)
    (hrun : s.runs sect.run = some (key, h)) (hsect : s.inside h = some sect) :
    Coherent (past ++ [.left key sect]) { s with inside := Function.update s.inside h none } := by
  have hget := hlinked.runs hrun
  have hbefore : s.inside? key = some sect := (Store.inside?_of_get? hget).trans hsect
  have hsections : sections key (past ++ [.left key sect]) = sections key past ++ [sect] := by
    rw [sections_append, Act.section?, if_pos rfl, Option.toList_some]
  have hordered := hcoherent.ordered key
  have hentered : ∀ done ∈ sections key past ++ (s.inside? key).toList, .entered done.run key done.turn ∈ past :=
    fun _ hmem => hcoherent.entered hmem
  rw [hbefore] at hordered hentered
  apply hcoherent.of_own hlinked (.leave hrun hsect) key rfl none
  · simp [Store.inside?, hget]
  · refine (hcoherent.data key).trans ?_
    rw [hbefore, serial_left, Option.map_map]
    rfl
  · have hsome : s.data? key ≠ none := fun hnone => nomatch hget.symm.trans (hlinked.data?_eq_none_iff.mp hnone)
    exact fun hnone => absurd hnone hsome
  · rw [hsections, Option.toList_none, List.append_nil]
    exact hordered
  · rw [hsections, Option.toList_none, List.append_nil]
    exact fun sect' hmem => List.mem_append_left _ (hentered _ hmem)
  · rw [granted_append_of_none rfl]
    exact hcoherent.granted

private theorem Coherent.step (hcoherent : Coherent past s) (hlinked : Linked s) (hstep : Step s act s') :
    Coherent (past ++ [act]) s' := by
  cases id hstep with
  | get key seed hrun => exact hcoherent.get hlinked hrun
  | enter hrun hfree => exact hcoherent.enter hlinked hrun hfree
  | write write hrun hsect => exact hcoherent.write hlinked write hrun hsect
  | leave hrun hsect => exact hcoherent.leave hlinked hrun hsect
  | miss => exact hcoherent.of_same hlinked hstep _ rfl rfl rfl rfl rfl rfl rfl
  | look => exact hcoherent.of_same hlinked hstep _ rfl rfl rfl rfl rfl rfl rfl
  | copy => exact hcoherent.of_same hlinked hstep _ rfl rfl rfl rfl rfl rfl rfl

private theorem Course.coherent (hcourse : Course past s) : Coherent past s := by
  induction hcourse with
  | start => exact .start
  | step hcourse hstep ih => exact ih.step hcourse.linked hstep

/-! Snapshots. -/

/-- What was before a step is a course too. -/
private theorem Course.split {before after : List Act} (hcourse : Course past s)
    (hpast : past = before ++ act :: after) : ∃ s₁ s₂, Course before s₁ ∧ Step s₁ act s₂ := by
  induction hcourse generalizing after with
  | start => exact absurd hpast (by simp)
  | step hcourse hstep ih =>
    rcases List.eq_nil_or_concat after with rfl | ⟨after', last, rfl⟩
    · obtain ⟨rfl, hlast⟩ := List.append_inj' hpast rfl
      cases hlast
      exact ⟨_, _, hcourse, hstep⟩
    · rw [List.concat_eq_append, ← List.cons_append, ← List.append_assoc] at hpast
      exact ih (List.append_inj' hpast rfl).1

/-- A copy is made while nobody is inside. -/
private theorem Step.copied {seen : Option Data} (hlinked : Linked s) (hstep : Step s (.copied key seen) s') :
    seen = s.data? key ∧ s.inside? key = none := by
  cases hstep with
  | miss hget => simp [Store.data?, Store.inside?, hget]
  | @copy h _ looking hlooking hfree =>
    have hget := hlinked.looking (hlooking ▸ Multiset.mem_cons_self _ _)
    exact ⟨(Store.data?_of_get? hget).symm, (Store.inside?_of_get? hget).trans hfree⟩

private theorem Coherent.data_of_free (hcoherent : Coherent past s) (hfree : s.inside? key = none) :
    s.data? key = serial key past := by
  rw [hcoherent.data, hfree]
  exact Option.map_id'

private theorem Course.copied {before after : List Act} {seen : Option Data} (hcourse : Course past s)
    (hpast : past = before ++ .copied key seen :: after) : seen = serial key before := by
  obtain ⟨s₁, s₂, hbefore, hstep⟩ := hcourse.split hpast
  obtain ⟨rfl, hfree⟩ := hstep.copied hbefore.linked
  exact hbefore.coherent.data_of_free hfree

/-! The questions of activities, each a whole section. -/

private theorem storedAfter_append (w : World) (questions : List Ask) (change : Option Data → Data) :
    storedAfter w (questions ++ [.changeStore key change]) =
      (storedAfter w questions).put key (change ((storedAfter w questions).get? key)) := by
  rw [storedAfter, List.foldl_append]
  rfl

private theorem questions_append_of_none (hquestion : act.question? = none) :
    (past ++ [act]).filterMap Act.question? = past.filterMap Act.question? := by
  rw [List.filterMap_append, List.filterMap_cons_none hquestion, List.filterMap_nil, List.append_nil]

private theorem questions_append_of_some {question : Ask} (hquestion : act.question? = some question) :
    (past ++ [act]).filterMap Act.question? = past.filterMap Act.question? ++ [question] := by
  rw [List.filterMap_append, List.filterMap_cons_some hquestion, List.filterMap_nil]

/-- A world that answers for a whole section at once has stored what the sections one after another come to. -/
private theorem Course.storedAfter (hcourse : Course past s) (w : World) (hempty : w.stores = []) (other : String) :
    (storedAfter w (past.filterMap Act.question?)).get? other = serial other past := by
  induction hcourse generalizing other with
  | start => exact congrArg (Keyed.get? · other) hempty
  | @step past s s' act hcourse hstep ih =>
    have hcoherent := hcourse.coherent
    cases hstep with
    | @get run key seed hrun =>
      rw [questions_append_of_some rfl, storedAfter_append, Keyed.get?_put, ih]
      split
      · rename_i heq
        subst heq
        refine (serial_opened fun hnone => hcoherent.unopened ?_).symm
        rw [hcoherent.data, hnone, Option.map_none]
      · rename_i hne
        exact (ih other).trans (serial_append_of_ne (show (Act.opened run key seed).key ≠ other from hne)).2.symm
    | @leave h key sect hrun hsect =>
      rw [questions_append_of_some rfl, storedAfter_append, Keyed.get?_put, ih]
      split
      · rename_i heq
        subst heq
        have hget := hcourse.linked.runs hrun
        cases hserial : serial key past with
        | none =>
          have hnone : s.data? key = none := by rw [hcoherent.data, hserial, Option.map_none]
          exact nomatch hget.symm.trans (hcourse.linked.data?_eq_none_iff.mp hnone)
        | some data => rw [serial_left, hserial, Option.map_some, Option.getD_some]
      · rename_i hne
        exact (ih other).trans (serial_append_of_ne (show (Act.left key sect).key ≠ other from hne)).2.symm
    | _ => rw [questions_append_of_none rfl, ih, (serial_append_of_none past rfl rfl).2]

/-- What a run asks for at its start is its handle, with the data of its definition as the seed. -/
theorem opened_of_tell {engine : Engine} {definition : Definition} {seed : Option Batch} {options : RunOptions}
    {visits : List Run.Visit} {record : RunRecord} {t : Transcript}
    (htell : (engine.tell definition seed options).run.Unfolds t (.ok (visits, record))) (run : Nat) :
    ∃ executionId started question stored rest,
      (Act.opened run definition.key definition.staticData).question? = some question ∧
        t = ⟨.freshId, executionId⟩ :: ⟨.now, started⟩ :: ⟨question, stored⟩ :: rest := by
  obtain ⟨-, -, -, executionId, started, stored, -, -, -, -, -, -, -, rfl, -⟩ := Engine.goes_of_tell htell
  exact ⟨executionId, started, _, stored, _, rfl, rfl⟩

/-- The data of every workflow is at any moment what the sections have made of the first seed, one after another in the
order in which they got the lock, and the writes so far of a section that is going on. Later seeds change nothing,
copies are made between sections, and what happens to one workflow leaves the others alone. A world that answers for
whole sections has stored the same. -/
theorem sections_one_after_another (hcourse : Course past s) :
    (∀ key, s.data? key = (serial key past).map fun data => ((s.inside? key).map (·.apply data)).getD data) ∧
    (∀ key, (sections key past ++ (s.inside? key).toList).Pairwise (·.turn < ·.turn)) ∧
    (∀ key, ∀ sect ∈ sections key past ++ (s.inside? key).toList, .entered sect.run key sect.turn ∈ past) ∧
    past.filterMap Act.turn? = List.range s.turns ∧
    (∀ run key seed s', Step s (.opened run key seed) s' →
      s'.data? key = some ((s.data? key).getD (seed.getD []))) ∧
    (∀ before key seen after, past = before ++ .copied key seen :: after → seen = serial key before) ∧
    (∀ act s', Step s act s' → ∀ key, act.key ≠ key →
      s'.data? key = s.data? key ∧ serial key (past ++ [act]) = serial key past) ∧
    (∀ w : World, w.stores = [] →
      ∀ key, (storedAfter w (past.filterMap Act.question?)).get? key = serial key past) := by
  have hlinked := hcourse.linked
  have hcoherent := hcourse.coherent
  refine ⟨hcoherent.data, hcoherent.ordered, fun _ _ hmem => hcoherent.entered hmem, hcoherent.granted,
    fun run key seed s' hstep => ?_, fun _ _ _ _ hpast => hcourse.copied hpast, fun act s' hstep key hne => ?_,
    hcourse.storedAfter⟩
  · cases hstep with
    | get => exact (Store.handle_data? hlinked key seed).1
  · exact ⟨(hstep.elsewhere hlinked hne).1, (serial_append_of_ne hne).2⟩

def increment (data : Data) : Data :=
  match data.get? "n" with
  | some (.num (.int n)) => data.put "n" (.num (.int (n + 1)))
  | _ => data.put "n" (.num (.int 1))

/-- Two runs of one workflow and one of another one. The second run comes with a seed too, gets the lock first, and
counts twice before it gives it back. The copy is asked for before that. -/
def interleaved : List Act := [
  .opened 0 "wf" (some [("n", .num (.int 5))]), .opened 1 "wf" (some []), .entered 1 "wf" 0, .looked "wf",
  .wrote 1 "wf", .opened 2 "other" none, .entered 2 "other" 1, .wrote 1 "wf", .wrote 2 "other",
  .left "wf" ⟨0, 1, [increment, increment]⟩, .copied "wf" (some [("n", .num (.int 7))]), .entered 0 "wf" 2,
  .wrote 0 "wf"]

/-- When it ends, the first run has counted once and still has the lock. -/
theorem sections_one_after_another_interleaved : ∃ s, Course interleaved s ∧
    serial "wf" interleaved = some [("n", .num (.int 7))] ∧ s.data? "wf" = some [("n", .num (.int 8))] ∧
    s.data? "other" = some [("n", .num (.int 1))] := by
  have opened := ((Course.start.step (@Step.get _ 0 "wf" (some [("n", .num (.int 5))]) rfl)).step
    (@Step.get _ 1 "wf" (some []) rfl))
  have inside := (((opened.step (@Step.enter _ 1 0 "wf" rfl rfl)).step (@Step.look _ 0 "wf" rfl)).step
    (@Step.write _ 0 "wf" ⟨0, 1, []⟩ increment rfl rfl))
  have both := (((inside.step (@Step.get _ 2 "other" none rfl)).step (@Step.enter _ 2 1 "other" rfl rfl)).step
    (@Step.write _ 0 "wf" ⟨0, 1, [increment]⟩ increment rfl rfl)).step
    (@Step.write _ 1 "other" ⟨1, 2, []⟩ increment rfl rfl)
  have released := (both.step (@Step.leave _ 0 "wf" ⟨0, 1, [increment, increment]⟩ rfl rfl)).step
    (@Step.copy _ 0 "wf" 0 rfl rfl)
  have again := (released.step (@Step.enter _ 0 0 "wf" rfl rfl)).step
    (@Step.write _ 0 "wf" ⟨2, 0, []⟩ increment rfl rfl)
  have hcourse : Course interleaved _ := again
  have hdata := (sections_one_after_another hcourse).1
  exact ⟨_, hcourse, rfl, (hdata "wf").trans rfl, (hdata "other").trans rfl⟩

end

end FlowEngine.Sharing
