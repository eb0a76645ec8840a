import FlowEngine.Expr.Helper.Collection
import FlowEngine.Proofs.Expr.Scanning
import FlowEngine.Proofs.Expr.Sorting
import FlowEngine.Proofs.Json.Paths
import FlowEngine.Proofs.Json.SortOrder
import FlowEngine.Proofs.StableSort
import Mathlib.Data.List.Induction

/-! What the helper that sorts does with its arguments, and how it agrees with the method of the same name.

The helper is a stable sort wherever the order is total. A direction turns the sorted items round; but its name is taken for
a path unless it is written in small letters, and then the items are sorted by what stands there.

Objects are sorted by a field in two ways: by the helper with the field's name, and by the method with an arrow function that
gives the field. The one sorts the items by insertion, the other merges pairs of keys and items; both are stable sorts, and
of these there is one. -/
namespace FlowEngine.Helper
variable {α : Type} {order : α → α → Ordering} {le : α → α → Bool} {S : Set α} {item : α} {items : List α}

/-! Sorting by insertion. -/

/-- Held from its end, a sorted list takes an item behind those that are greater and before the first that is not. -/
private theorem exists_insertFromEnd (order : α → α → Ordering) (item : α) (sorted : List α) : ∃ greater rest,
    sorted = greater ++ rest ∧ insertFromEnd order item sorted = greater ++ item :: rest ∧
      (∀ z ∈ greater, order item z = .lt) ∧ ∀ z ∈ rest.head?, order item z ≠ .lt := by
  induction sorted with
  | nil => exact ⟨[], [], rfl, rfl, by simp, by simp⟩
  | cons last rest ih =>
    rw [insertFromEnd]
    split
    · rename_i hlast
      obtain ⟨greater, rest, rfl, hinsert, hgreater, hrest⟩ := ih
      exact ⟨last :: greater, rest, rfl, by rw [hinsert]; rfl,
        List.forall_mem_cons.mpr ⟨eq_of_beq hlast, hgreater⟩, hrest⟩
    · rename_i hlast
      exact ⟨[], last :: rest, rfl, rfl, by simp, by simpa using hlast⟩

private theorem sortedBy_concat (order : α → α → Ordering) (items : List α) (item : α) :
    sortedBy order (items ++ [item]) = (insertFromEnd order item (sortedBy order items).reverse).reverse := by
  rw [sortedBy, sortedBy, List.foldl_append, List.reverse_reverse]
  rfl

/-- By an order that is total, items are sorted and ties are kept. -/
private theorem isStableSort_sortedBy (htotal : TotalPreorderOn le S)
    (hle : ∀ a ∈ S, ∀ b ∈ S, order a b = .lt ↔ le b a = false) (hitems : ∀ a ∈ items, a ∈ S) :
    IsStableSort le S (sortedBy order items) items := by
  induction items using List.reverseRecOn with
  | nil => exact .of_length_le_one (Nat.zero_le 1)
  | append_singleton items item ih =>
    rw [List.forall_mem_append, List.forall_mem_singleton] at hitems
    have hsort := ih hitems.1
    obtain ⟨greater, rest, hsorted, hinsert, hgreater, hrest⟩ :=
      exists_insertFromEnd order item (sortedBy order items).reverse
    rw [List.reverse_eq_iff, List.reverse_append] at hsorted
    rw [sortedBy_concat, hinsert, List.reverse_append, List.reverse_cons, List.append_assoc, List.singleton_append]
    rw [hsorted] at hsort
    have hmem (z : α) (hz : z ∈ rest.reverse ++ greater.reverse) : z ∈ S := hitems.1 z (hsort.perm.mem_iff.mp hz)
    refine htotal.insert hsort hitems.2 (fun z hz => hmem z (List.mem_append_right _ hz)) (fun z hz => ?_) fun z hz => ?_
    · cases rest with
      | nil => simp at hz
      | cons last rest =>
        have hlast : le last item = true := by
          simpa [hle item hitems.2 last (hmem last (by simp))] using hrest
        rw [List.reverse_cons, List.append_assoc] at hsort
        rw [List.reverse_cons, List.mem_append, List.mem_singleton] at hz
        rcases hz with hz | rfl
        · have hbefore := (List.pairwise_append.mp hsort.ordered).2.2 z hz last (by simp)
          exact htotal.trans z (hmem z (by simp_all)) last (hmem last (by simp)) item hitems.2 hbefore hlast
        · exact hlast
    · exact (hle item hitems.2 z (hmem z (List.mem_append_right _ hz))).mp (hgreater z (List.mem_reverse.mp hz))

/-! Arguments. -/

/-- The order of two values by what is at a path in them, and without a path their own. -/
def orderAt (path : Option String) (a b : Json) : Ordering :=
  match path with
  | some path => Json.sortOrder ((a.atPath? path).getD .null) ((b.atPath? path).getD .null)
  | none => Json.sortOrder a b

private theorem sort_eq (args : List Json) :
    sort args = (arrayArg "sort" args 0).map fun items =>
      let sorted := sortedBy (orderAt (sortKey? (arg args 1))) items
      .arr (if (args.drop 1).any isDescending then sorted.reverse else sorted) := by
  rw [sort]
  cases arrayArg "sort" args 0 <;> rfl

private theorem sort_of_descending {args : List Json} (h : (args.drop 1).any isDescending = true) :
    sort args = (arrayArg "sort" args 0).map fun items => .arr (sortedBy (orderAt (sortKey? (arg args 1))) items).reverse := by
  simp only [sort_eq, h, if_true]

private theorem sort_of_not_descending {args : List Json} (h : (args.drop 1).any isDescending = false) :
    sort args = (arrayArg "sort" args 0).map fun items => .arr (sortedBy (orderAt (sortKey? (arg args 1))) items) := by
  simp only [sort_eq, h, Bool.false_eq_true, if_false]

/-- A direction behind arguments that name none turns round what they come to. -/
private theorem sort_direction {args args' : List Json} (hitems : arg args 0 = arg args' 0)
    (hkey : sortKey? (arg args 1) = sortKey? (arg args' 1)) (h : (args.drop 1).any isDescending = true)
    (h' : (args'.drop 1).any isDescending = false) : sort args = sort args' >>= fun sorted => reverse [sorted] := by
  rw [sort_of_descending h, sort_of_not_descending h', hkey, arrayArg, arrayArg, hitems]
  cases arg args' 0 <;> rfl

/-- The name of a direction is a path too, unless it is written in small letters. -/
private theorem sortKey?_of_descending {d : String} (hd : Text.sameIgnoringCase d "desc" = true) (hne : d ≠ "desc") :
    d ≠ "" ∧ sortKey? (.str d) = some d := by
  have hempty : d ≠ "" := by
    rintro rfl
    exact absurd hd (by decide)
  have hasc : d ≠ "asc" := by
    rintro rfl
    exact absurd hd (by decide)
  exact ⟨hempty, by simp [sortKey?, hempty, hasc, hne]⟩

/-- Numbers have nothing at a path, so they stay as they are when they are sorted by one. -/
private theorem orderAt_numbers {path : String} (h : path ≠ "") (m n : Nat) :
    orderAt (some path) (.ofNat m) (.ofNat n) = .eq := by
  have hnone (n : Nat) : (Json.ofNat n).atPath? path = none := by
    obtain ⟨name, names, hnames⟩ := List.exists_cons_of_ne_nil (Text.pathSegments_ne_nil path)
    rw [Json.atPath?_eq, Text.pathNames_of_ne h, hnames]
    rfl
  rw [orderAt, hnone, hnone]
  exact Json.sortOrder_self _

/-- Sorting in descending order, in whatever letters it is asked for, gives the reverse of what sorting by the same key
gives. Without a key that is so just if the direction is written in small letters: else it is taken for a path, and the
items are sorted by what stands there before they are turned round. -/
theorem descending_reverses_iff_lowercase (d : String) (hd : Text.sameIgnoringCase d "desc" = true) :
    ((∀ a, sort [a, .str d] = sort [a] >>= fun sorted => reverse [sorted]) ↔ d = "desc") ∧
      (d ≠ "desc" → ∀ items, sort [.arr items, .str d] = .ok (.arr (sortedBy (orderAt (some d)) items).reverse)) ∧
      ∀ a key, isDescending key = false → sort [a, key, .str d] = sort [a, key] >>= fun sorted => reverse [sorted] := by
  have hpath (hne : d ≠ "desc") (items : List Json) :
      sort [.arr items, .str d] = .ok (.arr (sortedBy (orderAt (some d)) items).reverse) := by
    rw [sort_of_descending (by simp [isDescending, hd]), ← (sortKey?_of_descending hd hne).2]
    rfl
  refine ⟨⟨fun h => ?_, ?_⟩, hpath, fun a key hkey => ?_⟩
  · by_contra hne
    have hnonempty := (sortKey?_of_descending hd hne).1
    have hless : Json.sortOrder (.ofNat 1) (.ofNat 2) = .lt := by decide +kernel
    have hplain : sort [.arr [.ofNat 2, .ofNat 1]] = .ok (.arr [.ofNat 1, .ofNat 2]) := by
      rw [sort_of_not_descending (by simp)]
      change Except.ok (Json.arr (sortedBy Json.sortOrder [.ofNat 2, .ofNat 1])) = _
      simp [sortedBy, insertFromEnd, hless]
    have hkeyed : sortedBy (orderAt (some d)) [.ofNat 2, .ofNat 1] = [.ofNat 2, .ofNat 1] := by
      simp [sortedBy, insertFromEnd, orderAt_numbers hnonempty]
    have hboth := h (.arr [.ofNat 2, .ofNat 1])
    rw [hpath hne, hplain, hkeyed] at hboth
    cases hboth
  · rintro rfl a
    exact sort_direction rfl rfl (by simp [isDescending, hd]) (by simp)
  · exact sort_direction rfl rfl (by simp [isDescending, hd]) (by simp [hkey])

/-- In capital letters the direction is a path, and two numbers are turned round as they stand. -/
theorem descending_reverses_iff_lowercase_capitals :
    sort [.arr [.ofNat 2, .ofNat 1], .str "DESC"] = .ok (.arr [.ofNat 1, .ofNat 2]) ∧
      ¬ (∀ a, sort [a, .str "DESC"] = sort [a] >>= fun sorted => reverse [sorted]) ∧
      sort [.null, .str "age", .str "DESC"] = sort [.null, .str "age"] >>= fun sorted => reverse [sorted] := by
  have hcapitals : Text.sameIgnoringCase "DESC" "desc" = true := by decide
  obtain ⟨hlaw, hpath, hkey⟩ := descending_reverses_iff_lowercase "DESC" hcapitals
  refine ⟨?_, fun h => absurd (hlaw.mp h) (by decide), hkey .null (.str "age") (by decide)⟩
  rw [hpath (by decide)]
  simp [sortedBy, insertFromEnd, orderAt_numbers]

end FlowEngine.Helper

namespace FlowEngine

namespace Json
variable {a b c : Json} {values : Set Json}

/-! Values among which the order is total. -/

private theorem Tangle.kinds (h : Tangle a b c) : a.kind = .string ∧ b.kind = .number := by
  cases h with
  | texts => exact ⟨rfl, rfl⟩
  | condition => exact ⟨rfl, rfl⟩

/-- Among values that are not both texts and numbers, sorting follows a total order. -/
private theorem totalPreorderOn_sortOrder (hstandard : ∀ v ∈ values, v.Standard)
    (hkinds : (∀ v ∈ values, v.kind ≠ .string) ∨ ∀ v ∈ values, v.kind ≠ .number) :
    TotalPreorderOn (fun a b => (sortOrder a b).isLE) values where
  total := fun a _ b _ => precedes_total a b
  trans := by
    have huntangled {a b c : Json} (ha : a ∈ values) (hb : b ∈ values) (h : Tangle a b c) : False :=
      hkinds.elim (fun htexts => htexts a ha h.kinds.1) fun hnumbers => hnumbers b hb h.kinds.2
    intro a ha b hb c hc hab hbc
    by_contra hac
    have hca : Precedes c a := (precedes_total c a).resolve_right hac
    have hcircle : Circle a b c := ⟨hab, hbc, hca, fun h => hac h.2.2⟩
    rcases hcircle.tangle (hstandard a ha) (hstandard b hb) (hstandard c hc) with htangle | htangle | htangle
    · exact huntangled ha hb htangle
    · exact huntangled hb hc htangle
    · exact huntangled hc ha htangle

/-- What an object has under a name is at most what another one has there. -/
def atMostBy (name : String) (a b : Json) : Bool := (sortOrder (a.field name) (b.field name)).isLE

private theorem sortOrder_eq_lt_iff : sortOrder a b = .lt ↔ (sortOrder b a).isLE = false := by
  rw [← not_precedes_iff, Precedes, Bool.not_eq_true]

end Json

namespace Expr
open Eval
variable {items : List Json} {key : Json → Eval Json} {f : Json → Json}

/-! Sorting by keys. -/

private theorem gives_mapM_keyed (hkey : ∀ item ∈ items, (key item).Gives (f item)) :
    (items.mapM fun item => do return (← key item, item)).Gives (items.map fun item => (f item, item)) := by
  induction items with
  | nil => exact gives_pure
  | cons item items ih =>
    obtain ⟨hitem, hitems⟩ := List.forall_mem_cons.mp hkey
    have hpair : (do return (← key item, item) : Eval (Json × Json)).Gives (f item, item) := hitem.bind gives_pure
    rw [List.mapM_cons]
    exact hpair.bind ((ih hitems).bind gives_pure)

/-- Where the order of the keys is total, merging pairs of keys and items comes to what insertion by the keys comes to. -/
private theorem gives_sortByKeys (hkey : ∀ item ∈ items, (key item).Gives (f item))
    (htotal : TotalPreorderOn (fun a b => (Json.sortOrder (f a) (f b)).isLE) {item | item ∈ items}) :
    (sortByKeys key items).Gives (Helper.sortedBy (fun a b => Json.sortOrder (f a) (f b)) items) := by
  let pair (item : Json) : Json × Json := (f item, item)
  let le (p q : Json × Json) : Bool := (Json.sortOrder p.1 q.1).isLE
  let after (p q : Json × Json) : Eval Bool := return Json.sortOrder p.1 q.1 == .gt
  have hafter (p q : Json × Json) : (after p q).Gives (!le p q) := by
    have hanswer : (Json.sortOrder p.1 q.1 == .gt) = !le p q := by
      dsimp only [le]
      cases Json.sortOrder p.1 q.1 <;> rfl
    rw [← hanswer]
    exact gives_pure
  have hpairs : TotalPreorderOn le (pair '' {item | item ∈ items}) := htotal.image
  have hmem : ∀ p ∈ items.map pair, p ∈ pair '' {item | item ∈ items} := fun p hp => List.mem_map.mp hp
  obtain ⟨sorted, hgives, hmerged⟩ := exists_gives_mergeSortM hpairs (fun p _ q _ => hafter p q) hmem
  have hinserted : IsStableSort (fun a b => le (pair a) (pair b)) {item | item ∈ items} _ items :=
    Helper.isStableSort_sortedBy htotal (fun _ _ _ _ => Json.sortOrder_eq_lt_iff) fun _ ha => ha
  have hsame := hpairs.sorted_unique hmem hmerged hinserted.map
  have hitems : sorted.map Prod.snd = Helper.sortedBy (fun a b => Json.sortOrder (f a) (f b)) items := by
    rw [hsame, List.map_map]
    exact List.map_id _
  rw [← hitems]
  exact (gives_mapM_keyed hkey).bind (hgives.bind gives_pure)

/-! The two expressions. -/

/-- Calls the helper that sorts: `$sort(receiver, …)`. -/
def sortCall (receiver : Expr) (args : List Json) : Expr := .call (.ident "$sort") (receiver :: args.map .literal)

/-- Sorts by a field with an arrow function: `receiver.sortBy(x => x.field, …)`. -/
def sortByField (receiver : Expr) (x field : String) (args : List Json) : Expr :=
  .method receiver "sortBy" (.lambda [x] (.member (.ident x) field false) :: args.map .literal) false

/-- The argument that names a direction, if there is one. -/
def directionArgs (direction : Option String) : List Json := direction.toList.map .str

/-- Whether a direction turns the items round. -/
def turns (direction : Option String) : Bool := direction.any (Text.sameIgnoringCase · "desc")

variable {scope : Scope} {locals : Locals} {depth : Nat} {receiver : Expr} {session session' : Session}
  {direction : Option String} {x field : String}

private theorem eval_literal {value : Json} (hdepth : depth < maxEvaluationDepth) :
    eval scope locals depth (.literal value) = pure (.json value) := by
  rw [eval.eq_def, if_neg (by omega)]

private theorem evalAll_literals (args : List Json) (hdepth : depth < maxEvaluationDepth) :
    evalAll scope locals depth (args.map .literal) = pure args := by
  induction args with
  | nil => rw [List.map_nil, evalAll]
  | cons value args ih =>
    rw [List.map_cons, evalAll, ih, eval_literal hdepth]
    rfl

private theorem any_isLambda_literals (args : List Json) : (args.map Expr.literal).any isLambda = false := by
  induction args with
  | nil => rfl
  | cons value args ih => exact ih

private theorem run_eval_sortCall {args : List Json} {value : Json} (hdepth : depth + 1 < maxEvaluationDepth)
    (hreceiver : (eval scope locals (depth + 1) receiver).run session = (.ok (.json (.arr items)), session'))
    (hsort : Helper.sort (.arr items :: args) = .ok value) :
    ((eval scope locals depth (sortCall receiver args)).run session).1 = .ok (.json value) := by
  have hcall : eval scope locals depth (sortCall receiver args) = (do
      let values ← evalAll scope locals (depth + 1) (receiver :: args.map .literal)
      return .json (← callHelper "sort" values (.unknownFunction "$sort"))) := by
    rw [sortCall, eval.eq_def, if_neg (by omega)]
    refine if_neg (c := (arrowHelpers.contains "sort" && (args.map Expr.literal).any isLambda) = true) ?_
    rw [any_isLambda_literals, Bool.and_false]
    exact Bool.false_ne_true
  have hargs : (evalAll scope locals (depth + 1) (receiver :: args.map .literal)).run session =
      (.ok (.arr items :: args), session') := by
    rw [evalAll, evalAll_literals args hdepth]
    exact (run_bind_of_ok hreceiver).trans rfl
  have hhelper : (callHelper "sort" (.arr items :: args) (.unknownFunction "$sort")).run session' =
      (.ok value, { session' with draws := session'.draws + 1 }) := by
    change (liftOutcome (Helper.sort (.arr items :: args))).run _ = _
    rw [hsort]
    rfl
  rw [hcall, run_bind_of_ok hargs, run_bind_of_ok hhelper]
  rfl

private theorem applyArrow_sortBy {call : List Json → Eval Json} :
    applyArrow "sortBy" 1 call (direction.map fun d => pure (.str d)) items =
      sortByKeys (fun item => call [item]) items >>= fun sorted =>
        pure (.arr (if turns direction then sorted.reverse else sorted)) := by
  cases direction <;> rfl

private theorem eval_field {item : Json} (hdepth : depth + 1 < maxEvaluationDepth) :
    eval scope (bind [x] [item] locals) depth (.member (.ident x) field false) = pure (.json (jsonProperty item field)) := by
  have hlookup : lookup scope (bind [x] [item] locals) x = pure (.json item) := by
    simp [lookup, bind]
  rw [eval.eq_def, if_neg (by omega)]
  dsimp only
  rw [eval.eq_def, if_neg (by omega)]
  dsimp only
  rw [hlookup]
  rfl

private theorem run_eval_sortByField {sorted : List Json} (hdepth : depth + 2 < maxEvaluationDepth)
    (hreceiver : (eval scope locals (depth + 1) receiver).run session = (.ok (.json (.arr items)), session'))
    (hsort : (sortByKeys (fun item => pure (jsonProperty item field)) items).Gives sorted) :
    ((eval scope locals depth (sortByField receiver x field (directionArgs direction))).run session).1 =
      .ok (.json (.arr (if turns direction then sorted.reverse else sorted))) := by
  have hdirection : evalFirst scope locals (depth + 1) ((directionArgs direction).map .literal) =
      direction.map fun d => pure (.str d) := by
    cases direction with
    | none => rw [directionArgs, Option.toList, List.map_nil, List.map_nil, evalFirst]; rfl
    | some d =>
      rw [directionArgs, Option.toList, List.map_cons, List.map_cons, evalFirst, eval_literal (by omega)]
      rfl
  have hkey : (fun item => callArrow scope locals (depth + 1) [x] (.member (.ident x) field false) [item]) =
      fun item => pure (jsonProperty item field) := by
    funext item
    rw [callArrow, evalValue, eval_field (by omega)]
    rfl
  have harrow : evalArrow scope locals (depth + 1) "sortBy" (.arr items)
      (.lambda [x] (.member (.ident x) field false) :: (directionArgs direction).map .literal) =
        applyArrow "sortBy" 1 (callArrow scope locals (depth + 1) [x] (.member (.ident x) field false))
          (direction.map fun d => pure (.str d)) items := by
    rw [evalArrow.eq_def, ← hdirection]
    rfl
  have hgives : (evalArrow scope locals (depth + 1) "sortBy" (.arr items)
      (.lambda [x] (.member (.ident x) field false) :: (directionArgs direction).map .literal)).Gives
        (.arr (if turns direction then sorted.reverse else sorted)) := by
    rw [harrow, applyArrow_sortBy, hkey]
    exact hsort.bind gives_pure
  have hgoes : (eval scope locals depth (sortByField receiver x field (directionArgs direction))).run session =
      (evalArrow scope locals (depth + 1) "sortBy" (.arr items)
        (.lambda [x] (.member (.ident x) field false) :: (directionArgs direction).map .literal) >>= fun value =>
          pure (.json value)).run session' := by
    rw [sortByField, eval.eq_def, if_neg (by omega)]
    exact (run_bind_of_ok hreceiver).trans rfl
  rw [hgoes]
  exact hgives.bind (f := fun value => pure (Val.json value)) gives_pure session'

/-! Fields of objects. -/

/-- The path of a name leads to the field of that name. -/
private theorem pathNames_of_isName (h : isName field = true) : Text.pathNames field = [field] := by
  have hne : field ≠ "" := by
    rintro rfl
    exact absurd h (by decide)
  have hdots : '.' ∉ field.toList := by
    intro hdot
    rw [isName] at h
    cases hchars : field.toList with
    | nil => simp [hchars] at hdot
    | cons c cs =>
      rw [hchars] at h hdot
      obtain ⟨hstart, hrest⟩ := (Bool.and_eq_true _ _).mp h
      rcases List.mem_cons.mp hdot with rfl | hmem
      · exact absurd hstart (by decide)
      · exact absurd (List.all_eq_true.mp hrest '.' hmem) (by decide)
  rw [Text.pathNames_of_ne hne]
  simpa using Text.pathSegments_intercalate (List.cons_ne_nil field []) (by simpa using hdots)

private theorem atPath?_of_isName {item : Json} (h : isName field = true) (hobject : item.isObject = true) :
    (item.atPath? field).getD .null = item.field field := by
  rw [Json.atPath?_eq, pathNames_of_isName h]
  cases item with
  | obj fields =>
    rw [Json.follow_obj_cons]
    cases h : Keyed.get? fields field <;> simp [Json.field, Json.field?, Json.fields?, h]
  | _ => cases hobject

private theorem jsonProperty_of_isObject {item : Json} (hobject : item.isObject = true) :
    jsonProperty item field = item.field field := by
  cases item with
  | obj fields => rfl
  | _ => cases hobject

private theorem field_cases (item : Json) (field : String) :
    item.field field = .null ∨ ∃ v, item.field? field = some v ∧ item.field field = v := by
  rw [Json.field]
  cases item.field? field with
  | none => exact .inl rfl
  | some v => exact .inr ⟨v, rfl, rfl⟩

private theorem standard_of_field? {item v : Json} (h : item.Standard) (hv : item.field? field = some v) :
    v.Standard := by
  cases h with
  | obj hfields => exact hfields _ (Keyed.mem_of_get? hv)
  | _ => cases hv

/-- Objects whose values under a name are all numbers or all texts have a total order by these values. -/
private theorem totalPreorderOn_field (hstandard : ∀ item ∈ items, item.Standard)
    (hkinds : (∀ item ∈ items, ∀ v, item.field? field = some v → v.kind = .number) ∨
      ∀ item ∈ items, ∀ v, item.field? field = some v → v.kind = .string) :
    TotalPreorderOn (Json.atMostBy field) {item | item ∈ items} := by
  have hkind {kind wrong : Json.Kind} (hwrong : wrong ≠ kind) (hnull : wrong ≠ .null)
      (h : ∀ item ∈ items, ∀ v, item.field? field = some v → v.kind = kind) :
      ∀ v ∈ (fun item : Json => item.field field) '' {item | item ∈ items}, v.kind ≠ wrong := by
    rintro _ ⟨item, hitem, rfl⟩
    rcases field_cases item field with hmissing | ⟨v, hv, hfield⟩
    · simpa [hmissing, Json.kind] using hnull.symm
    · simpa [hfield, h item hitem v hv] using hwrong.symm
  refine TotalPreorderOn.comap (f := fun item : Json => item.field field) (Json.totalPreorderOn_sortOrder ?_ ?_)
  · rintro _ ⟨item, hitem, rfl⟩
    rcases field_cases item field with hmissing | ⟨v, hv, hfield⟩
    · simpa only [hmissing] using .null
    · simpa only [hfield] using standard_of_field? (hstandard item hitem) hv
  · exact hkinds.imp (hkind (by decide) (by decide)) (hkind (by decide) (by decide))

/-- The helper sorts objects by what they have under a name. -/
private theorem sort_by_name (hname : isName field = true) (hasc : field ≠ "asc")
    (hdesc : Text.sameIgnoringCase field "desc" = false)
    (hobjects : ∀ item ∈ items, item.isObject = true) {sorted : List Json}
    (htotal : TotalPreorderOn (Json.atMostBy field) {item | item ∈ items})
    (hsorted : IsStableSort (Json.atMostBy field) {item | item ∈ items} sorted items) :
    Helper.sort (.arr items :: .str field :: directionArgs direction) =
      .ok (.arr (if turns direction then sorted.reverse else sorted)) := by
  have hkey : Helper.sortKey? (.str field) = some field := by
    have hne : field ≠ "" := by
      rintro rfl
      exact absurd hname (by decide)
    have hlow : field ≠ "desc" := by
      rintro rfl
      exact absurd hdesc (by decide)
    simp [Helper.sortKey?, hne, hasc, hlow]
  have hturns : (Json.str field :: directionArgs direction).any Helper.isDescending = turns direction := by
    cases direction <;> simp [directionArgs, turns, Helper.isDescending, hdesc]
  have hinserted : IsStableSort (Json.atMostBy field) {item | item ∈ items}
      (Helper.sortedBy (Helper.orderAt (some field)) items) items := by
    refine Helper.isStableSort_sortedBy htotal (fun a ha b hb => ?_) fun _ ha => ha
    rw [Helper.orderAt, atPath?_of_isName hname (hobjects a ha), atPath?_of_isName hname (hobjects b hb)]
    exact Json.sortOrder_eq_lt_iff
  rw [← htotal.sorted_unique (fun _ ha => ha) hinserted hsorted, Helper.sort_eq]
  change Except.ok (Json.arr (if (Json.str field :: directionArgs direction).any Helper.isDescending then _ else _)) = _
  rw [hturns, Helper.arg, List.getD_cons_succ, List.getD_cons_zero, hkey]

/-- Sorting by the name of a field and sorting by an arrow function that gives the field come to the same array, whatever
the direction, where the field holds numbers only or texts only. Objects without the field come first, and ties stay as
they are before a direction turns everything round. -/
theorem sorting_by_field_agrees (scope : Scope) (locals : Locals) (depth : Nat) (receiver : Expr) (x field : String)
    (items : List Json) (session session' : Session) (hdepth : depth + 2 < maxEvaluationDepth)
    (hreceiver : (eval scope locals (depth + 1) receiver).run session = (.ok (.json (.arr items)), session'))
    (hname : isName field = true) (hasc : field ≠ "asc") (hdesc : Text.sameIgnoringCase field "desc" = false)
    (hobjects : ∀ item ∈ items, item.isObject = true) (hstandard : ∀ item ∈ items, item.Standard)
    (hkinds : (∀ item ∈ items, ∀ v, item.field? field = some v → v.kind = .number) ∨
      ∀ item ∈ items, ∀ v, item.field? field = some v → v.kind = .string) :
    ∃ sorted, IsStableSort (Json.atMostBy field) {item | item ∈ items} sorted items ∧
      ∀ direction, let result := Json.arr (if turns direction then sorted.reverse else sorted)
        ((eval scope locals depth (sortCall receiver (.str field :: directionArgs direction))).run session).1 =
          .ok (.json result) ∧
        ((eval scope locals depth (sortByField receiver x field (directionArgs direction))).run session).1 =
          .ok (.json result) := by
  have htotal := totalPreorderOn_field hstandard hkinds
  have hsort := Helper.isStableSort_sortedBy htotal (fun _ _ _ _ => Json.sortOrder_eq_lt_iff) fun _ ha => ha
  refine ⟨_, hsort, fun direction => ⟨?_, ?_⟩⟩
  · exact run_eval_sortCall (by omega) hreceiver (sort_by_name hname hasc hdesc hobjects htotal hsort)
  · refine run_eval_sortByField hdepth hreceiver (gives_sortByKeys (fun item hitem => ?_) htotal)
    rw [jsonProperty_of_isObject (hobjects item hitem)]
    exact gives_pure

/-- Two people of the same age and one without. -/
theorem sorting_by_field_agrees_age : ∃ sorted, ∀ direction,
    let people : Expr := .literal (.arr [.obj [("age", .ofNat 40)], .obj [], .obj [("age", .ofNat 40), ("name", .str "Ann")]])
    let result := Json.arr (if turns direction then sorted.reverse else sorted)
    ((eval (.ofItems ⟨0, 0, 0⟩ [] 0 [] []) [] 0 (sortCall people (.str "age" :: directionArgs direction))).run .start).1 =
      .ok (.json result) ∧
    ((eval (.ofItems ⟨0, 0, 0⟩ [] 0 [] []) [] 0 (sortByField people "x" "age" (directionArgs direction))).run .start).1 =
      .ok (.json result) := by
  have hforty : (Json.ofNat 40).Standard := .int (by decide) (by decide)
  obtain ⟨sorted, -, hboth⟩ := sorting_by_field_agrees (.ofItems ⟨0, 0, 0⟩ [] 0 [] []) [] 0 (.literal (.arr
    [.obj [("age", .ofNat 40)], .obj [], .obj [("age", .ofNat 40), ("name", .str "Ann")]])) "x" "age" _ .start .start
    (by decide) rfl (by decide) (by decide) (by decide) (by simp [Json.isObject])
    (by
      simp only [List.forall_mem_cons, List.not_mem_nil, false_implies, implies_true, and_true]
      exact ⟨.obj (by simpa using hforty), .obj (by simp), .obj (by simpa using ⟨hforty, .str _⟩)⟩)
    (.inl (by
      simp only [List.forall_mem_cons, List.not_mem_nil, false_implies, implies_true, and_true]
      refine ⟨fun v hv => ?_, fun v hv => ?_, fun v hv => ?_⟩ <;> cases hv <;> rfl))
  exact ⟨sorted, hboth⟩

end Expr
end FlowEngine
