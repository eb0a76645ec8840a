import Mathlib.Logic.Relation
import FlowEngine.Proofs.Expr.Inquiries
import FlowEngine.Proofs.StableSort

/-! Sorting with arrow functions. Whatever a comparison answers and whatever its answers depend on, no item is lost; where
it answers like a total preorder, the sort is stable. -/
namespace FlowEngine
open Relation (ReflTransGen)

namespace Eval
variable {α β : Type} {after : α → α → Eval Bool} {le : α → α → Bool} {S : Set α} {xs ys items : List α}
  {good : α → Prop} {x : Eval α} {f : α → Eval β} {a : α} {b : β}

/-! Comparisons that always give the same answer. -/

/-- A computation has a result, and the same whatever the session. -/
def Gives (x : Eval α) (a : α) : Prop := ∀ session, (x.run session).1 = .ok a

theorem gives_pure : (pure a : Eval α).Gives a := fun _ => rfl

theorem Gives.bind (hx : x.Gives a) (hf : (f a).Gives b) : (x >>= f).Gives b := by
  intro session
  have hresult := hx session
  cases hrun : x.run session with
  | mk result session' =>
    obtain rfl : result = .ok a := by rwa [hrun] at hresult
    rw [run_bind_of_ok hrun]
    exact hf session'

/-- Merging two lists in order puts all their items in order and keeps ties, those of the first list first. -/
private theorem exists_gives_mergeM (horder : TotalPreorderOn le S)
    (hafter : ∀ a ∈ S, ∀ b ∈ S, (after a b).Gives (!le a b))
    (hxs : ∀ a ∈ xs, a ∈ S) (hys : ∀ a ∈ ys, a ∈ S) (hx : xs.Pairwise fun a b => le a b = true)
    (hy : ys.Pairwise fun a b => le a b = true) :
    ∃ merged, (mergeM after xs ys).Gives merged ∧ IsStableSort le S merged (xs ++ ys) := by
  fun_induction mergeM after xs ys with
  | case1 ys => exact ⟨ys, gives_pure, .refl _, hy, fun _ _ => rfl⟩
  | case2 x xs => exact ⟨x :: xs, gives_pure, by simp, hx, by simp⟩
  | case3 x xs y ys ihright ihleft =>
    obtain ⟨hxS, hxsS⟩ := List.forall_mem_cons.mp hxs
    obtain ⟨hyS, hysS⟩ := List.forall_mem_cons.mp hys
    cases hxy : le x y with
    | true =>
      obtain ⟨merged, hgives, hsort⟩ := ihleft hxsS hys hx.of_cons hy
      refine ⟨x :: merged, (hafter x hxS y hyS).bind ?_, hsort.cons_left fun z hz => ?_⟩
      · rw [hxy]
        exact hgives.bind gives_pure
      · rcases List.mem_append.mp hz with hzxs | hzys
        · exact (List.pairwise_cons.mp hx).1 z hzxs
        · exact horder.le_of_ordered hxS hys hy hxy z hzys
    | false =>
      obtain ⟨merged, hgives, hsort⟩ := ihright hxs hysS hx hy.of_cons
      have hyx : le y x = true := (horder.total x hxS y hyS).resolve_left (by simp [hxy])
      have hxx : le x x = true := (horder.total x hxS x hxS).elim id id
      refine ⟨y :: merged, (hafter x hxS y hyS).bind ?_, hsort.cons_right (fun z hz => ?_) fun a ha hay z hz => ?_⟩
      · rw [hxy]
        exact hgives.bind gives_pure
      · rcases List.mem_append.mp hz with hzxs | hzys
        · exact horder.le_of_ordered hyS hxs hx hyx z hzxs
        · exact (List.pairwise_cons.mp hy).1 z hzys
      · exact horder.not_tied_of_not_le ha hxS hyS (hxs z hz) hxy (horder.le_of_ordered hxS hxs hx hxx z hz) hay

/-- By a comparison that puts the greater of two values behind, in a total preorder, merge sort is a stable sort. -/
theorem exists_gives_mergeSortM (horder : TotalPreorderOn le S)
    (hafter : ∀ a ∈ S, ∀ b ∈ S, (after a b).Gives (!le a b)) (hitems : ∀ a ∈ items, a ∈ S) :
    ∃ sorted, (mergeSortM after items).Gives sorted ∧ IsStableSort le S sorted items := by
  fun_induction mergeSortM after items with
  | case1 items hshort => exact ⟨items, gives_pure, .of_length_le_one hshort⟩
  | case2 items _ ihleft ihright =>
    obtain ⟨left, hleft, hsortleft⟩ := ihleft fun a ha => hitems a (List.mem_of_mem_take ha)
    obtain ⟨right, hright, hsortright⟩ := ihright fun a ha => hitems a (List.mem_of_mem_drop ha)
    obtain ⟨merged, hgives, hsort⟩ := exists_gives_mergeM horder hafter
      (fun a ha => hitems a (List.mem_of_mem_take (hsortleft.perm.mem_iff.mp ha)))
      (fun a ha => hitems a (List.mem_of_mem_drop (hsortright.perm.mem_iff.mp ha))) hsortleft.ordered hsortright.ordered
    refine ⟨merged, hleft.bind (hright.bind hgives), ?_⟩
    rw [← List.take_append_drop (items.length / 2) items]
    exact hsort.of_halves hsortleft hsortright

private theorem mergeSortM_pair {a b : α} :
    mergeSortM after [a, b] = do if ← after a b then return [b, a] else return [a, b] := by
  have hsingle (c : α) : mergeSortM after [c] = pure [c] := by
    rw [mergeSortM, if_pos (by simp)]
  have hhalf : [a, b].length / 2 = 1 := by simp
  rw [mergeSortM, if_neg (by simp), hhalf, List.take_succ_cons, List.take_zero, List.drop_succ_cons, List.drop_zero,
    hsingle, hsingle, pure_bind, pure_bind, mergeM]
  refine bind_congr fun answer => ?_
  cases answer
  · simp [mergeM]
  · simp [mergeM]

/-! Comparisons of any kind. -/

def Answers (after : α → α → Eval Bool) (items : List α) (session session' : Session) : Prop :=
  ∃ a ∈ items, ∃ b ∈ items, ∃ answer, (after a b).run session = (.ok answer, session')

def Refuses (after : α → α → Eval Bool) (items : List α) (session : Session) (error : EvalError) (session' : Session) :
    Prop :=
  ∃ a ∈ items, ∃ b ∈ items, (after a b).run session = (.error error, session')

/-- A computation makes comparisons of some items, each in the session that the one before left. Either all of them have
answers, and then there is a good result, or it ends in the error of the first that fails. -/
def Compares (after : α → α → Eval Bool) (items : List α) (good : β → Prop) (x : Eval β) : Prop :=
  ∀ session, ∃ session', ReflTransGen (Answers after items) session session' ∧
    ((∃ b, good b ∧ x.run session = (.ok b, session')) ∨
      ∃ error session'', Refuses after items session' error session'' ∧ x.run session = (.error error, session''))

section
variable {γ : Type} {x : Eval β} {f : β → Eval γ} {good : β → Prop} {good' : γ → Prop}

private theorem compares_pure (h : good b) : Compares after items good (pure b) :=
  fun session => ⟨session, .refl, .inl ⟨b, h, rfl⟩⟩

private theorem compares_after {a b : α} (ha : a ∈ items) (hb : b ∈ items) :
    Compares after items (fun _ => True) (after a b) := by
  intro session
  match h : (after a b).run session with
  | (.ok answer, session') => exact ⟨session', .single ⟨a, ha, b, hb, answer, h⟩, .inl ⟨answer, trivial, rfl⟩⟩
  | (.error error, session') => exact ⟨session, .refl, .inr ⟨error, session', ⟨a, ha, b, hb, h⟩, rfl⟩⟩

private theorem Compares.bind (hx : Compares after items good x) (hf : ∀ b, good b → Compares after items good' (f b)) :
    Compares after items good' (x >>= f) := by
  intro session
  obtain ⟨session', hanswers, ⟨b, hb, hrun⟩ | ⟨error, session'', hrefuses, hrun⟩⟩ := hx session
  · obtain ⟨session₂, hanswers₂, hend⟩ := hf b hb session'
    rw [run_bind_of_ok hrun]
    exact ⟨session₂, hanswers.trans hanswers₂, hend⟩
  · exact ⟨session', hanswers, .inr ⟨error, session'', hrefuses, run_bind_of_error hrun⟩⟩

private theorem Compares.mono {good' : β → Prop} {items' : List α} (h : Compares after items good x)
    (hitems : items ⊆ items') (hgood : ∀ b, good b → good' b) : Compares after items' good' x := by
  intro session
  obtain ⟨session', hanswers, hend⟩ := h session
  have hmore : Answers after items ≤ Answers after items' := fun _ _ ⟨a, ha, b, hb, h⟩ => ⟨a, hitems ha, b, hitems hb, h⟩
  refine ⟨session', ReflTransGen.mono hmore _ _ hanswers, ?_⟩
  rcases hend with ⟨b, hb, hrun⟩ | ⟨error, session'', ⟨a, ha, b, hb, h⟩, hrun⟩
  · exact .inl ⟨b, hgood b hb, hrun⟩
  · exact .inr ⟨error, session'', ⟨a, hitems ha, b, hitems hb, h⟩, hrun⟩

end

private theorem compares_mergeM : Compares after (xs ++ ys) (·.Perm (xs ++ ys)) (mergeM after xs ys) := by
  fun_induction mergeM after xs ys with
  | case1 ys => exact compares_pure (.refl _)
  | case2 x xs => exact compares_pure (by simp)
  | case3 x xs y ys ihright ihleft =>
    refine (compares_after (by simp) (by simp)).bind fun answer _ => ?_
    cases answer with
    | true =>
      have hsubset : x :: xs ++ ys ⊆ x :: xs ++ y :: ys := ((List.sublist_cons_self y ys).append_left _).subset
      refine (ihright.mono hsubset fun _ h => h).bind fun merged hmerged => compares_pure ?_
      exact (hmerged.cons y).trans List.perm_middle.symm
    | false =>
      refine (ihleft.mono (List.subset_cons_self x _) fun _ h => h).bind fun merged hmerged => compares_pure ?_
      exact hmerged.cons x

/-- Whatever a comparison does, sorting keeps every item or ends in the comparison's first error. -/
private theorem compares_mergeSortM : Compares after items (·.Perm items) (mergeSortM after items) := by
  fun_induction mergeSortM after items with
  | case1 items => exact compares_pure (.refl _)
  | case2 items _ ihleft ihright =>
    refine (ihleft.mono (List.take_subset _ _) fun _ h => h).bind fun left hleft => ?_
    refine (ihright.mono (List.drop_subset _ _) fun _ h => h).bind fun right hright => ?_
    have hperm : (left ++ right).Perm items := by
      simpa using hleft.append hright
    exact compares_mergeM.mono hperm.subset fun _ h => h.trans hperm

/-! Results and errors whatever the session. -/

def MayBe (x : Eval α) (outcome : Except EvalError α) : Prop := ∃ session, (x.run session).1 = outcome

def Ends (good : α → Prop) (bad : EvalError → Prop) (x : Eval α) : Prop :=
  ∀ session, (∃ a, good a ∧ (x.run session).1 = .ok a) ∨ ∃ error, bad error ∧ (x.run session).1 = .error error

section
variable {good : α → Prop} {good' : β → Prop} {bad : EvalError → Prop}

private theorem ends_pure (h : good a) : (pure a : Eval α).Ends good bad := fun _ => .inl ⟨a, h, rfl⟩

private theorem ends_of_mayBe (hgood : ∀ a, x.MayBe (.ok a) → good a)
    (hbad : ∀ error, x.MayBe (.error error) → bad error) : x.Ends good bad := by
  intro session
  match h : (x.run session).1 with
  | .ok a => exact .inl ⟨a, hgood a ⟨session, h⟩, rfl⟩
  | .error error => exact .inr ⟨error, hbad error ⟨session, h⟩, rfl⟩

private theorem ends_liftOutcome {outcome : Except EvalError α} (hgood : ∀ a, outcome = .ok a → good a)
    (hbad : ∀ error, outcome = .error error → bad error) : (Expr.liftOutcome outcome).Ends good bad := by
  cases outcome with
  | ok a => exact ends_pure (hgood a rfl)
  | error error => exact fun _ => .inr ⟨error, hbad error rfl, rfl⟩

private theorem Ends.bind (hx : x.Ends good bad) (hf : ∀ a, good a → (f a).Ends good' bad) :
    (x >>= f).Ends good' bad := by
  intro session
  cases hrun : x.run session with
  | mk result session' =>
    rcases hx session with ⟨a, ha, hresult⟩ | ⟨error, herror, hresult⟩
    · obtain rfl : result = .ok a := by rwa [hrun] at hresult
      rw [run_bind_of_ok hrun]
      exact hf a ha session'
    · obtain rfl : result = .error error := by rwa [hrun] at hresult
      rw [run_bind_of_error hrun]
      exact .inr ⟨error, herror, rfl⟩

private theorem Compares.ends {x : Eval β} (h : Compares after items good' x)
    (hafter : ∀ a ∈ items, ∀ b ∈ items, (after a b).Ends (fun _ => True) bad) : x.Ends good' bad := by
  intro session
  obtain ⟨session', -, ⟨b, hb, hrun⟩ | ⟨error, _, ⟨a, ha, b, hb, hrefuses⟩, hrun⟩⟩ := h session
  · exact .inl ⟨b, hb, by rw [hrun]⟩
  · rcases hafter a ha b hb session' with ⟨_, -, hanswer⟩ | ⟨error', hbad, hfails⟩
    · rw [hrefuses] at hanswer
      cases hanswer
    · rw [hrefuses] at hfails
      cases hfails
      exact .inr ⟨error, hbad, by rw [hrun]⟩

end
end Eval

namespace Expr
open Eval
variable {items : List Json} {bad : EvalError → Prop} {call : List Json → Eval Json} {arity : Nat} {name : String}

private theorem ends_mapM_keyed {key : Json → Eval Json} (hkey : ∀ a ∈ items, (key a).Ends (fun _ => True) bad) :
    (items.mapM fun item => do return (← key item, item)).Ends
      (fun keyed : List (Json × Json) => keyed.map Prod.snd = items) bad := by
  induction items with
  | nil => exact ends_pure rfl
  | cons item items ih =>
    obtain ⟨hitem, hitems⟩ := List.forall_mem_cons.mp hkey
    have hpair : (do return (← key item, item) : Eval (Json × Json)).Ends (·.2 = item) bad :=
      hitem.bind fun _ _ => ends_pure rfl
    rw [List.mapM_cons]
    refine hpair.bind fun pair hpair => (ih hitems).bind fun keyed hkeyed => ends_pure ?_
    rw [List.map_cons, hpair, hkeyed]

private theorem ends_sortByKeys {key : Json → Eval Json} (hkey : ∀ a ∈ items, (key a).Ends (fun _ => True) bad) :
    (sortByKeys key items).Ends (·.Perm items) bad := by
  refine (ends_mapM_keyed hkey).bind fun keyed hkeyed => ?_
  have hsort : (mergeSortM (fun a b => return Json.sortOrder a.1 b.1 == .gt) keyed : Eval _).Ends (·.Perm keyed) bad :=
    compares_mergeSortM.ends fun _ _ _ _ => ends_pure trivial
  refine hsort.bind fun sorted hsorted => ends_pure ?_
  rw [← hkeyed]
  exact hsorted.map _

private theorem ends_sortByComparing {compare : Json → Json → Eval Json} (hcompare : ∀ a ∈ items, ∀ b ∈ items,
    (compare a b).Ends (fun answer => ∀ error, Helper.toNumber answer = .error error → bad error) bad) :
    (sortByComparing compare items).Ends (·.Perm items) bad := by
  have hsort : Compares _ items (·.Perm items) (sortByComparing compare items) := compares_mergeSortM
  refine hsort.ends fun a ha b hb => ?_
  refine (hcompare a ha b hb).bind fun answer hanswer => ?_
  exact (ends_liftOutcome (fun _ _ => trivial) hanswer).bind fun _ _ => ends_pure trivial

/-- What sorting with an arrow function can fail for: a call fails or, of a function that compares, gives no number. -/
inductive SortFault (call : List Json → Eval Json) (arity : Nat) (items : List Json) (error : EvalError) : Prop where
  | key {a : Json} : arity < 2 → a ∈ items → (call [a]).MayBe (.error error) → SortFault call arity items error
  | comparison {a b : Json} : 2 ≤ arity → a ∈ items → b ∈ items → (call [a, b]).MayBe (.error error) →
      SortFault call arity items error
  | answer {a b answer : Json} : 2 ≤ arity → a ∈ items → b ∈ items → (call [a, b]).MayBe (.ok answer) →
      Helper.toNumber answer = .error error → SortFault call arity items error

def sortedWith (arity : Nat) (call : List Json → Eval Json) (items : List Json) : Eval (List Json) :=
  if 2 ≤ arity then sortByComparing (fun a b => call [a, b]) items else sortByKeys (fun x => call [x]) items

private theorem applyArrow_sort (hname : name = "sort" ∨ name = "sortBy") :
    applyArrow name arity call none items = sortedWith arity call items >>= fun sorted => pure (.arr sorted) := by
  unfold sortedWith
  split
  all_goals
    rename_i harity
    rcases hname with rfl | rfl
    all_goals
      simp only [applyArrow, harity]
      rfl

private theorem ends_sortedWith : (sortedWith arity call items).Ends (·.Perm items) (SortFault call arity items) := by
  unfold sortedWith
  split
  · rename_i harity
    refine ends_sortByComparing fun a ha b hb => ends_of_mayBe (fun answer hanswer error hnumber => ?_) fun error herror => ?_
    · exact .answer harity ha hb hanswer hnumber
    · exact .comparison harity ha hb herror
  · rename_i harity
    exact ends_sortByKeys fun a ha => ends_of_mayBe (fun _ _ => trivial) fun error herror => .key (by omega) ha herror

/-- Calls an arrow function. -/
def callArrow (scope : Scope) (locals : Locals) (depth : Nat) (params : List String) (body : Expr) (values : List Json) :
    Eval Json :=
  evalValue scope (bind params values locals) depth body

/-- Where the receiver of a method comes to an array, sorting it goes on with the array. -/
private theorem run_eval_sort {scope : Scope} {locals : Locals} {depth : Nat} {receiver : Expr} {params : List String}
    {body : Expr} {isOptional : Bool} {session session' : Session} (hname : name = "sort" ∨ name = "sortBy")
    (hdepth : depth < maxEvaluationDepth)
    (hreceiver : (eval scope locals (depth + 1) receiver).run session = (.ok (.json (.arr items)), session')) :
    (eval scope locals depth (.method receiver name [.lambda params body] isOptional)).run session =
      (sortedWith params.length (callArrow scope locals (depth + 1) params body) items >>= fun sorted =>
        pure (.json (.arr sorted))).run session' := by
  have harrow : evalArrow scope locals (depth + 1) name (.arr items) [.lambda params body] =
      applyArrow name params.length (callArrow scope locals (depth + 1) params body) none items := by
    rw [evalArrow.eq_def]
    rfl
  have hgoes : (eval scope locals depth (.method receiver name [.lambda params body] isOptional)).run session =
      (evalArrow scope locals (depth + 1) name (.arr items) [.lambda params body] >>= fun value =>
        pure (.json value)).run session' := by
    rw [eval.eq_def, if_neg (by omega)]
    refine (run_bind_of_ok hreceiver).trans ?_
    rcases hname with rfl | rfl <;> cases isOptional <;> rfl
  rw [hgoes, harrow, applyArrow_sort hname, bind_assoc]
  rfl

/-- Merge sort makes comparisons until one fails, and then ends in its error; otherwise it gives back all the items. By a
comparison that answers as a total preorder does, it is a stable sort. Sorting with an arrow function gives back all the
items, unless the function fails or, where it compares, gives no number. -/
theorem sorting_keeps_items_and_ties :
    (∀ (α : Type) (after : α → α → Eval Bool) (items : List α),
      Compares after items (·.Perm items) (mergeSortM after items)) ∧
    (∀ (α : Type) (le : α → α → Bool) (S : Set α) (after : α → α → Eval Bool) (items : List α), TotalPreorderOn le S →
      (∀ a ∈ S, ∀ b ∈ S, (after a b).Gives (!le a b)) → (∀ a ∈ items, a ∈ S) →
      ∃ sorted, (mergeSortM after items).Gives sorted ∧ IsStableSort le S sorted items) ∧
    ∀ (scope : Scope) (locals : Locals) (depth : Nat) (receiver : Expr) (name : String) (params : List String)
      (body : Expr) (isOptional : Bool) (items : List Json) (session session' : Session),
      name = "sort" ∨ name = "sortBy" → depth < maxEvaluationDepth →
      (eval scope locals (depth + 1) receiver).run session = (.ok (.json (.arr items)), session') →
      let outcome := ((eval scope locals depth (.method receiver name [.lambda params body] isOptional)).run session).1
      (∃ sorted, sorted.Perm items ∧ outcome = .ok (.json (.arr sorted))) ∨
        ∃ error, SortFault (callArrow scope locals (depth + 1) params body) params.length items error ∧
          outcome = .error error := by
  refine ⟨fun α after items => compares_mergeSortM, ?_, ?_⟩
  · intro α le S after items horder hafter hitems
    exact exists_gives_mergeSortM horder hafter hitems
  · intro scope locals depth receiver name params body isOptional items session session' hname hdepth hreceiver outcome
    have hends : (sortedWith params.length (callArrow scope locals (depth + 1) params body) items >>= fun sorted =>
        pure (.json (.arr sorted))).Ends (fun value => ∃ sorted, sorted.Perm items ∧ value = Val.json (.arr sorted))
        (SortFault (callArrow scope locals (depth + 1) params body) params.length items) :=
      ends_sortedWith.bind fun sorted hsorted => ends_pure ⟨sorted, hsorted, rfl⟩
    have hrun := congrArg Prod.fst (run_eval_sort hname hdepth hreceiver : (eval scope locals depth
      (.method receiver name [.lambda params body] isOptional)).run session = _)
    rcases hends session' with ⟨_, ⟨sorted, hperm, rfl⟩, hok⟩ | ⟨error, hfault, herror⟩
    · exact .inl ⟨sorted, hperm, hrun.trans hok⟩
    · exact .inr ⟨error, hfault, hrun.trans herror⟩

/-- Halves of numbers that are compared, and an array that an inconsistent function sorts. -/
theorem sorting_keeps_items_and_ties_inconsistent :
    (∃ sorted, (mergeSortM (fun a b => pure (!decide (a / 2 ≤ b / 2))) [5, 2, 4, 3] : Eval (List Nat)).Gives sorted ∧
      IsStableSort (fun a b => decide (a / 2 ≤ b / 2)) Set.univ sorted [5, 2, 4, 3]) ∧
    ∃ sorted, sorted.Perm [.ofNat 2, .ofNat 1] ∧ ((eval (.ofItems ⟨0, 0, 0⟩ [] 0 [] []) [] 0 (.method
      (.literal (.arr [.ofNat 2, .ofNat 1])) "sort" [.lambda ["a", "b"] (.literal (.ofNat 1))] false)).run .start).1 =
        .ok (.json (.arr sorted)) := by
  constructor
  · refine sorting_keeps_items_and_ties.2.1 Nat (fun a b => decide (a / 2 ≤ b / 2)) Set.univ _ _ ?_ ?_ ?_
    · exact ⟨fun a _ b _ => by simpa using Nat.le_total (a / 2) (b / 2), fun a _ b _ c _ hab hbc => by
        simp only [decide_eq_true_eq] at hab hbc ⊢
        exact hab.trans hbc⟩
    · exact fun _ _ _ _ => gives_pure
    · exact fun _ _ => Set.mem_univ _
  · rcases sorting_keeps_items_and_ties.2.2 (.ofItems ⟨0, 0, 0⟩ [] 0 [] []) [] 0 (.literal (.arr [.ofNat 2, .ofNat 1]))
      "sort" ["a", "b"] (.literal (.ofNat 1)) false [.ofNat 2, .ofNat 1] .start .start (.inl rfl) (by decide) rfl with
      hsorted | ⟨error, hfault, -⟩
    · exact hsorted
    · cases hfault with
      | key harity => simp at harity
      | comparison _ _ _ hfails =>
        obtain ⟨session, hfails⟩ := hfails
        cases hfails
      | answer _ _ _ hanswer hnumber =>
        obtain ⟨session, hanswer⟩ := hanswer
        cases hanswer
        cases hnumber

/-- An arrow function that compares and does not fail, but answers with arrays, makes sorting fail. -/
theorem sort_fails_without_numbers : ¬ ∀ (scope : Scope) (params : List String) (body : Expr) (items : List Json),
    (∀ values session, ∃ answer, ((callArrow scope [] 1 params body values).run session).1 = .ok answer) →
      ∃ sorted, sorted.Perm items ∧ ((eval scope [] 0 (.method (.literal (.arr items)) "sort" [.lambda params body]
        false)).run .start).1 = .ok (.json (.arr sorted)) := by
  intro h
  obtain ⟨sorted, -, hrun⟩ := h (.ofItems ⟨0, 0, 0⟩ [] 0 [] []) ["a", "b"] (.array []) [.ofNat 1, .ofNat 1]
    fun _ _ => ⟨.arr [], rfl⟩
  rw [run_eval_sort (.inl rfl) (by decide) rfl] at hrun
  rw [sortedWith, if_pos (by decide), sortByComparing, mergeSortM_pair] at hrun
  cases hrun

end Expr
end FlowEngine
