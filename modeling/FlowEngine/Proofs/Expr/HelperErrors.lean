import FlowEngine.Proofs.Expr.Errors

/-! The errors of helpers and operators do not tell of the depth of evaluation. Nor do operations of helpers break down,
but for the one that makes pieces: its size may be no number, and then the pieces have no items. -/
namespace FlowEngine

def EvalError.IsOrdinary (error : EvalError) : Prop := error ≠ .evaluationTooDeep

/-- An ordinary error that is handed on: no operation broke down. -/
def EvalError.IsReported : EvalError → Prop
  | evaluationTooDeep => False
  | broken _ => False
  | _ => True

private theorem EvalError.IsReported.isOrdinary {error : EvalError} (h : error.IsReported) : error.IsOrdinary := by
  rintro rfl
  exact h

theorem Outcome.Raises.ordinary {α : Type} {x : Except EvalError α} (h : Raises EvalError.IsReported x) :
    Raises EvalError.IsOrdinary x :=
  fun error herror => (h error herror).isOrdinary

theorem EvalError.IsReported.ne_broken {error : EvalError} (h : error.IsReported) (cause : Breakdown) :
    error ≠ .broken cause := by
  rintro rfl
  exact h

namespace Helper
open Outcome EvalError

variable {function : String} {args : List Json} {i : Nat} {x : Float} {value : Json}

/-! Operations that may break down, where their arguments fit. -/

section
variable {α : Type} {items : List α} {first last : Nat} {start stop : Option Float} {cs : List Char}

private theorem itemAt_of_lt {items : List Json} (h : i < items.length) : itemAt items i = .ok items[i] := by
  rw [itemAt, List.getElem?_eq_getElem h]

theorem part_of_le (hfirst : first ≤ last) (hlast : last ≤ items.length) :
    part items first last = .ok ((items.take last).drop first) := by
  rw [part, if_pos (by simp [hfirst, hlast])]

/-- The bounds of a slice fit what it is taken from. -/
theorem sliceBounds_le (length : Nat) (start stop : Option Float) :
    (sliceBounds length start stop).1 ≤ (sliceBounds length start stop).2 ∧
      (sliceBounds length start stop).2 ≤ length := by
  unfold sliceBounds
  extract_lets resolve first
  have hresolve (bound : Option Float) {default : Nat} (hdefault : default ≤ length) :
      (bound.map resolve).getD default ≤ length := by
    cases bound with
    | none => exact hdefault
    | some x =>
      change (if Binary64.toSigned x < 0 then _ else _) ≤ length
      split <;> omega
  exact ⟨Nat.le_max_left _ _, Nat.max_le.mpr ⟨hresolve start (Nat.zero_le _), hresolve stop (Nat.le_refl _)⟩⟩

private theorem raises_slice : Raises IsReported (slice items start stop) := by
  obtain ⟨hfirst, hlast⟩ := sliceBounds_le items.length start stop
  have hslice : slice items start stop = .ok _ := part_of_le hfirst hlast
  rw [hslice]
  exact raises_ok

/-- Characters may be cut where any of them begins. -/
private theorem cut_byteLength (cs : List Char) (n : Nat) : cut cs (byteLength (cs.take n)) = .ok (cs.take n) := by
  induction cs generalizing n with
  | nil => cases n <;> rfl
  | cons c cs ih =>
    cases n with
    | zero => rfl
    | succ n =>
      have hbytes : byteLength ((c :: cs).take (n + 1)) = c.utf8Size + byteLength (cs.take n) := rfl
      have hpos := Char.utf8Size_pos c
      obtain ⟨byte, hbyte⟩ : ∃ byte, c.utf8Size + byteLength (cs.take n) = byte + 1 := ⟨_, (Nat.succ_pred (by omega)).symm⟩
      have hrest : byte + 1 - c.utf8Size = byteLength (cs.take n) := by omega
      rw [hbytes, hbyte, cut, if_neg (by omega), hrest, ih]
      rfl

end

private theorem raises_numberArg : Raises IsReported (numberArg function args i) := by
  unfold numberArg
  split
  · exact raises_ok
  · exact raises_error trivial

theorem raises_numberArg? : Raises IsReported (numberArg? function args i) := by
  unfold numberArg?
  split
  · exact raises_ok
  · exact raises_numberArg.map

theorem raises_arrayArg : Raises IsReported (arrayArg function args i) := by
  unfold arrayArg
  split
  · exact raises_ok
  · exact raises_ok
  · exact raises_error trivial

private theorem raises_objectArg : Raises IsReported (objectArg function args i) := by
  unfold objectArg
  split
  · exact raises_ok
  · exact raises_ok
  · exact raises_error trivial

private theorem raises_number : Raises IsReported (number x) := raises_ite raises_ok (raises_error trivial)

theorem raises_toNumber : Raises IsReported (toNumber value) := by
  unfold toNumber
  split
  · exact raises_ok
  · exact raises_error trivial

private theorem raises_stampArg : Raises IsReported (stampArg function args) := by
  unfold stampArg
  split
  · split
    · exact raises_ok
    · exact raises_error trivial
  · split
    · exact raises_ok
    · exact raises_error trivial
  · exact raises_error trivial

/-! Conditions and conversions. -/

variable {name : String} {helper : Helper} {draw : Nat}

private theorem raises_pickCase {subject : Json} {rest : List Json} : Raises IsReported (pickCase subject rest) := by
  rw [pickCase]
  by_cases hcases : 2 ≤ rest.length
  · rw [if_pos hcases, itemAt_of_lt (by omega), itemAt_of_lt (by omega)]
    refine raises_ok.bind fun case => raises_ite raises_ok ?_
    split
    · exact raises_pickCase
    · rename_i hmore
      rw [part_of_le hcases (Nat.le_refl _)] at hmore
      cases hmore
  · rw [if_neg hcases]
    exact raises_ok
termination_by rest.length
decreasing_by
  rename_i more hmore
  rw [part_of_le hcases (Nat.le_refl _)] at hmore
  cases hmore
  rw [List.length_drop, List.length_take]
  omega

private theorem raises_switch : Raises IsReported (switch args) := by
  rw [switch, part_of_le (Nat.min_le_left _ _) (Nat.le_refl _)]
  exact raises_pickCase

private theorem raises_logic? (h : logic? name = some helper) : Raises IsReported (helper args) := by
  unfold logic? at h
  split at h <;> cases h <;> first
    | exact raises_ok
    | exact raises_switch
    | exact raises_toNumber.bind fun _ => raises_number

/-! Numbers. -/

private theorem raises_places {most : Float} : Raises IsReported (places function most args) :=
  raises_numberArg?.bind fun _ => raises_ok

private theorem raises_round : Raises IsReported (round args) :=
  raises_numberArg.bind fun _ => raises_places.bind fun _ => raises_number

private theorem raises_toFixed : Raises IsReported (toFixed args) :=
  raises_numberArg.bind fun _ => raises_places.bind fun _ => raises_ok

private theorem raises_numbers : Raises IsReported (numbers function args) := by
  refine Raises.mapM fun value => ?_
  split
  · exact raises_ok
  · exact raises_error trivial

private theorem raises_extreme {choose : Float → Float → Float} : Raises IsReported (extreme function choose args) := by
  refine raises_numbers.bind fun xs => ?_
  split
  · exact raises_ok
  · exact raises_number

private theorem raises_average : Raises IsReported (average function args) := by
  refine raises_numbers.bind fun xs => ?_
  split
  · exact raises_ok
  · exact raises_number

private theorem raises_randomInt : Raises IsReported (randomInt draw args) :=
  raises_numberArg.bind fun _ => raises_numberArg.bind fun _ => raises_ite (raises_error trivial) raises_ok

private theorem raises_math? (h : math? draw name = some helper) : Raises IsReported (helper args) := by
  unfold math? at h
  split at h <;> cases h <;> first
    | exact raises_round
    | exact raises_toFixed
    | exact raises_extreme
    | exact raises_average
    | exact raises_randomInt
    | exact raises_number
    | exact raises_numberArg.bind fun _ => raises_number
    | exact raises_numbers.bind fun _ => raises_number
    | exact raises_numberArg.bind fun _ => raises_numberArg.bind fun _ => raises_number

/-! Texts. -/

private theorem raises_pad {atStart : Bool} : Raises IsReported (pad function atStart args) :=
  raises_numberArg.bind fun _ => raises_ite raises_ok raises_ok

private theorem raises_substring : Raises IsReported (substring args) :=
  raises_numberArg?.bind fun _ => raises_numberArg?.bind fun _ => raises_slice.bind fun _ => raises_ok

private theorem raises_indexOf {haystack needle : Json} : Raises IsReported (indexOf haystack needle) := by
  unfold indexOf
  split
  · exact raises_ok
  · rename_i haystack
    extract_lets text
    rw [findByte?]
    cases Text.indexOf? needle.display.toList text with
    | none => exact raises_ok
    | some place =>
      dsimp only [Option.map_some]
      rw [cut_byteLength]
      exact raises_ok

private theorem raises_repeated : Raises IsReported (repeated args) := raises_numberArg.bind fun _ => raises_ok

private theorem raises_text? (h : text? name = some helper) : Raises IsReported (helper args) := by
  unfold text? at h
  split at h <;> cases h <;> first
    | exact raises_ok
    | exact raises_pad
    | exact raises_substring
    | exact raises_indexOf
    | exact raises_repeated

/-! Arrays and objects. -/

private theorem raises_endOf {pick : {α : Type} → List α → Option α} :
    Raises IsReported (endOf function pick args) := by
  unfold endOf
  split
  · exact raises_ok
  · exact raises_ok
  · exact raises_ok
  · exact raises_error trivial

private theorem raises_sort : Raises IsReported (sort args) := raises_arrayArg.bind fun _ => raises_ok

private theorem raises_reverse : Raises IsReported (reverse args) := by
  unfold reverse
  split
  · exact raises_ok
  · exact raises_arrayArg.map

private theorem raises_sliceOf : Raises IsReported (sliceOf args) := by
  refine raises_numberArg?.bind fun start => raises_numberArg?.bind fun stop => ?_
  split
  · exact raises_slice.bind fun _ => raises_ok
  · exact raises_arrayArg.bind fun _ => raises_slice.bind fun _ => raises_ok

private theorem raises_fromEntries : Raises IsReported (fromEntries args) := by
  refine raises_arrayArg.bind fun items => (Raises.mapM fun entry => ?_).bind fun _ => raises_ok
  split
  · rename_i pair
    cases pair with
    | nil => exact raises_error trivial
    | cons key rest => exact raises_ok
  · exact raises_error trivial

private theorem raises_merge : Raises IsReported (merge args) :=
  (Raises.mapM fun _ => raises_objectArg).bind fun _ => raises_ok

private theorem raises_selectFields {keep : Bool} : Raises IsReported (selectFields function keep args) :=
  raises_objectArg.bind fun _ => raises_ok

private theorem raises_join : Raises IsReported (join function args) := raises_arrayArg.bind fun _ => raises_ok

private theorem raises_collection? (h : collection? name = some helper) (hname : name ≠ "chunk") :
    Raises IsReported (helper args) := by
  unfold collection? at h
  split at h <;> cases h <;> first
    | exact absurd rfl hname
    | exact raises_ok
    | exact raises_endOf
    | exact raises_sort
    | exact raises_reverse
    | exact raises_sliceOf
    | exact raises_fromEntries
    | exact raises_merge
    | exact raises_selectFields
    | exact raises_join
    | exact raises_arrayArg.map
    | exact raises_objectArg.map

/-! Encodings, dates and queries. -/

private theorem raises_jsonParse : Raises IsReported (jsonParse args) := by
  unfold jsonParse
  split
  · rename_i text _
    cases Json.read text with
    | ok value => exact raises_ok
    | error fault => exact raises_error trivial
  · exact raises_ok

private theorem raises_urlDecode : Raises IsReported (urlDecode args) := by
  unfold urlDecode
  split
  · exact raises_ok
  · exact raises_error trivial

private theorem raises_base64Decode : Raises IsReported (base64Decode args) := by
  unfold base64Decode
  split
  · exact raises_error trivial
  · split
    · exact raises_ok
    · exact raises_error trivial

private theorem raises_hash : Raises IsReported (hash args) := by
  unfold hash
  dsimp only
  split
  · exact raises_ok
  · exact raises_error trivial

private theorem raises_formatDate : Raises IsReported (formatDate args) := by
  refine raises_stampArg.bind fun t => ?_
  dsimp only
  split
  · exact raises_error trivial
  · split
    · exact raises_ok
    · exact raises_error trivial

private theorem raises_dateAdd : Raises IsReported (dateAdd args) := by
  refine raises_stampArg.bind fun t => raises_numberArg.bind fun x => ?_
  extract_lets amount unit write move
  have hwrite (moved : Option Time.Stamp) : Raises IsReported (write moved) := by
    cases moved with
    | some t => exact raises_ok
    | none => exact raises_error trivial
  have hmove (months : Int) : Raises IsReported (move months) :=
    raises_ite (raises_error trivial) (hwrite (t.addMonths? months))
  clear_value unit write move
  split
  · exact hwrite _
  · split
    · exact raises_ite (hmove _) (raises_error trivial)
    · exact hmove _
    · exact raises_error trivial

private theorem raises_query : Raises IsReported (query args) := by
  unfold query
  split
  · exact raises_ok
  · exact raises_error trivial

private theorem raises_encoding? (h : encoding? name = some helper) : Raises IsReported (helper args) := by
  unfold encoding? at h
  split at h
  case h_18 => cases h
  all_goals
    obtain rfl := Option.some.inj h
    with_reducible first
      | exact raises_ok
      | exact raises_jsonParse
      | exact raises_urlDecode
      | exact raises_base64Decode
      | exact raises_hash
      | exact raises_stampArg.map
      | exact raises_formatDate
      | exact raises_dateAdd
      | exact raises_query

/-- No helper but the one that makes pieces breaks down. -/
theorem raises_find?_of_ne (h : find? draw name = some helper) (hname : name ≠ "chunk") :
    Raises IsReported (helper args) := by
  simp only [find?, Option.or_eq_some_iff] at h
  obtain hlogic | ⟨-, hmath | ⟨-, htext | ⟨-, hcollection | ⟨-, hencoding⟩⟩⟩⟩ := h
  · exact raises_logic? hlogic
  · exact raises_math? hmath
  · exact raises_text? htext
  · exact raises_collection? hcollection hname
  · exact raises_encoding? hencoding

private theorem raises_chunk : Raises IsOrdinary (chunk args) := by
  refine raises_arrayArg.ordinary.bind fun items => raises_numberArg?.ordinary.bind fun size => ?_
  refine raises_ite (raises_error nofun) (Raises.bind ?_ fun _ => raises_ok)
  exact raises_ite (raises_error nofun) raises_ok

/-- No helper finds evaluation too deep. -/
theorem raises_find? (h : find? draw name = some helper) : Raises IsOrdinary (helper args) := by
  by_cases hname : name = "chunk"
  · subst hname
    cases h
    exact raises_chunk
  · exact (raises_find?_of_ne h hname).ordinary

end Helper

namespace Expr
open Outcome EvalError

variable {f : Float → Float → Float} {l r value : Json}

private theorem raises_arithmetic : Raises IsReported (arithmetic f l r) :=
  Helper.raises_toNumber.bind fun _ => Helper.raises_toNumber.bind fun _ => Helper.raises_number

private theorem raises_dividing : Raises IsReported (dividing f l r) :=
  Helper.raises_toNumber.bind fun _ =>
    raises_ite (raises_error trivial) (Helper.raises_toNumber.bind fun _ => Helper.raises_number)

theorem raises_applyBinary {op : BinaryOp} : Raises IsReported (applyBinary op l r) := by
  cases op with
  | add => exact raises_ite raises_ok raises_arithmetic
  | sub | mul => exact raises_arithmetic
  | div | mod => exact raises_dividing
  | _ => exact raises_ok

theorem raises_applyUnary {op : UnaryOp} : Raises IsReported (applyUnary op value) := by
  cases op with
  | not => exact raises_ok
  | negate | plus => exact Helper.raises_toNumber.bind fun _ => Helper.raises_number

end Expr
end FlowEngine
