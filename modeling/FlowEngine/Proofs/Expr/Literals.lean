import FlowEngine.Expr.Helper
import FlowEngine.Node.Set
import FlowEngine.Param.Kind
import FlowEngine.Proofs.Decimal.Limit
import FlowEngine.Proofs.Expr.Parsing
import FlowEngine.Proofs.Expr.Scanning
import FlowEngine.Proofs.Script.Passage

/-! The literals of an expression, and the tokens that they are read from. -/
namespace FlowEngine

namespace Expr

mutual
/-- The values that are written out in an expression, from left to right. -/
def literals : Expr → List Json
  | literal value => [value]
  | ident _ => []
  | array elements => literalsOfList elements
  | object entries => literalsOfEntries entries
  | member before _ _ => literals before
  | index before key _ => literals before ++ literals key
  | call callee args => literals callee ++ literalsOfList args
  | method receiver _ args _ => literals receiver ++ literalsOfList args
  | unary _ operand => literals operand
  | binary _ left right => literals left ++ literals right
  | logical _ left right => literals left ++ literals right
  | conditional test consequent alternate => literals test ++ (literals consequent ++ literals alternate)
  | lambda _ body => literals body

def literalsOfList : List Expr → List Json
  | [] => []
  | e :: es => literals e ++ literalsOfList es

def literalsOfEntries : List (String × Expr) → List Json
  | [] => []
  | (_, e) :: entries => literals e ++ literalsOfEntries entries
end

private theorem literals_join (op : Operator) (left right : Expr) :
    (op.join left right).literals = left.literals ++ right.literals := by
  cases op <;> rfl

/-- The literals of what a phrase stands for. -/
def Phrase.literals : Phrase → List Json
  | expression e => e.literals
  | operation _ e => e.literals
  | operatorChain _ _ e => e.literals
  | operand e => e.literals
  | accessChain _ e => e.literals
  | property _ _ e => e.literals
  | elements _ es => literalsOfList es
  | entries fields => literalsOfEntries fields
  | primary e => e.literals

def Phrase.literalsBefore : Phrase → List Json
  | operatorChain _ left _ => left.literals
  | accessChain target _ => target.literals
  | property target _ _ => target.literals
  | _ => []

end Expr

/-- The literal that a token is, where it stands for a value. -/
def Token.literals : Token → List Json
  | .number x => [.ofFloat x]
  | .text s => [.str s]
  | .name s => (Expr.named s).literals
  | .punct _ => []

namespace Expr

/-- Literals that are read from tokens up to a rest, in order. Tokens may be passed over. -/
def TakenFrom (values : List Json) (ts rest : List Token) : Prop :=
  (values ++ rest.flatMap Token.literals).Sublist (ts.flatMap Token.literals)

section
variable {values values' : List Json} {t : Token} {ts ts₁ rest : List Token}

private theorem TakenFrom.nil : TakenFrom [] ts ts := List.Sublist.refl _

private theorem TakenFrom.token : TakenFrom t.literals (t :: ts) ts := List.Sublist.refl _

private theorem TakenFrom.skip (h : TakenFrom values ts rest) : TakenFrom values (t :: ts) rest :=
  h.trans (List.sublist_append_right t.literals _)

private theorem TakenFrom.skipAll (used : List Token) (h : TakenFrom values ts rest) :
    TakenFrom values (used ++ ts) rest := by
  rw [TakenFrom, List.flatMap_append]
  exact h.trans (List.sublist_append_right _ _)

private theorem TakenFrom.append (h : TakenFrom values ts ts₁) (h' : TakenFrom values' ts₁ rest) :
    TakenFrom (values ++ values') ts rest := by
  rw [TakenFrom, List.append_assoc]
  exact ((List.append_sublist_append_left values).mpr h').trans h

private theorem TakenFrom.past {p : Punct} (h : TakenFrom values ts (.punct p :: rest)) : TakenFrom values ts rest := h

private theorem takenFrom_of_exists (h : ∃ new, values = [] ++ new ∧ TakenFrom new ts rest) :
    TakenFrom values ts rest := by
  obtain ⟨_, rfl, h⟩ := h
  exact h

/-- A link of a chain of accesses, with literals of its own, and the chain behind it. -/
private theorem exists_takenFrom_link {before link whole : List Json} (hlink : link = before ++ values)
    (h : TakenFrom values ts ts₁) (ih : ∃ new, whole = link ++ new ∧ TakenFrom new ts₁ rest) :
    ∃ new, whole = before ++ new ∧ TakenFrom new ts rest := by
  obtain ⟨new, rfl, h'⟩ := ih
  exact ⟨values ++ new, by rw [hlink, List.append_assoc], h.append h'⟩

end

/-- The literals of a phrase are those of what stands before it, and others that are read from its tokens. -/
private theorem Reads.literals {p : Phrase} {n : Nat} {ts rest : List Token} (h : Reads p n ts rest) :
    ∃ values, p.literals = p.literalsBefore ++ values ∧ TakenFrom values ts rest := by
  induction h with
  | plain _ _ ih => exact ih
  | conditional _ _ _ ih₁ ih₂ ih₃ =>
    have h₁ := (takenFrom_of_exists ih₁).past
    have h₂ := (takenFrom_of_exists ih₂).past
    exact ⟨_, rfl, h₁.append (h₂.append (takenFrom_of_exists ih₃))⟩
  | operation _ _ ih₁ ih₂ => exact exists_takenFrom_link rfl (takenFrom_of_exists ih₁) ih₂
  | noOperator => exact ⟨[], (List.append_nil _).symm, .nil⟩
  | @operator _ _ op left right _ _ _ _ _ _ _ hop _ _ ih₁ ih₂ =>
    obtain ⟨p, rfl, -⟩ := nextOperator?_eq_some hop
    exact exists_takenFrom_link (literals_join op left right) (takenFrom_of_exists ih₁).skip ih₂
  | unary hop _ ih =>
    obtain ⟨p, rfl, -⟩ := unaryOp?_eq_some hop
    exact ⟨_, rfl, (takenFrom_of_exists ih).skip⟩
  | accessed _ _ _ ih₁ ih₂ => exact exists_takenFrom_link rfl (takenFrom_of_exists ih₁) ih₂
  | noAccess => exact ⟨[], (List.append_nil _).symm, .nil⟩
  | dot _ _ ih₁ ih₂ =>
    obtain ⟨values, hlink, h₁⟩ := ih₁
    exact exists_takenFrom_link hlink h₁.skip ih₂
  | optionalIndex _ _ ih₁ ih₂ => exact exists_takenFrom_link rfl (takenFrom_of_exists ih₁).past.skip.skip ih₂
  | optionalDot _ _ ih₁ ih₂ =>
    obtain ⟨values, hlink, h₁⟩ := ih₁
    exact exists_takenFrom_link hlink h₁.skip ih₂
  | index _ _ ih₁ ih₂ => exact exists_takenFrom_link rfl (takenFrom_of_exists ih₁).past.skip ih₂
  | call _ _ ih₁ ih₂ => exact exists_takenFrom_link rfl (takenFrom_of_exists ih₁).skip ih₂
  | method _ ih => exact ⟨_, rfl, (takenFrom_of_exists ih).skip.skip⟩
  | member => exact ⟨[], (List.append_nil _).symm, TakenFrom.nil.skip⟩
  | noElement => exact ⟨_, rfl, TakenFrom.nil.skip⟩
  | lastElement _ _ _ ih => exact ⟨_, rfl, (takenFrom_of_exists ih).past.append .nil⟩
  | element _ _ _ ih₁ ih₂ => exact ⟨_, rfl, (takenFrom_of_exists ih₁).past.append (takenFrom_of_exists ih₂)⟩
  | noEntry => exact ⟨_, rfl, TakenFrom.nil.skip⟩
  | lastEntry hkey _ ih =>
    obtain ⟨t, rfl, -⟩ := entryKey_eq_ok hkey
    exact ⟨_, rfl, ((takenFrom_of_exists ih).past.append .nil).skip.skip⟩
  | entry hkey _ _ ih₁ ih₂ =>
    obtain ⟨t, rfl, -⟩ := entryKey_eq_ok hkey
    exact ⟨_, rfl, ((takenFrom_of_exists ih₁).past.append (takenFrom_of_exists ih₂)).skip.skip⟩
  | @number x ts => exact ⟨_, rfl, .token (t := .number x)⟩
  | @text s ts => exact ⟨_, rfl, .token (t := .text s)⟩
  | @name name ts => exact ⟨_, rfl, .token (t := .name name)⟩
  | arrow _ _ ih => exact ⟨_, rfl, (takenFrom_of_exists ih).skip.skip⟩
  | lambda harrow _ ih =>
    obtain ⟨used, rfl, -⟩ := arrowParams?_eq_some harrow
    exact ⟨_, rfl, (TakenFrom.skipAll used (takenFrom_of_exists ih)).skip⟩
  | group _ _ ih => exact ⟨_, rfl, (takenFrom_of_exists ih).past.skip⟩
  | array _ ih => exact ⟨_, rfl, (takenFrom_of_exists ih).skip⟩
  | object _ ih => exact ⟨_, rfl, (takenFrom_of_exists ih).skip⟩

/-- Every literal of an expression is read from a token of its own, and they are in the order of the tokens. -/
private theorem literals_of_parse {source : String} {ts : List Token} {e : Expr} (hscan : Token.scan source = .ok ts)
    (hparse : parse source = .ok e) : e.literals.Sublist (ts.flatMap Token.literals) := by
  obtain ⟨-, _, hscan', n, -, hreads⟩ := parse_eq_ok_iff.mp hparse
  rw [hscan] at hscan'
  cases hscan'
  have htaken := takenFrom_of_exists hreads.literals
  rwa [TakenFrom, List.flatMap_nil, List.append_nil] at htaken

/-- A numeral that stands alone is a literal. -/
private theorem parse_numeral {source : String} {x : Float} (hsize : source.utf8ByteSize ≤ maxExpressionLength)
    (hscan : Token.scan source = .ok [.number x]) : parse source = .ok (.literal (.ofFloat x)) := by
  have hnumber : Reads (.primary (.literal (.ofFloat x))) 0 [.number x] [] := .number
  obtain ⟨n, hn, hreads⟩ := reads_of_primary hnumber rfl rfl
  exact parse_eq_ok_iff.mpr ⟨hsize, _, hscan, n, by rw [maxNestingDepth]; omega, hreads⟩

end Expr

/-! Texts that are taken for numbers: numerals of expressions, parameters, fields that a node sets, and arguments of
helpers. Whatever is accepted is a number, but for texts that overflow. Those are accepted as well and become null, and
the helper that says whether a value is a number says yes where the one that makes it a number fails. -/

/-- A text that denotes no number of which there is a float. -/
def Json.Overflows : Json → Prop
  | .str s => Decimal.Overflows (Text.trim s)
  | _ => False

/-- A number, or null where it overflows. -/
def Json.NumberUnless (overflows : Prop) (v : Json) : Prop := overflows ∧ v = .null ∨ ¬overflows ∧ v.kind = .number

/-! Floats as values. -/

section
variable {x : Float}

private theorem Json.kind_ofFloat (h : Binary64.isFinite x = true) : (Json.ofFloat x).kind = .number := by
  rw [ofFloat, if_pos h]
  split <;> rfl

private theorem Json.ofFloat_eq_null (h : Binary64.isFinite x = false) : Json.ofFloat x = .null := by
  rw [ofFloat, Binary64.isIntegral, h, Bool.false_and, Bool.false_and, if_neg Bool.false_ne_true, if_neg Bool.false_ne_true]

/-- Of a text that is read, the float is finite unless it overflows. -/
private theorem Decimal.isFinite_iff_not_overflows {text : String} (h : Decimal.float? text = some x) :
    Binary64.isFinite x = true ↔ ¬Overflows text := by
  rw [overflows_iff, h]
  simp

private theorem Json.numberUnless_ofFloat {text : String} (h : Decimal.float? text = some x) :
    (Json.ofFloat x).NumberUnless (Decimal.Overflows text) := by
  by_cases hoverflows : Decimal.Overflows text
  · obtain ⟨y, hy, hfinite⟩ := Decimal.overflows_iff.mp hoverflows
    rw [h] at hy
    cases hy
    exact .inl ⟨hoverflows, ofFloat_eq_null hfinite⟩
  · exact .inr ⟨hoverflows, kind_ofFloat ((Decimal.isFinite_iff_not_overflows h).mpr hoverflows)⟩

end

/-! The conversions. -/

section
variable {value v : Json} {s : String}

private theorem ParamKind.numberUnless_coerceNumber (hvalue : value.Standard) (h : coerceNumber value = .ok v) :
    v.NumberUnless value.Overflows := by
  cases value with
  | num n =>
    cases h
    exact .inr ⟨not_false, Json.kind_ofFloat (Num.isFinite_toFloat hvalue)⟩
  | str s =>
    rw [coerceNumber] at h
    split at h
    · rename_i x hfloat
      cases h
      exact Json.numberUnless_ofFloat hfloat
    · cases h
  | _ => cases h

private theorem Node.FieldKind.numberUnless_toNumber (h : toNumber (.str s) = .ok v) :
    v.NumberUnless (Json.str s).Overflows := by
  rw [toNumber] at h
  split at h
  · rename_i x hfloat
    cases h
    exact Json.numberUnless_ofFloat hfloat
  · cases h

private theorem Helper.exists_number_iff {x : Float} : (∃ v, number x = .ok v) ↔ Binary64.isFinite x = true := by
  rw [number]
  split <;> simp [*]

/-- What passes for a number has a float, and it is finite unless it overflows. -/
private theorem Helper.toNumber_of_isNumeric (hvalue : value.Standard) (h : isNumeric value = true) :
    ∃ x, Helper.toNumber value = .ok x ∧ (Binary64.isFinite x = true ↔ ¬value.Overflows) := by
  cases value with
  | num n => exact ⟨n.toFloat, rfl, iff_of_true (Num.isFinite_toFloat hvalue) not_false⟩
  | str s =>
    rw [isNumeric, Bool.and_eq_true, Bool.not_eq_true'] at h
    obtain ⟨x, hfloat⟩ := Option.isSome_iff_exists.mp h.2
    refine ⟨x, ?_, Decimal.isFinite_iff_not_overflows hfloat⟩
    rw [Helper.toNumber, Json.toNumber, h.1, hfloat]
    rfl
  | _ => cases h

/-- Texts that overflow are accepted all the same. -/
private theorem accepted_of_overflows (h : Decimal.Overflows (Text.trim s)) :
    ParamKind.coerceNumber (.str s) = .ok .null ∧ Node.FieldKind.toNumber (.str s) = .ok .null ∧
      Helper.isNumeric (.str s) = true := by
  obtain ⟨x, hfloat, hfinite⟩ := Decimal.overflows_iff.mp h
  have hnonempty : (Text.trim s).isEmpty = false := by
    rw [Bool.eq_false_iff, Ne, String.isEmpty_iff]
    intro hempty
    rw [hempty] at hfloat
    cases hfloat
  refine ⟨?_, ?_, ?_⟩
  · rw [ParamKind.coerceNumber, hfloat, ← Json.ofFloat_eq_null hfinite]
  · rw [Node.FieldKind.toNumber, hfloat, ← Json.ofFloat_eq_null hfinite]
  · rw [Helper.isNumeric, hnonempty, hfloat]
    rfl

end

/-- Text that is taken for a number is one, unless it overflows; then it is accepted and becomes null, and what passes for
a number cannot be made one. -/
theorem numbers_are_null_iff_overflow {value : Json} (hvalue : value.Standard) (allowed : List Json) (draw : Nat) :
    (∀ v, ParamKind.number.coerce allowed value = .ok v → v.NumberUnless value.Overflows) ∧
      (∀ s v, value = .str s → Node.FieldKind.number.convert value = .ok v → v.NumberUnless value.Overflows) ∧
      (∃ isNumeric toNumber,
        Helper.find? draw "isNumeric" = some isNumeric ∧ Helper.find? draw "toNumber" = some toNumber ∧
        (isNumeric [value] = .ok (.bool true) → ((∃ v, toNumber [value] = .ok v) ↔ ¬value.Overflows)) ∧
        (value.Overflows → ParamKind.number.coerce allowed value = .ok .null ∧
          Node.FieldKind.number.convert value = .ok .null ∧ isNumeric [value] = .ok (.bool true))) ∧
      ∀ source ts e, Token.scan source = .ok ts → Expr.parse source = .ok e →
        e.literals.Sublist (ts.flatMap Token.literals) ∧ ∀ x, .number x ∈ ts → ∃ numeral : String,
          numeral.toList <:+: source.toList ∧ Decimal.float? numeral = some x ∧
            (Json.ofFloat x).NumberUnless (Decimal.Overflows numeral) := by
  refine ⟨fun v h => ParamKind.numberUnless_coerceNumber hvalue h, ?_, ?_, ?_⟩
  · rintro s v rfl h
    exact Node.FieldKind.numberUnless_toNumber h
  · refine ⟨_, _, rfl, rfl, fun h => ?_, fun h => ?_⟩
    · have hnumeric : Helper.isNumeric value = true := by
        simpa [Helper.arg] using h
      obtain ⟨x, hx, hfinite⟩ := Helper.toNumber_of_isNumeric hvalue hnumeric
      rw [← hfinite, ← Helper.exists_number_iff]
      change (∃ v, Helper.toNumber value >>= Helper.number = .ok v) ↔ _
      rw [hx]
      rfl
    · cases value with
      | str s =>
        obtain ⟨hcoerce, hconvert, hnumeric⟩ := accepted_of_overflows h
        exact ⟨hcoerce, hconvert, congrArg (fun b => Except.ok (Json.bool b)) hnumeric⟩
      | _ => cases h
  · intro source ts e hscan hparse
    refine ⟨Expr.literals_of_parse hscan hparse, fun x hx => ?_⟩
    obtain ⟨numeral, hinfix, hfloat⟩ := Token.numeral_of_scanFrom hscan hx
    exact ⟨String.ofList numeral, by rwa [String.toList_ofList], hfloat, Json.numberUnless_ofFloat hfloat⟩

theorem numbers_are_null_iff_overflow_large :
    (Json.str "1e999").Standard ∧ (Json.str "1e999").Overflows ∧ ParamKind.number.coerce [] (.str "1e999") = .ok .null ∧
      Node.FieldKind.number.convert (.str "1e999") = .ok .null ∧
      (∃ toNumber, Helper.find? 0 "toNumber" = some toNumber ∧ ¬∃ v, toNumber [.str "1e999"] = .ok v) ∧
      Expr.parse "1e999" = .ok (.literal .null) := by
  have htrim : Text.trim "1e999" = "1e999" := by decide
  have hoverflows : (Json.str "1e999").Overflows :=
    Decimal.overflows_iff.mpr ⟨1.0 / 0.0, by rw [htrim]; rfl, Binary64.isFinite_infinity⟩
  obtain ⟨-, -, ⟨isNumeric, toNumber, -, hfind, hnumber, haccepted⟩, -⟩ :=
    numbers_are_null_iff_overflow (.str "1e999") [] 0
  obtain ⟨hcoerce, hconvert, hnumeric⟩ := haccepted hoverflows
  have hscan : Token.scan "1e999" = .ok [.number (1.0 / 0.0)] :=
    Token.scanFrom_token (n := 4) (by decide) rfl Token.scanFrom_nil
  have hparse := Expr.parse_numeral (by decide) hscan
  rw [Json.ofFloat_eq_null Binary64.isFinite_infinity] at hparse
  exact ⟨.str _, hoverflows, hcoerce, hconvert, ⟨toNumber, hfind, fun h => (hnumber hnumeric).mp h hoverflows⟩, hparse⟩

end FlowEngine
