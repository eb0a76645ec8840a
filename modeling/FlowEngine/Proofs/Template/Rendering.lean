import FlowEngine.Proofs.Expr.Errors
import FlowEngine.Proofs.Template.Blocks

/-! Templates put together from texts and expressions, and what they come to. -/
namespace FlowEngine.Template

/-- An expression in a template, and the text behind its block. -/
structure Block where
  source : String
  expr : Expr
  parsed : Expr.parse source = .ok expr
  behind : String

/-- The template of blocks with a text before them. -/
def assemble (lead : String) : List Block → String
  | [] => lead
  | block :: blocks => lead ++ "\x7b\x7b" ++ block.source ++ "\x7d\x7d" ++ assemble block.behind blocks

/-- No text holds the mark that opens a block, and none that stands before a block ends in half of one. -/
def Unmarked (lead : String) : List Block → Prop
  | [] => Text.contains lead "\x7b\x7b" = false
  | block :: blocks => Text.contains lead "\x7b\x7b" = false ∧ lead.toList.getLast? ≠ some '\x7b' ∧
      Unmarked block.behind blocks

/-- The expressions of blocks are evaluated one after the other, up to the first that fails. -/
inductive Evaluated (scope : Scope) : Session → List Block → Except EvalError (List Json) → Session → Prop where
  | nothing {session : Session} : Evaluated scope session [] (.ok []) session
  | failure {session session' : Session} {block : Block} {blocks : List Block} {error : EvalError} :
      (Expr.evaluate scope block.expr).run session = (.error error, session') →
      Evaluated scope session (block :: blocks) (.error error) session'
  | value {session session₁ session' : Session} {block : Block} {blocks : List Block} {value : Json}
      {values : Except EvalError (List Json)} :
      (Expr.evaluate scope block.expr).run session = (.ok value, session₁) →
      Evaluated scope session₁ blocks values session' →
      Evaluated scope session (block :: blocks) (values.map (value :: ·)) session'

def filled (lead : String) : List Block → List Json → String
  | block :: blocks, value :: values => lead ++ value.display ++ filled block.behind blocks values
  | _, _ => lead

/-- Whether a template is a single block but for blanks. -/
def standsAlone (lead : String) : List Block → Bool
  | [block] => Text.isAllBlank lead && Text.isAllBlank block.behind
  | _ => false

/-- What the template comes to: a block that stands alone keeps the kind of its value. -/
def rendered (lead : String) (blocks : List Block) (values : List Json) : Json :=
  match standsAlone lead blocks, values with
  | true, [value] => value
  | _, _ => .str (filled lead blocks values)

/-! The pieces of an assembled template. -/

def parts (lead : String) : List Block → List Segment
  | [] => textSegment lead.toList
  | block :: blocks => textSegment lead.toList ++ .block block.source.toList :: parts block.behind blocks

section
variable {cs rest : List Char} {lead : String} {block : Block} {blocks : List Block}

private theorem indexOf?_openMark (hcs : Text.indexOf? openMark cs = none) (hlast : cs.getLast? ≠ some '\x7b') :
    Text.indexOf? openMark (cs ++ (openMark ++ rest)) = some cs.length := by
  induction cs with
  | nil => rfl
  | cons c cs ih =>
    rw [Text.indexOf?] at hcs
    split at hcs
    · cases hcs
    · rename_i hstart
      have hcs' := Option.map_eq_none_iff.mp hcs
      have hstart' : Text.startsWith openMark (c :: (cs ++ (openMark ++ rest))) = false := by
        cases cs with
        | nil =>
          have hc : '\x7b' ≠ c := by
            rintro rfl
            exact hlast rfl
          simp [Text.startsWith, openMark, Text.afterStart?, hc]
        | cons d cs =>
          revert hstart
          simp [Text.startsWith, openMark, Text.afterStart?]
      have hlast' : cs.getLast? ≠ some '\x7b' := by
        cases cs with
        | nil => simp
        | cons d cs => simpa using hlast
      rw [List.cons_append, Text.indexOf?, hstart', ih hcs' hlast']
      rfl

private theorem cut?_openMark (hcs : Text.indexOf? openMark cs = none) (hlast : cs.getLast? ≠ some '\x7b') :
    Text.cut? openMark (cs ++ (openMark ++ rest)) = some (cs, rest) := by
  rw [Text.cut?, indexOf?_openMark hcs hlast, Option.map_some, List.take_left, ← List.length_append,
    ← List.append_assoc, List.drop_left]

private theorem contains_openMark :
    Text.contains lead "\x7b\x7b" = false ↔ Text.indexOf? openMark lead.toList = none := by
  rw [Text.contains, Option.isSome_eq_false_iff, Option.isNone_iff_eq_none]
  rfl

private theorem toList_assemble_cons : (assemble lead (block :: blocks)).toList =
    lead.toList ++ (openMark ++ (block.source.toList ++
      '\x7d' :: '\x7d' :: (assemble block.behind blocks).toList)) := by
  simp [assemble, openMark]

private theorem segmentsFrom_assemble {fuel : Nat} (hfuel : blocks.length < fuel) (h : Unmarked lead blocks) :
    segmentsFrom fuel (assemble lead blocks).toList = .ok (parts lead blocks) := by
  induction blocks generalizing fuel lead with
  | nil =>
    obtain ⟨fuel, rfl⟩ := Nat.exists_eq_succ_of_ne_zero (Nat.ne_of_gt hfuel)
    rw [segmentsFrom, assemble, Text.cut?, contains_openMark.mp h]
    rfl
  | cons block blocks ih =>
    obtain ⟨fuel, rfl⟩ := Nat.exists_eq_succ_of_ne_zero (Nat.ne_of_gt (Nat.zero_lt_of_lt hfuel))
    obtain ⟨hlead, hlast, hblocks⟩ := h
    rw [segmentsFrom, toList_assemble_cons, cut?_openMark (contains_openMark.mp hlead) hlast]
    dsimp only
    rw [blockEnd?_of_parse block.parsed]
    dsimp only
    rw [List.take_left, List.drop_length_add_append]
    change (segmentsFrom fuel (assemble block.behind blocks).toList >>= _) = _
    rw [ih (by simpa using hfuel) hblocks]
    rfl

private theorem length_le_assemble : blocks.length ≤ (assemble lead blocks).toList.length := by
  induction blocks generalizing lead with
  | nil => simp
  | cons block blocks ih =>
    have hblocks : blocks.length ≤ (assemble block.behind blocks).toList.length := ih
    rw [toList_assemble_cons]
    simp only [List.length_append, List.length_cons]
    omega

private theorem segments_assemble (h : Unmarked lead blocks) :
    segments (assemble lead blocks).toList = .ok (parts lead blocks) :=
  segmentsFrom_assemble (Nat.lt_succ_of_le length_le_assemble) h

private theorem head?_assemble (hlead : lead.toList.head? ≠ some '=') :
    (assemble lead blocks).toList.head? ≠ some '=' := by
  cases blocks with
  | nil => exact hlead
  | cons block blocks =>
    rw [toList_assemble_cons, List.head?_append]
    cases hhead : lead.toList.head? with
    | none => simp [openMark]
    | some c => simpa [hhead] using hlead

private theorem body_assemble {mark : String} (hmark : mark = "" ∨ mark = "=") (hlead : lead.toList.head? ≠ some '=') :
    body (mark ++ assemble lead blocks) = (assemble lead blocks).toList := by
  rcases hmark with rfl | rfl
  · rw [String.empty_append, body]
    split
    · rename_i rest hrest
      exact absurd (by rw [hrest]; rfl) (head?_assemble hlead)
    · rfl
  · rw [body, String.toList_append]
    rfl

private theorem filter_textSegment : (textSegment cs).filter Segment.isBlock = [] := by
  rw [textSegment]
  split <;> rfl

private theorem filter_parts :
    (parts lead blocks).filter Segment.isBlock = blocks.map (fun block => .block block.source.toList) := by
  induction blocks generalizing lead with
  | nil => exact filter_textSegment
  | cons block blocks ih =>
    rw [parts, List.filter_append, filter_textSegment, List.nil_append, List.filter_cons_of_pos rfl, ih]
    rfl

private theorem all_textSegment {f : Segment → Bool} (hf : f (.text cs) = cs.all Text.isBlank) :
    (textSegment cs).all f = cs.all Text.isBlank := by
  rw [textSegment]
  split
  · rename_i hcs
    rw [List.isEmpty_iff.mp hcs]
    rfl
  · rw [List.all_cons, hf, List.all_nil, Bool.and_true]

private theorem loneBlock?_parts : loneBlock? (parts lead blocks) =
    if standsAlone lead blocks then blocks.head?.map (·.source.toList) else none := by
  rw [loneBlock?, filter_parts]
  match blocks with
  | [] => rfl
  | [block] =>
    simp only [List.map_cons, List.map_nil, parts, List.all_append, List.all_cons, Bool.true_and]
    rw [all_textSegment rfl, all_textSegment rfl]
    rfl
  | _ :: _ :: _ => rfl

/-! Evaluation of the pieces. -/

variable {scope : Scope} {session session' : Session}

private theorem evaluateText_source :
    Expr.evaluateText scope (String.ofList block.source.toList) = Expr.evaluate scope block.expr := by
  rw [String.ofList_toList, Expr.evaluateText, block.parsed]
  rfl

private theorem join_mapM_textSegment {segments : List Segment} :
    String.join <$> (textSegment cs ++ segments).mapM (splice scope) =
      (String.ofList cs ++ ·) <$> String.join <$> segments.mapM (splice scope) := by
  rw [textSegment]
  split
  · rename_i hcs
    rw [List.isEmpty_iff.mp hcs]
    simp only [List.nil_append, String.ofList_nil, String.empty_append, id_map']
  · rw [List.singleton_append, List.mapM_cons, splice, pure_bind]
    simp only [← bind_pure_comp, bind_assoc, pure_bind, String.join_cons]

private theorem join_mapM_block {segments : List Segment} :
    String.join <$> (Segment.block block.source.toList :: segments).mapM (splice scope) =
      Expr.evaluate scope block.expr >>= fun value =>
        (value.display ++ ·) <$> String.join <$> segments.mapM (splice scope) := by
  rw [List.mapM_cons, splice, evaluateText_source]
  simp only [← bind_pure_comp, bind_assoc, pure_bind, String.join_cons]

private theorem run_splices {values : Except EvalError (List Json)}
    (h : Evaluated scope session blocks values session') :
    (String.join <$> (parts lead blocks).mapM (splice scope)).run session =
      (values.map (filled lead blocks), session') := by
  induction h generalizing lead with
  | nothing =>
    rw [parts, ← List.append_nil (textSegment lead.toList), join_mapM_textSegment, Eval.run_map, String.ofList_toList]
    exact Prod.ext (congrArg Except.ok (String.append_empty)) rfl
  | failure herror =>
    rw [parts, join_mapM_textSegment, join_mapM_block, Eval.run_map, Eval.run_bind_of_error herror]
    rfl
  | @value _ _ _ block blocks value values hvalue _ ih =>
    rw [parts, join_mapM_textSegment, join_mapM_block, Eval.run_map, Eval.run_bind_of_ok hvalue, Eval.run_map, ih]
    cases values with
    | error error => rfl
    | ok values => simp [Except.map, filled, String.append_assoc]

private theorem run_lone {values : Except EvalError (List Json)} (h : Evaluated scope session [block] values session')
    (hlone : standsAlone lead [block] = true) :
    (Expr.evaluate scope block.expr).run session = (values.map (rendered lead [block]), session') := by
  cases h with
  | failure herror => exact herror
  | value hvalue hrest =>
    cases hrest
    rw [hvalue]
    simp [Except.map, rendered, hlone]

private theorem evaluate_assemble {values : Except EvalError (List Json)} {mark : String}
    (hmark : mark = "" ∨ mark = "=") (hlead : lead.toList.head? ≠ some '=') (hblocks : Unmarked lead blocks)
    (h : Evaluated scope session blocks values session') :
    (evaluate scope (mark ++ assemble lead blocks)).run session =
      (values.map (rendered lead blocks), session') := by
  rw [evaluate, body_assemble hmark hlead, segments_assemble hblocks, Expr.liftOutcome, pure_bind,
    loneBlock?_parts]
  cases hlone : standsAlone lead blocks with
  | true =>
    match blocks with
    | [block] =>
      rw [← run_lone h hlone, ← evaluateText_source]
      rfl
  | false =>
    have hrendered : rendered lead blocks = Json.str ∘ filled lead blocks := by
      funext values
      simp [rendered, hlone]
    change (((parts lead blocks).mapM (splice scope)) >>= fun texts => pure (Json.str (String.join texts))).run
      session = _
    have hmap : ((parts lead blocks).mapM (splice scope) >>= fun texts => pure (Json.str (String.join texts))) =
        Json.str <$> String.join <$> (parts lead blocks).mapM (splice scope) := by
      simp only [← bind_pure_comp, bind_assoc, pure_bind]
    rw [hmap, Eval.run_map, run_splices h, hrendered]
    cases values <;> rfl

private theorem exists_evaluated (scope : Scope) (session : Session) (blocks : List Block) :
    ∃ values session', Evaluated scope session blocks values session' := by
  induction blocks generalizing session with
  | nil => exact ⟨_, _, .nothing⟩
  | cons block blocks ih =>
    match hrun : (Expr.evaluate scope block.expr).run session with
    | (.error error, session') => exact ⟨_, _, .failure hrun⟩
    | (.ok value, session₁) =>
      obtain ⟨values, session', h⟩ := ih session₁
      exact ⟨_, _, .value hrun h⟩

private theorem run_located {α : Type} {x : Eval α} {text : String} : (located scope text x).run session =
    ((x.run session).1.mapError (setback scope text), (x.run session).2) :=
  rfl

/-- A template put together from texts and expressions, with or without the sign in front, evaluates just these
expressions from left to right. It comes to the value of a block that stands alone, else to the texts with the
values between them as they are. The first expression that fails is the last one that is evaluated, and its message is
reported with the whole template and the item; where one breaks down, nothing is reported. -/
theorem render_assemble {mark : String} (hmark : mark = "" ∨ mark = "=")
    (hlead : lead.toList.head? ≠ some '=') (hblocks : Unmarked lead blocks) (scope : Scope) (session : Session) :
    ∃ values session', Evaluated scope session blocks values session' ∧
      (render scope (mark ++ assemble lead blocks)).run session =
        ((values.map (rendered lead blocks)).mapError (setback scope (mark ++ assemble lead blocks)), session') := by
  obtain ⟨values, session', h⟩ := exists_evaluated scope session blocks
  refine ⟨values, session', h, ?_⟩
  rw [render, run_located, evaluate_assemble hmark hlead hblocks h]

end

private theorem parse_bracedText :
    Expr.parse "\x7ba: '\x7d\x7d'\x7d" = .ok (.object [("a", .literal (.str "\x7d\x7d"))]) := by
  have hlength : "\x7ba: '\x7d\x7d'\x7d".utf8ByteSize = 9 := rfl
  refine Expr.parse_eq_ok_iff.mpr ⟨by rw [hlength]; decide,
    [.punct .openBrace, .name "a", .punct .colon, .text "\x7d\x7d", .punct .closeBrace], ?_, 2, by decide, ?_⟩
  · change Token.scanFrom 0 ['\x7b', 'a', ':', ' ', '\'', '\x7d', '\x7d', '\'', '\x7d'] = _
    refine Token.scanFrom_token rfl rfl ?_
    refine Token.scanFrom_token rfl rfl ?_
    refine Token.scanFrom_token rfl rfl ?_
    refine Token.scanFrom_blank rfl ?_
    refine Token.scanFrom_token rfl rfl ?_
    refine Token.scanFrom_token rfl rfl ?_
    exact Token.scanFrom_nil
  · have hvalue : Expr.Reads (.expression (.literal (.str "\x7d\x7d"))) 1 [.text "\x7d\x7d", .punct .closeBrace]
        [.punct .closeBrace] :=
      .plain (.operation (.accessed rfl .text (.noAccess rfl)) (.noOperator rfl)) (by simp)
    exact .plain (.operation (.accessed rfl (.object (.lastEntry rfl hvalue)) (.noAccess rfl)) (.noOperator rfl))
      (by simp)

/-- A template with an object in its block, whose text holds closing braces. -/
def bracedTemplate : List Block :=
  [{ source := "\x7ba: '\x7d\x7d'\x7d", expr := .object [("a", .literal (.str "\x7d\x7d"))],
     parsed := parse_bracedText, behind := "!" }]

def blankScope : Scope := .ofItems ⟨0, 0, 0⟩ [] 0 [] []

theorem render_assemble_bracedTemplate :
    Unmarked "is " bracedTemplate ∧ ∃ values session',
      Evaluated blankScope Session.start bracedTemplate values session' ∧
      (render blankScope ("=" ++ assemble "is " bracedTemplate)).run Session.start =
        ((values.map (rendered "is " bracedTemplate)).mapError
          (setback blankScope ("=" ++ assemble "is " bracedTemplate)), session') := by
  have hunmarked : Unmarked "is " bracedTemplate := ⟨rfl, by decide, rfl⟩
  exact ⟨hunmarked, render_assemble (.inr rfl) (by decide) hunmarked blankScope Session.start⟩

end FlowEngine.Template
