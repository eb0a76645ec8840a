import FlowEngine.Codec.Encoding
import FlowEngine.Proofs.Text.Search
import Mathlib.Tactic.Common

/-! Markup in texts. What is written has no character with a meaning in markup but the ampersands of its entities, and it
is read back to the text. Reading resolves one entity after the other in the whole text; the invariant is a text in which
some characters are still written as entities and the others stand for themselves. -/
namespace FlowEngine.Entity
open Text (substitute substitute_match substitute_cons substitute_of_notMem substitute_flatMap)
variable {c : Char} {name name' replacement rest cs : List Char} {resolved : List String} {entity : String × Char}

/-- The entities that writing uses. -/
def written : List String := ["&amp;", "&lt;", "&gt;", "&quot;", "&#39;"]

/-! Names between an ampersand and a semicolon. -/

def reference (name : List Char) : List Char := '&' :: (name ++ [';'])

/-- A name in which no entity begins or ends. -/
structure IsName (name : List Char) : Prop where
  no_start : '&' ∉ name
  no_end : ';' ∉ name

private theorem prefix_reference_iff (hname : ';' ∉ name) (hname' : ';' ∉ name') :
    reference name <+: reference name' ++ rest ↔ name = name' := by
  constructor
  · rintro ⟨behind, h⟩
    simp only [reference, List.cons_append, List.append_assoc, List.cons.injEq, true_and] at h
    have hstop (name tail : List Char) (hname : ';' ∉ name) : (name ++ ';' :: tail).takeWhile (· != ';') = name := by
      rw [List.takeWhile_append_of_pos fun c hc => by simpa using fun h : c = ';' => hname (h ▸ hc)]
      simp
    have htake := congrArg (List.takeWhile (· != ';')) h
    rwa [List.nil_append, hstop name _ hname, hstop name' _ hname'] at htake
  · rintro rfl
    exact List.prefix_append _ _

/-- Resolving one entity leaves the others as they are. -/
private theorem substitute_reference (hname : IsName name) (hname' : IsName name') :
    substitute (reference name) replacement 0 (reference name' ++ rest) =
      (if name' = name then replacement else reference name') ++ substitute (reference name) replacement 0 rest := by
  split
  case isTrue h =>
    subst h
    exact substitute_match
  case isFalse h =>
    have hstart : ¬reference name <+: '&' :: (name' ++ [';'] ++ rest) := fun hmatch =>
      h ((prefix_reference_iff hname.no_end hname'.no_end).mp hmatch).symm
    have hinside : '&' ∉ name' ++ [';'] := by simpa using hname'.no_start
    exact (substitute_cons hstart).trans (congrArg _ (substitute_of_notMem hinside))

private theorem substitute_char (hc : c ≠ '&') :
    substitute (reference name) replacement 0 ([c] ++ rest) = [c] ++ substitute (reference name) replacement 0 rest :=
  substitute_of_notMem (by simpa using hc.symm)

/-! Characters as they are written. -/

private theorem encodeChar_cases (c : Char) :
    (c ≠ '&' ∧ c ≠ '<' ∧ c ≠ '>' ∧ c ≠ '\x22' ∧ c ≠ '\'' ∧ encodeChar c = [c]) ∨
      ∃ entity ∈ written, encodeChar c = entity.toList := by
  fun_cases encodeChar c with
  | case6 _ hamp hlt hgt hquot hapos => exact .inl ⟨hamp, hlt, hgt, hquot, hapos, rfl⟩
  | _ => exact .inr (by decide)

/-- A character that is written as an entity is what the entity stands for. -/
private theorem eq_of_encodeChar (hentity : entity ∈ entities) (h : encodeChar c = entity.1.toList) : c = entity.2 := by
  revert h
  fun_cases encodeChar c with
  | case6 =>
    intro h
    have hlength : ∀ entity ∈ entities, entity.1.toList.length ≠ 1 := by decide
    exact absurd (congrArg List.length h).symm (hlength entity hentity)
  | _ =>
    revert entity
    decide

private theorem exists_name (hentity : entity ∈ entities) : ∃ name, IsName name ∧ entity.1.toList = reference name := by
  have hnames : ∀ entity ∈ entities, ('&' ∉ entity.1.toList.tail.dropLast ∧ ';' ∉ entity.1.toList.tail.dropLast) ∧
      entity.1.toList = reference entity.1.toList.tail.dropLast := by decide
  obtain ⟨⟨hstart, hend⟩, hchars⟩ := hnames entity hentity
  exact ⟨_, ⟨hstart, hend⟩, hchars⟩

private theorem exists_entity_of_written {text : String} (h : text ∈ written) :
    ∃ entity ∈ entities, entity.1 = text := by
  revert text
  decide

/-! Texts in which some entities are resolved. -/

def partlyEncoded (resolved : List String) (c : Char) : List Char :=
  if String.ofList (encodeChar c) ∈ resolved then [c] else encodeChar c

/-- One more entity is resolved, as long as ampersands are not. -/
private theorem replaceAll_entity (hentity : entity ∈ entities) (hlast : "&amp;" ∉ resolved) :
    Text.replaceAll (String.ofList (cs.flatMap (partlyEncoded resolved))) entity.1 (String.ofList [entity.2]) =
      String.ofList (cs.flatMap (partlyEncoded (entity.1 :: resolved))) := by
  have hnonempty : ∀ entity ∈ entities, entity.1.isEmpty = false := by decide
  obtain ⟨name, hname, hchars⟩ := exists_name hentity
  rw [Text.replaceAll, hnonempty entity hentity, if_neg Bool.false_ne_true, hchars, String.toList_ofList, String.toList_ofList,
    substitute_flatMap (g := partlyEncoded (entity.1 :: resolved))]
  intro c _ rest
  simp only [partlyEncoded, List.mem_cons]
  by_cases hresolved : String.ofList (encodeChar c) ∈ resolved
  · have hc : c ≠ '&' := by
      rintro rfl
      exact hlast hresolved
    rw [if_pos hresolved, if_pos (.inr hresolved), substitute_char hc]
  · rw [if_neg hresolved]
    rcases encodeChar_cases c with ⟨hc, -, -, -, -, hplain⟩ | ⟨text, htext, hcoded⟩
    · rw [hplain, ite_self, substitute_char hc]
    · obtain ⟨other, hother, rfl⟩ := exists_entity_of_written htext
      obtain ⟨name', hname', hchars'⟩ := exists_name hother
      rw [hcoded, hchars', substitute_reference hname hname']
      by_cases hsame : name' = name
      · subst hsame
        have hc : c = entity.2 := eq_of_encodeChar hentity (by rw [hcoded, hchars, hchars'])
        rw [if_pos rfl, if_pos (.inl (by rw [← hchars, String.ofList_toList])), hc]
      · have hname_ne : String.ofList (reference name') ≠ entity.1 := by
          rintro h
          rw [← h, String.toList_ofList] at hchars
          exact hsame (List.append_cancel_right (List.cons.inj hchars).2)
        rw [hcoded, hchars'] at hresolved
        rw [if_neg hsame, if_neg (not_or.mpr ⟨hname_ne, hresolved⟩)]

/-- All of some entities are resolved, as long as the ampersand's is not among them. -/
private theorem foldl_replaceAll {front : List (String × Char)} (hfront : ∀ entity ∈ front, entity ∈ entities)
    (hlast : "&amp;" ∉ front.map Prod.fst) (hresolved : "&amp;" ∉ resolved) :
    front.foldl (fun s entity => Text.replaceAll s entity.1 (String.ofList [entity.2]))
      (String.ofList (cs.flatMap (partlyEncoded resolved))) =
        String.ofList (cs.flatMap (partlyEncoded ((front.map Prod.fst).reverse ++ resolved))) := by
  induction front generalizing resolved with
  | nil => rfl
  | cons entity front ih =>
    obtain ⟨hentity, hfront⟩ := List.forall_mem_cons.mp hfront
    rw [List.map_cons, List.mem_cons, not_or] at hlast
    rw [List.foldl_cons, replaceAll_entity hentity hresolved, ih hfront hlast.2 (by simp [hlast.1, hresolved])]
    simp

private theorem decode_encode (s : String) : decode (encode s) = s := by
  have hentities : entities = entities.dropLast ++ [("&amp;", '&')] := rfl
  have hamp : ("&amp;", '&') ∈ entities := by decide
  have hstart : encode s = String.ofList (s.toList.flatMap (partlyEncoded [])) := rfl
  have hend (c : Char) : partlyEncoded ("&amp;" :: ((entities.dropLast.map Prod.fst).reverse ++ [])) c = [c] := by
    rcases encodeChar_cases c with ⟨-, -, -, -, -, hplain⟩ | ⟨text, htext, hcoded⟩
    · rw [partlyEncoded, hplain, ite_self]
    · have hall : ∀ text ∈ written, text ∈ "&amp;" :: ((entities.dropLast.map Prod.fst).reverse ++ []) := by decide
      rw [partlyEncoded, hcoded, String.ofList_toList, if_pos (hall text htext)]
  rw [decode, hentities, List.foldl_append, hstart,
    foldl_replaceAll (fun _ => List.mem_of_mem_dropLast) (by decide) (by decide), List.foldl_cons, List.foldl_nil,
    replaceAll_entity hamp (by decide), funext hend, List.flatMap_singleton',
    String.ofList_toList]

/-! What stands in encoded texts. -/

private theorem mem_encodeChar {d : Char} (h : d ∈ encodeChar c) : d ≠ '<' ∧ d ≠ '>' ∧ d ≠ '\x22' ∧ d ≠ '\'' := by
  rcases encodeChar_cases c with ⟨-, hlt, hgt, hquot, hapos, hplain⟩ | ⟨text, htext, hcoded⟩
  · rw [hplain, List.mem_singleton] at h
    subst h
    exact ⟨hlt, hgt, hquot, hapos⟩
  · have hwritten : ∀ text ∈ written, ∀ d ∈ text.toList, d ≠ '<' ∧ d ≠ '>' ∧ d ≠ '\x22' ∧ d ≠ '\'' := by
      simp [written]
    exact hwritten text htext d (hcoded ▸ h)

/-- Before an ampersand that is not in a piece, the whole piece stands. -/
private theorem exists_of_append_eq {piece before behind : List Char} (h : piece ++ rest = before ++ '&' :: behind)
    (hpiece : '&' ∉ piece) : ∃ before', rest = before' ++ '&' :: behind := by
  rcases List.append_eq_append_iff.mp h with ⟨before', rfl, hrest⟩ | ⟨piece', rfl, hamp⟩
  · exact ⟨before', hrest⟩
  · cases piece' with
    | nil => exact ⟨[], hamp.symm⟩
    | cons c piece' =>
      obtain ⟨rfl, -⟩ := List.cons.inj hamp
      exact absurd (List.mem_append_right before List.mem_cons_self) hpiece

/-- Every ampersand that is written starts an entity. -/
private theorem exists_written_of_amp {before behind : List Char}
    (h : cs.flatMap encodeChar = before ++ '&' :: behind) : ∃ entity ∈ written, entity.toList <+: '&' :: behind := by
  induction cs generalizing before with
  | nil => simp at h
  | cons c cs ih =>
    rw [List.flatMap_cons] at h
    rcases encodeChar_cases c with ⟨hc, -, -, -, -, hplain⟩ | ⟨text, htext, hcoded⟩
    · rw [hplain] at h
      obtain ⟨before', hrest⟩ := exists_of_append_eq h (by simpa using hc.symm)
      exact ih hrest
    · obtain ⟨entity, hentity, rfl⟩ := exists_entity_of_written htext
      obtain ⟨name, hname, hchars⟩ := exists_name hentity
      rw [hcoded] at h
      cases before with
      | nil => exact ⟨_, htext, _, h⟩
      | cons d before =>
        rw [hchars, reference, List.cons_append, List.cons_append, List.cons.injEq] at h
        obtain ⟨before', hrest⟩ := exists_of_append_eq h.2 (by simpa using hname.no_start)
        exact ih hrest

/-- Decoding gives back what was encoded, for every text. The encoded text has no brackets and quotes of markup, and no
ampersand but those with which the five entities of these characters begin. -/
theorem encoded_text_has_no_markup (s : String) : decode (encode s) = s ∧
    (∀ c ∈ ['<', '>', '\x22', '\''], c ∉ (encode s).toList) ∧
    ∀ before behind, (encode s).toList = before ++ '&' :: behind →
      ∃ entity ∈ written, entity.toList <+: '&' :: behind := by
  rw [show (encode s).toList = s.toList.flatMap encodeChar from String.toList_ofList]
  refine ⟨decode_encode s, fun c hc hmem => ?_, fun before behind h => exists_written_of_amp h⟩
  obtain ⟨d, -, hd⟩ := List.mem_flatMap.mp hmem
  have hmarkup := mem_encodeChar hd
  simp only [List.mem_cons, List.not_mem_nil, or_false] at hc
  tauto

/-- The entity of a bracket, encoded once more. -/
theorem encoded_text_has_no_markup_nested : decode "&amp;lt;" = "&lt;" ∧
    ∃ entity ∈ written, entity.toList <+: ['&', 'a', 'm', 'p', ';', 'l', 't', ';'] := by
  have hencode : encode "&lt;" = "&amp;lt;" := by decide +kernel
  have h := encoded_text_has_no_markup "&lt;"
  rw [hencode] at h
  exact ⟨h.1, h.2.2 [] _ (by decide +kernel)⟩

end FlowEngine.Entity
