import FlowEngine.Proofs.Http.Host
import FlowEngine.Proofs.Text.Search

/-! Which locations are screened out. Addresses that are not public are said as blocks of the address space, internal
names by the domains above them; what the screening does is compared to that. -/
namespace FlowEngine

namespace Http

/-- The addresses that agree with `base` but for their last `free` bits. -/
structure Block where
  base : Nat
  free : Nat

namespace Block

def Has (block : Block) (number : Nat) : Prop := number / 2 ^ block.free = block.base / 2 ^ block.free

/-- The addresses of the second kind that stand for those of a block of the first kind. -/
def mapped (block : Block) : Block := ⟨0xFFFF * 2 ^ 32 + block.base, block.free⟩

/-- 127.0.0.0/8, 10.0.0.0/8, 172.16.0.0/12, 192.168.0.0/16, 169.254.0.0/16, 255.255.255.255, 0.0.0.0 and
100.64.0.0/10. -/
def internalV4 : List Block :=
  [⟨127 * 2 ^ 24, 24⟩, ⟨10 * 2 ^ 24, 24⟩, ⟨172 * 2 ^ 24 + 16 * 2 ^ 16, 20⟩, ⟨192 * 2 ^ 24 + 168 * 2 ^ 16, 16⟩,
    ⟨169 * 2 ^ 24 + 254 * 2 ^ 16, 16⟩, ⟨2 ^ 32 - 1, 0⟩, ⟨0, 0⟩, ⟨100 * 2 ^ 24 + 64 * 2 ^ 16, 22⟩]

def uniqueLocal : Block := ⟨0xFC00 * 2 ^ 112, 121⟩

def linkLocal : Block := ⟨0xFE80 * 2 ^ 112, 118⟩

def internalV6 : List Block := ⟨0, 0⟩ :: ⟨1, 0⟩ :: (internalV4.map mapped ++ [uniqueLocal, linkLocal])

end Block

namespace Address

def numberOfPieces (pieces : List Nat) : Nat := Nat.ofDigits (2 ^ 16) pieces.reverse

/-- Addresses of the machine itself and of networks that are not public. -/
def InInternalBlock : Address → Prop
  | v4 value => ∃ block ∈ Block.internalV4, block.Has value
  | v6 pieces => ∃ block ∈ Block.internalV6, block.Has (numberOfPieces pieces)

/-- Addresses of networks that only addresses of the second kind have. -/
def InLocalBlock : Address → Prop
  | v4 _ => False
  | v6 pieces => Block.uniqueLocal.Has (numberOfPieces pieces) ∨ Block.linkLocal.Has (numberOfPieces pieces)

private theorem isInternalV4_iff {value : Nat} (h : value < 2 ^ 32) :
    isInternalV4 value = true ↔ ∃ block ∈ Block.internalV4, block.Has value := by
  simp only [isInternalV4, byte, Bool.or_eq_true, Bool.and_eq_true, beq_iff_eq, or_assoc, Block.internalV4, Block.Has,
    List.exists_mem_cons_iff, List.not_mem_nil, false_and, exists_false, or_false]
  refine or_congr ?_ (or_congr ?_ (or_congr ?_ (or_congr ?_ (or_congr ?_ (or_congr ?_ (or_congr ?_ ?_)))))) <;> omega

private theorem isInternal_v6_iff {pieces : List Nat} : isInternal (v6 pieces) = true ↔
    pieces = [0, 0, 0, 0, 0, 0, 0, 0] ∨ pieces = [0, 0, 0, 0, 0, 0, 0, 1] ∨
      ∃ hi lo, pieces = [0, 0, 0, 0, 0, 0xFFFF, hi, lo] ∧ isInternalV4 (65536 * hi + lo) = true := by
  unfold isInternal
  split <;> simp_all

private theorem numberOfPieces_inj {pieces pieces' : List Nat} (h : (v6 pieces).IsWellFormed)
    (h' : (v6 pieces').IsWellFormed) : numberOfPieces pieces = numberOfPieces pieces' ↔ pieces = pieces' := by
  refine ⟨fun hnumber => List.reverse_injective ?_, congrArg numberOfPieces⟩
  refine Nat.ofDigits_inj_of_len_eq (by decide) ?_ (fun d hd => h.2 d (List.mem_reverse.mp hd))
    (fun d hd => h'.2 d (List.mem_reverse.mp hd)) hnumber
  rw [List.length_reverse, List.length_reverse, h.1, h'.1]

private theorem numberOfPieces_mapped {hi lo : Nat} :
    numberOfPieces [0, 0, 0, 0, 0, 0xFFFF, hi, lo] = 0xFFFF * 2 ^ 32 + (65536 * hi + lo) := by
  simp [numberOfPieces, Nat.ofDigits]
  omega

/-- What an address of the second kind is, by its number. -/
private theorem isInternal_v6_iff_number {pieces : List Nat} (h : (v6 pieces).IsWellFormed) :
    isInternal (v6 pieces) = true ↔ numberOfPieces pieces = 0 ∨ numberOfPieces pieces = 1 ∨
      numberOfPieces pieces / 2 ^ 32 = 0xFFFF ∧ isInternalV4 (numberOfPieces pieces % 2 ^ 32) = true := by
  rw [isInternal_v6_iff]
  refine or_congr (numberOfPieces_inj h ⟨rfl, by decide⟩).symm
    (or_congr (numberOfPieces_inj h ⟨rfl, by decide⟩).symm ⟨?_, fun ⟨hmapped, hinternal⟩ => ?_⟩)
  · rintro ⟨hi, lo, rfl, hinternal⟩
    have hhi := h.2 hi (by simp)
    have hlo := h.2 lo (by simp)
    rw [numberOfPieces_mapped]
    refine ⟨by omega, ?_⟩
    rwa [show (0xFFFF * 2 ^ 32 + (65536 * hi + lo)) % 2 ^ 32 = 65536 * hi + lo by omega]
  · generalize hn : numberOfPieces pieces = n at hmapped hinternal
    have hsplit : 65536 * (n % 2 ^ 32 / 2 ^ 16) + n % 2 ^ 16 = n % 2 ^ 32 := by omega
    refine ⟨n % 2 ^ 32 / 2 ^ 16, n % 2 ^ 16, ?_, hsplit ▸ hinternal⟩
    refine (numberOfPieces_inj h ⟨rfl, ?_⟩).mp ?_
    · simp only [List.forall_mem_cons, List.not_mem_nil, false_imp_iff, implies_true, and_true]
      omega
    · rw [numberOfPieces_mapped]
      omega

end Address

namespace Block
variable {block : Block} {n : Nat}

/-- A block within 32 bits bounds the bits above them exactly, those below them as the block itself does. -/
private theorem mapped_has_iff (hfree : block.free ≤ 32) (hbase : block.base < 2 ^ 32) :
    block.mapped.Has n ↔ n / 2 ^ 32 = 0xFFFF ∧ block.Has (n % 2 ^ 32) := by
  have hsplit : 2 ^ 32 = 2 ^ block.free * 2 ^ (32 - block.free) := by
    rw [← Nat.pow_add, show block.free + (32 - block.free) = 32 by omega]
  have hparts (a b : Nat) : a / 2 ^ block.free = b / 2 ^ block.free ↔
      a / 2 ^ 32 = b / 2 ^ 32 ∧ a % 2 ^ 32 / 2 ^ block.free = b % 2 ^ 32 / 2 ^ block.free := by
    rw [hsplit, ← Nat.div_div_eq_div_mul, ← Nat.div_div_eq_div_mul, Nat.mod_mul_right_div_self,
      Nat.mod_mul_right_div_self]
    refine ⟨fun h => by rw [h]; exact ⟨rfl, rfl⟩, fun ⟨hdiv, hmod⟩ => ?_⟩
    rw [← Nat.div_add_mod (a / 2 ^ block.free) (2 ^ (32 - block.free)), hdiv, hmod, Nat.div_add_mod]
  rw [Has, mapped, hparts, show (0xFFFF * 2 ^ 32 + block.base) / 2 ^ 32 = 0xFFFF by omega,
    show (0xFFFF * 2 ^ 32 + block.base) % 2 ^ 32 = block.base by omega]
  rfl

private theorem internalV4_within : ∀ block ∈ internalV4, block.free ≤ 32 ∧ block.base < 2 ^ 32 := by
  decide

private theorem exists_internalV6_iff : (∃ block ∈ internalV6, block.Has n) ↔
    (n = 0 ∨ n = 1 ∨ n / 2 ^ 32 = 0xFFFF ∧ ∃ block ∈ internalV4, block.Has (n % 2 ^ 32)) ∨
      uniqueLocal.Has n ∨ linkLocal.Has n := by
  have hmapped : (∃ block ∈ internalV4.map mapped, block.Has n) ↔
      n / 2 ^ 32 = 0xFFFF ∧ ∃ block ∈ internalV4, block.Has (n % 2 ^ 32) := by
    constructor
    · rintro ⟨_, hmem, hhas⟩
      obtain ⟨block, hblock, rfl⟩ := List.mem_map.mp hmem
      obtain ⟨hfree, hbase⟩ := internalV4_within block hblock
      obtain ⟨hhigh, hlow⟩ := (mapped_has_iff hfree hbase).mp hhas
      exact ⟨hhigh, block, hblock, hlow⟩
    · rintro ⟨hhigh, block, hblock, hlow⟩
      obtain ⟨hfree, hbase⟩ := internalV4_within block hblock
      exact ⟨_, List.mem_map_of_mem hblock, (mapped_has_iff hfree hbase).mpr ⟨hhigh, hlow⟩⟩
  have hzero : Has ⟨0, 0⟩ n ↔ n = 0 := by simp [Has]
  have hone : Has ⟨1, 0⟩ n ↔ n = 1 := by simp [Has]
  have hlocal : (∃ block ∈ [uniqueLocal, linkLocal], block.Has n) ↔ uniqueLocal.Has n ∨ linkLocal.Has n := by simp
  simp only [internalV6, List.exists_mem_cons_iff, List.mem_append, or_and_right, exists_or, hmapped, hzero, hone,
    hlocal, or_assoc]

/-- The networks of the second kind only lie above all other internal addresses. -/
private theorem le_of_has_local (h : uniqueLocal.Has n ∨ linkLocal.Has n) : 2 ^ 48 ≤ n := by
  simp only [Has, uniqueLocal, linkLocal] at h
  omega

end Block

namespace Address
variable {address : Address}

/-- Of the internal addresses, just those that only the second kind has are not recognized. -/
private theorem isInternal_iff (h : address.IsWellFormed) :
    address.isInternal = true ↔ address.InInternalBlock ∧ ¬ address.InLocalBlock := by
  cases address with
  | v4 value => exact (isInternalV4_iff h).trans (and_iff_left not_false).symm
  | v6 pieces =>
    rw [isInternal_v6_iff_number h, isInternalV4_iff (Nat.mod_lt _ (by decide)), InInternalBlock,
      Block.exists_internalV6_iff, InLocalBlock]
    generalize numberOfPieces pieces = n
    constructor
    · intro hinternal
      refine ⟨.inl hinternal, fun hlocal => ?_⟩
      have hle := Block.le_of_has_local hlocal
      omega
    · rintro ⟨hinternal | hlocal, hnot⟩
      · exact hinternal
      · exact absurd hlocal hnot

private theorem isInternal_of_isThisMachine (h : address.isThisMachine = true) : address.isInternal = true := by
  simp only [isThisMachine, Bool.or_eq_true, beq_iff_eq] at h
  obtain (rfl | rfl) | rfl := h <;> rfl

end Address

def withoutRoot (name : List Char) : List Char := if name.getLast? = some '.' then name.dropLast else name

def IsLocalName (name : List Char) : Prop :=
  name = "localhost".toList ∨ ∃ domain ∈ ["local", "internal", "localhost"], '.' :: domain.toList <:+ name

private theorem getLast?_of_isLocalName {cs : List Char} (h : IsLocalName cs) : cs.getLast? ≠ some '.' := by
  obtain rfl | ⟨domain, hdomain, before, rfl⟩ := h
  · decide
  · have hall : ∀ domain ∈ ["local", "internal", "localhost"], ('.' :: domain.toList).getLast? ≠ some '.' := by decide
    rw [List.getLast?_append_of_ne_nil before (List.cons_ne_nil _ _)]
    exact hall domain hdomain

namespace Host
variable {host : Host}

/-- Hosts that are not public; the case of letters and the point of the root do not count. -/
def IsInternal : Host → Prop
  | name text => IsLocalName (withoutRoot (Text.lowerAscii text).toList)
  | address value => value.InInternalBlock

/-- Names with the point of the root, and addresses of the networks that only the second kind has. -/
def EscapesScreening : Host → Prop
  | name text => text.toList.getLast? = some '.'
  | address value => value.InLocalBlock

private theorem exists_refusal_name_iff {text : String} :
    (∃ refusal, (name text).refusal? = some refusal) ↔ IsLocalName (Text.lower text).toList := by
  have hendings : (internalEndings.any fun ending => Text.endsWith ending.toList (Text.lower text).toList) = true ↔
      ∃ domain ∈ ["local", "internal", "localhost"], '.' :: domain.toList <:+ (Text.lower text).toList := by
    rw [show internalEndings = ["local", "internal", "localhost"].map ("." ++ ·) by rfl, List.any_map, List.any_eq_true]
    simp only [Function.comp_apply, Text.endsWith_iff, String.toList_append]
    rfl
  rw [IsLocalName, String.toList_inj, ← hendings, refusal?]
  split
  · simp_all
  · split <;> simp_all

example : (name "localhost.").refusal? = none := by decide

/-- Of the hosts that are not public, just those that escape screening are let through. -/
private theorem exists_refusal_iff (h : host.IsCanonical) :
    (∃ refusal, host.refusal? = some refusal) ↔ host.IsInternal ∧ ¬ host.EscapesScreening := by
  cases host with
  | address value =>
    rw [IsInternal, EscapesScreening, ← Address.isInternal_iff h, refusal?]
    have : value.isThisMachine = true → value.isInternal = true := Address.isInternal_of_isThisMachine
    split
    · simp_all
    · split <;> simp_all
  | name text =>
    rw [IsInternal, EscapesScreening, h.1.lowerAscii_eq, exists_refusal_name_iff, h.1.lower_eq, withoutRoot]
    split
    · rename_i hroot
      exact ⟨fun hname => absurd hroot (getLast?_of_isLocalName hname), fun hname => absurd hroot hname.2⟩
    · rename_i hroot
      exact (and_iff_left hroot).symm

end Host

private theorem exists_screen_eq_error_iff {read : Url.Reader} {text : String} {url : Url} (hread : read text = .ok url)
    (hscheme : url.scheme = "http" ∨ url.scheme = "https") :
    (∃ refusal, screen read false text = .error refusal) ↔ ∃ refusal, url.host.bind Host.refusal? = some refusal := by
  have hpass : (url.scheme != "http" && url.scheme != "https") = false := by
    obtain hscheme | hscheme := hscheme <;> rw [hscheme] <;> rfl
  rw [screen, hread]
  dsimp only
  rw [hpass]
  cases url.host.bind Host.refusal? <;> simp

/-- Whatever reads locations, as long as it gives hosts in their plain form: screening refuses a location just if its
host is not public and does not escape it. Names that end in the point of the root do, and so do addresses of fc00::/7 and
fe80::/10. -/
theorem screen_refuses_iff_internal {read : Url.Reader} (hcanonical : read.IsCanonical) {text : String} {url : Url}
    (hread : read text = .ok url) (hscheme : url.scheme = "http" ∨ url.scheme = "https") :
    ∃ host, url.host = some host ∧
      ((∃ refusal, screen read false text = .error refusal) ↔ host.IsInternal ∧ ¬ host.EscapesScreening) := by
  have hspecial : Url.isSpecial url.scheme = true := by
    obtain hscheme | hscheme := hscheme <;> rw [hscheme] <;> rfl
  obtain ⟨host, hhost, hplain⟩ := hcanonical text url hread hspecial
  refine ⟨host, hhost, ?_⟩
  rw [exists_screen_eq_error_iff hread hscheme, hhost, Option.bind_some]
  exact Host.exists_refusal_iff hplain

theorem screen_refuses_iff_internal_linkLocal : ∃ url host, Url.read "http://[fe80::1]/" = .ok url ∧
    url.host = some host ∧ host.IsInternal ∧ ¬ ∃ refusal, screen Url.read false "http://[fe80::1]/" = .error refusal := by
  let address : Address := .v6 [0xFE80, 0, 0, 0, 0, 0, 0, 1]
  have hread : Url.read "http://[fe80::1]/" =
      .ok ⟨"http", "", "", some (.address address), none, "/", none, none⟩ := rfl
  obtain ⟨host, hhost, hrefused⟩ := screen_refuses_iff_internal Url.read_isCanonical hread (.inl rfl)
  obtain rfl : Host.address address = host := Option.some.inj hhost
  have hlocal : Block.linkLocal.Has (Address.numberOfPieces [0xFE80, 0, 0, 0, 0, 0, 0, 1]) := by
    simp [Block.Has, Block.linkLocal, Address.numberOfPieces, Nat.ofDigits]
  refine ⟨_, _, hread, rfl, ⟨Block.linkLocal, by simp [Block.internalV6], hlocal⟩, fun hrefusal => ?_⟩
  exact (hrefused.mp hrefusal).2 (.inr hlocal)

end Http
end FlowEngine
