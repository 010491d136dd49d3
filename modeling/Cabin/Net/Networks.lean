import Cabin.Net.IpText
import Mathlib.Tactic.Ring

/-!
# Networks from their texts

`ipaddress.ip_network`: an address, a slash and a prefix length, or for IPv4 a netmask or a hostmask.

* `Network.parse` reads address and prefix; `ipNetwork` checks in addition that no bit of the address is
  set behind the prefix, or clears them.
* The address of an IPv6 network keeps its scope.
* `ipNetwork_address`: an address with its full length is the network of this address alone.
-/

namespace Cabin

/-- A network as it is read: the scope of its address is kept. -/
structure Network where
  /-- Address and prefix. -/
  network : IpNetwork
  /-- The scope of the address. -/
  scope : Option Str
  deriving DecidableEq, Repr

namespace IpNetwork

/-- The bits behind the prefix cleared. -/
def masked : IpNetwork → IpNetwork
  | v4 n len =>
    v4 ⟨n.val / 2 ^ (32 - len.val) * 2 ^ (32 - len.val), (Nat.div_mul_le_self _ _).trans_lt n.isLt⟩ len
  | v6 n len =>
    v6 ⟨n.val / 2 ^ (128 - len.val) * 2 ^ (128 - len.val), (Nat.div_mul_le_self _ _).trans_lt n.isLt⟩ len

/-- The address has the prefix. -/
def Covers : IpNetwork → Ip → Prop
  | v4 n len, .v4 a => a.val / 2 ^ (32 - len.val) = n.val / 2 ^ (32 - len.val)
  | v6 n len, .v6 a _ => a.val / 2 ^ (128 - len.val) = n.val / 2 ^ (128 - len.val)
  | _, _ => False

end IpNetwork

namespace Network

/-- Why a text is no network. -/
inductive Refusal where
  /-- The address or the mask does not parse. -/
  | invalid
  /-- The address has bits set behind the prefix. -/
  | hostBits
  deriving DecidableEq, Repr

/-- `int` reads at most this many digits. -/
def maxDigits : ℕ := 4300

/-- A prefix length in digits. -/
def parsePrefix (max : ℕ) (s : Str) : Option ℕ :=
  if s = [] ∨ s.all Str.isDigit = false ∨ maxDigits < s.length then none
  else
    let len := Ip.ofDigits 10 (s.map (· - 0x30))
    if len ≤ max then some len else none

/-- The prefix length of a netmask: as many ones, then zeros. -/
def prefixOfMask (mask : ℕ) : Option ℕ :=
  (List.range 33).find? fun len => 2 ^ 32 - 2 ^ (32 - len) == mask

/-- The mask of an IPv4 network: a prefix length, a netmask or, with its bits inverted, a hostmask. -/
def parseMask (s : Str) : Option ℕ :=
  match parsePrefix 32 s with
  | some len => some len
  | none => do
    let mask ← Ip.parseV4 s
    (prefixOfMask mask).or (prefixOfMask (2 ^ 32 - 1 - mask))

/-- Cut off the mask; at most one slash is permitted. -/
def splitMask (s : Str) : Option (Str × Option Str) :=
  match Str.partition 0x2F s with
  | (addr, none) => some (addr, none)
  | (addr, some mask) => if 0x2F ∈ mask then none else some (addr, some mask)

/-- An IPv4 address and its mask. -/
def parseV4 (addr : Str) (mask : Option Str) : Option Network := do
  let n ← Ip.parseV4 addr
  let len ← mask.elim (some 32) parseMask
  pure ⟨.v4 (Fin.ofNat _ n) (Fin.ofNat _ len), none⟩

/-- An IPv6 address and its prefix. -/
def parseV6 (addr : Str) (mask : Option Str) : Option Network := do
  let (addr, scope) ← Ip.splitScopeId addr
  let n ← Ip.parseV6 addr
  let len ← mask.elim (some 128) (parsePrefix 128)
  pure ⟨.v6 (Fin.ofNat _ n) (Fin.ofNat _ len), scope⟩

/-- Address and prefix, read as IPv4 and else as IPv6. -/
def parse (s : Str) : Option Network := do
  let (addr, mask) ← splitMask s
  (parseV4 addr mask).or (parseV6 addr mask)

end Network

/-- `ipaddress.ip_network`: bits set behind the prefix are refused, or cleared if it is not strict. -/
def ipNetwork (strict : Bool) (s : Str) : Except Network.Refusal Network :=
  match Network.parse s with
  | none => .error .invalid
  | some n =>
    if n.network.masked = n.network then .ok n
    else if strict then .error .hostBits
    else .ok ⟨n.network.masked, none⟩

namespace Ip

/-- The number of bits of an address. -/
def bits : Ip → ℕ
  | v4 _ => 32
  | v6 _ _ => 128

/-- The network of an address alone. -/
def asNetwork : Ip → Network
  | v4 n => ⟨.v4 n 32, none⟩
  | v6 n scope => ⟨.v6 n 128, scope⟩

end Ip

/-! ### Prefixes -/

namespace IpNetwork

/-- A network without bits behind its prefix has the addresses that have the prefix. -/
theorem covers_iff {n : IpNetwork} (h : n.masked = n) (a : Ip) : n.Covers a ↔ n.contains a = true := by
  cases n <;> cases a <;> simp only [masked, v4.injEq, v6.injEq, Fin.ext_iff, and_true] at h <;>
    simp only [Covers, contains, beq_iff_eq, Bool.false_eq_true]
  · rename_i n len a
    exact ⟨fun heq => heq ▸ h, fun heq => Nat.eq_of_mul_eq_mul_right (Nat.two_pow_pos _) (heq.trans h.symm)⟩
  · rename_i n len a _
    exact ⟨fun heq => heq ▸ h, fun heq => Nat.eq_of_mul_eq_mul_right (Nat.two_pow_pos _) (heq.trans h.symm)⟩

/-- An address alone has no bits behind its prefix. -/
theorem masked_asNetwork (a : Ip) : a.asNetwork.network.masked = a.asNetwork.network := by
  cases a with
  | v4 n =>
    have hlen : 32 - (32 : Fin 33).val = 0 := rfl
    simp [Ip.asNetwork, masked, hlen]
  | v6 n scope =>
    have hlen : 128 - (128 : Fin 129).val = 0 := rfl
    simp [Ip.asNetwork, masked, hlen]

theorem contains_asNetwork {a b : Ip} : a.asNetwork.network.contains b = true ↔ b.packed = a.packed := by
  have h4 : 32 - (32 : Fin 33).val = 0 := rfl
  have h6 : 128 - (128 : Fin 129).val = 0 := rfl
  cases a <;> cases b <;> simp [Ip.asNetwork, contains, Ip.packed, Fin.ext_iff, h4, h6]

end IpNetwork

/-! ### Their characters -/

namespace Network

/-- What stands before a separator begins as the text does. -/
theorem head?_partition {c x : ℕ} {s : Str} (hx : x ≠ c) (h : s.head? = some x) :
    (Str.partition c s).1.head? = some x := by
  obtain ⟨rest, rfl⟩ := List.head?_eq_some_iff.1 h
  unfold Str.partition
  split
  · rfl
  · simp [hx]

theorem head?_of_splitMask {s addr : Str} {mask : Option Str} {x : ℕ} (hx : x ≠ 0x2F)
    (h : splitMask s = some (addr, mask)) (hs : s.head? = some x) : addr.head? = some x := by
  have hhead := head?_partition hx hs
  unfold splitMask at h
  split at h
  · rename_i hpart
    obtain ⟨rfl, -⟩ := Prod.mk.inj (Option.some.inj h)
    rwa [hpart] at hhead
  · rename_i hpart
    split_ifs at h
    obtain ⟨rfl, -⟩ := Prod.mk.inj (Option.some.inj h)
    rwa [hpart] at hhead

theorem head?_of_splitScopeId {s addr : Str} {scope : Option Str} {x : ℕ} (hx : x ≠ 0x25)
    (h : Ip.splitScopeId s = some (addr, scope)) (hs : s.head? = some x) : addr.head? = some x := by
  have hhead := head?_partition hx hs
  unfold Ip.splitScopeId at h
  split at h
  · rename_i hpart
    obtain ⟨rfl, -⟩ := Prod.mk.inj (Option.some.inj h)
    rwa [hpart] at hhead
  · rename_i hpart
    split_ifs at h
    obtain ⟨rfl, -⟩ := Prod.mk.inj (Option.some.inj h)
    rwa [hpart] at hhead

/-- No network begins with a star. -/
theorem head?_ne_star {s : Str} {n : Network} (h : parse s = some n) : s.head? ≠ some 0x2A := by
  intro hstar
  obtain ⟨⟨addr, mask⟩, hsplit, h⟩ := Option.bind_eq_some_iff.1 h
  have hhead : addr.head? = some 0x2A := head?_of_splitMask (by decide) hsplit hstar
  have hmem : 0x2A ∈ addr := List.mem_of_mem_head? hhead
  rcases Option.or_eq_some_iff.1 h with h | ⟨-, h⟩
  · obtain ⟨v, hv, -⟩ := Option.bind_eq_some_iff.1 h
    exact Ip.notMem_of_parseV4 hv (by decide) (by decide) hmem
  · obtain ⟨⟨addr', scope⟩, hscope, h⟩ := Option.bind_eq_some_iff.1 h
    obtain ⟨v, hv, -⟩ := Option.bind_eq_some_iff.1 h
    have hhead' : addr'.head? = some 0x2A := head?_of_splitScopeId (by decide) hscope hhead
    have hdigit := Ip.isSome_of_parseV6 hv (List.mem_of_mem_head? hhead') (by decide) (by decide)
    revert hdigit
    decide

end Network

/-! ### An address as a network -/

namespace Network

theorem splitMask_append {addr mask : Str} (haddr : 0x2F ∉ addr) (hmask : 0x2F ∉ mask) :
    splitMask (addr ++ 0x2F :: mask) = some (addr, some mask) := by
  have hpart : Str.partition 0x2F (addr ++ 0x2F :: mask) = (addr, some mask) :=
    Str.partition_append fun c hc hslash => haddr (hslash ▸ hc)
  simp [splitMask, hpart, hmask]

end Network

theorem slash_notMem_of_ipAddress {s : Str} {a : Ip} (h : ipAddress s = some a) : 0x2F ∉ s := by
  intro hslash
  rw [ipAddress, if_pos hslash] at h
  cases h

/-- An address with its full length is the network of this address alone. -/
theorem parse_address {s : Str} {a : Ip} (h : ipAddress s = some a) :
    Network.parse (s ++ 0x2F :: Str.ofNat a.bits) = some a.asNetwork := by
  have hslash := slash_notMem_of_ipAddress h
  rw [ipAddress, if_neg hslash] at h
  cases hv4 : Ip.parseV4 s with
  | some n =>
    rw [hv4] at h
    obtain rfl := Option.some.inj h
    have hmask : Network.parseMask (Str.ofNat 32) = some 32 := by decide
    rw [Network.parse, Ip.bits, Network.splitMask_append hslash (by decide)]
    simp only [Network.parseV4, hv4, Option.elim_some, hmask, Option.bind_some, Option.pure_def,
      Option.bind_eq_bind, Option.some_or]
    rfl
  | none =>
    rw [hv4] at h
    obtain ⟨⟨addr, scope⟩, hscope, h⟩ := Option.bind_eq_some_iff.1 h
    obtain ⟨n, hn, h⟩ := Option.bind_eq_some_iff.1 h
    obtain rfl := Option.some.inj h
    have hlen : Network.parsePrefix 128 (Str.ofNat 128) = some 128 := by decide
    rw [Network.parse, Ip.bits, Network.splitMask_append hslash (by decide)]
    simp only [Network.parseV4, Network.parseV6, hv4, hscope, hn, hlen, Option.elim_some, Option.bind_some,
      Option.pure_def, Option.bind_eq_bind, Option.bind_none, Option.none_or]
    rfl

theorem ipNetwork_address {s : Str} {a : Ip} (h : ipAddress s = some a) (strict : Bool) :
    ipNetwork strict (s ++ 0x2F :: Str.ofNat a.bits) = .ok a.asNetwork := by
  rw [ipNetwork, parse_address h]
  exact if_pos (IpNetwork.masked_asNetwork a)

end Cabin
