import Cabin.Acme.Jws
import Cabin.Net.IpText

/-!
# What is connected to

The policy on the addresses a validation may connect to (`acme/validation/targets.py`).  The whole answer
of the resolver is checked, and each address in every form in which it is one: an IPv6 address may hold an
IPv4 address.

* `resolve` is the one address that is connected to for a host;
* `Ip.IsForm`, `Forbidden`: the forms of an address, and the addresses that are refused;
* `resolve_spec`: what `resolve` returns comes first in an answer without forbidden addresses.
-/

namespace Cabin

/-! ### The forms of an address -/

namespace Ip

/-- `ipv4_mapped`: `::ffff:0:0/96`. -/
def mapped? (n : ℕ) : Option ℕ := if n / 2 ^ 32 = 0xFFFF then some (n % 2 ^ 32) else none

/-- `sixtofour`: `2002::/16`. -/
def sixToFour? (n : ℕ) : Option ℕ := if n / 2 ^ 112 = 0x2002 then some (n / 2 ^ 80 % 2 ^ 32) else none

/-- `64:ff9b::/96`. -/
def nat64Prefix : IpNetwork := .v6 (Fin.ofNat _ (0x64FF9B * 2 ^ 96)) 96

/-- The IPv4 address inside an IPv6 address, if there is one. -/
def embeddedV4 (n : Fin (2 ^ 128)) : Option ℕ :=
  match mapped? n.val with
  | some v => some v
  | none =>
    match sixToFour? n.val with
    | some v => some v
    | none =>
      if nat64Prefix.contains (.v6 n none) then some (n.val % 2 ^ 32)
      -- `::a.b.c.d`, the IPv4-compatible form.
      else if 0 < n.val ∧ n.val < 2 ^ 32 then some n.val
      else none

/-- Every address this one is. -/
def forms : Ip → List Ip
  | v4 n => [v4 n]
  | v6 n scope =>
    match embeddedV4 n with
    | some v => [v6 n scope, v4 (Fin.ofNat _ v)]
    | none => [v6 n scope]

/-- An IPv6 address holds an IPv4 address: mapped, compatible, 6to4 or NAT64. -/
def Holds (n v : ℕ) : Prop :=
  n = 0xFFFF * 2 ^ 32 + v ∨ (n = v ∧ n ≠ 0) ∨
    (∃ rest, rest < 2 ^ 80 ∧ n = 0x2002 * 2 ^ 112 + v * 2 ^ 80 + rest) ∨ n = 0x64FF9B * 2 ^ 96 + v

/-- The address itself, or the IPv4 address it holds. -/
def IsForm (a form : Ip) : Prop :=
  form = a ∨ ∃ n scope v, a = v6 n scope ∧ form = v4 v ∧ Holds n.val v.val

/-- The code finds the address that an address holds. -/
theorem embeddedV4_of_holds {n : Fin (2 ^ 128)} {v : ℕ} (hv : v < 2 ^ 32) (h : Holds n.val v) :
    embeddedV4 n = some v := by
  obtain ⟨n, hn⟩ := n
  change Holds n v at h
  have hnat64 : nat64Prefix.contains (.v6 ⟨n, hn⟩ none) = decide (n / 2 ^ 32 = 0x64FF9B * 2 ^ 64) := by
    rw [Bool.eq_iff_iff]
    simp only [nat64Prefix, IpNetwork.contains, beq_iff_eq, decide_eq_true_eq]
    have hlen : 128 - (96 : Fin 129).val = 32 := rfl
    have hval : (Fin.ofNat (2 ^ 128) (0x64FF9B * 2 ^ 96)).val = 0x64FF9B * 2 ^ 64 * 2 ^ 32 := by decide
    rw [hlen, hval]
    exact Nat.mul_left_inj (by norm_num)
  simp only [embeddedV4, mapped?, sixToFour?, hnat64]
  rcases h with h | ⟨h, hne⟩ | ⟨rest, hrest, h⟩ | h
  · have hmapped : n / 2 ^ 32 = 0xFFFF := by omega
    have hv' : n % 2 ^ 32 = v := by omega
    rw [if_pos hmapped, hv']
  · have hmapped : ¬ n / 2 ^ 32 = 0xFFFF := by omega
    have hsix : ¬ n / 2 ^ 112 = 0x2002 := by omega
    have hnat : ¬ n / 2 ^ 32 = 0x64FF9B * 2 ^ 64 := by omega
    have hlow : 0 < n ∧ n < 2 ^ 32 := by omega
    rw [if_neg hmapped, if_neg hsix]
    simp only [decide_eq_true_eq, if_neg hnat, if_pos hlow]
    rw [h]
  · have hmapped : ¬ n / 2 ^ 32 = 0xFFFF := by omega
    have hsix : n / 2 ^ 112 = 0x2002 := by omega
    have hv' : n / 2 ^ 80 % 2 ^ 32 = v := by omega
    rw [if_neg hmapped, if_pos hsix, hv']
  · have hmapped : ¬ n / 2 ^ 32 = 0xFFFF := by omega
    have hsix : ¬ n / 2 ^ 112 = 0x2002 := by omega
    have hnat : n / 2 ^ 32 = 0x64FF9B * 2 ^ 64 := by omega
    have hv' : n % 2 ^ 32 = v := by omega
    rw [if_neg hmapped, if_neg hsix]
    simp only [decide_eq_true_eq, if_pos hnat, hv']

/-- Every form of an address is checked. -/
theorem mem_forms {a form : Ip} (h : a.IsForm form) : form ∈ a.forms := by
  rcases h with rfl | ⟨n, scope, v, rfl, rfl, hholds⟩
  · cases form with
    | v4 n => exact List.mem_singleton_self _
    | v6 n scope =>
      simp only [forms]
      split <;> exact List.mem_cons_self
  · simp only [forms, embeddedV4_of_holds v.isLt hholds]
    refine List.mem_cons_of_mem _ (List.mem_singleton.2 ?_)
    rw [Fin.ofNat_val_eq_self]

end Ip

namespace Acme

/-! ### The policy -/

/-- What `ipaddress` says of an address. -/
structure AddressKinds where
  isLoopback : Ip → Bool
  isLinkLocal : Ip → Bool
  isMulticast : Ip → Bool
  isUnspecified : Ip → Bool
  isPrivate : Ip → Bool

/-- A checked place to connect to. -/
structure Endpoint where
  /-- What identifies the target to it. -/
  host : Str
  /-- What the socket goes to. -/
  address : Str
  port : ℕ
  deriving DecidableEq, Repr

namespace Endpoint

/-- `address:port`, with an IPv6 address in brackets. -/
def netloc (e : Endpoint) : Str :=
  if 0x3A ∈ e.address then 0x5B :: e.address ++ 0x5D :: 0x3A :: Str.ofNat e.port
  else e.address ++ 0x3A :: Str.ofNat e.port

/-- What goes into `Host`. -/
def hostHeader (e : Endpoint) : Str := if 0x3A ∈ e.host then 0x5B :: e.host ++ [0x5D] else e.host

/-- What goes into SNI, which is for host names only. -/
def sni (e : Endpoint) : Option Str := if (ipAddress e.host).isSome then none else some e.host

end Endpoint

/-- The connection could not be made, or may not. -/
def connectionError (detail : String) : Raised := .acme { kind := .connection, detail }

variable (K : AddressKinds)

/-- Why an address is refused whatever the settings are. -/
def blockedReason (address : Ip) : Option String :=
  if K.isLoopback address then some "loopback"
  else if K.isLinkLocal address then some "link-local"
  else if K.isMulticast address then some "multicast"
  else if K.isUnspecified address then some "unspecified"
  else none

/-- The check of one form of an address. -/
def checkForm (host address : Str) (allowPrivate : Bool) (form : Ip) : Except Raised Unit :=
  match blockedReason K form with
  | some reason =>
    .error (connectionError
      s!"refusing to validate {host.repr}: it resolves to the {reason} address {address.text}")
  | none =>
    refuse (allowPrivate = false ∧ K.isPrivate form = true) (connectionError
      (s!"refusing to validate {host.repr}: it resolves to the private address {address.text}, " ++
        "and allow_private_validation_targets is off"))

/-- The check of an address of an answer. -/
def checkAddress (host : Str) (allowPrivate : Bool) (address : Str) : Except Raised Unit :=
  match ipAddress address with
  | none =>
    .error (connectionError
      (cut 200 s!"{host.repr} resolved to something that is not an address: {address.repr}"))
  | some parsed => parsed.forms.forM (checkForm K host address allowPrivate)

/-- What a host resolves to: an address to itself. -/
def answerFor (lookup : Str → List Str) (host : Str) : List Str :=
  if (ipAddress host).isSome then [host] else lookup host

/-- The one address to connect to for a host. -/
def resolve (lookup : Str → List Str) (host : Str) (port : ℕ) (allowPrivate : Bool) :
    Except Raised Endpoint :=
  match answerFor lookup host with
  | [] => .error (connectionError s!"{host.repr} does not resolve to any address")
  | address :: addresses => do
    (address :: addresses).forM (checkAddress K host allowPrivate)
    pure ⟨host, address, port⟩

/-! ### What is expected -/

/-- An address that may not be connected to. -/
def Forbidden (allowPrivate : Bool) (a : Ip) : Prop :=
  ∃ form, a.IsForm form ∧ (K.isLoopback form = true ∨ K.isLinkLocal form = true ∨
    K.isMulticast form = true ∨ K.isUnspecified form = true ∨
    allowPrivate = false ∧ K.isPrivate form = true)

/-- The endpoint is the first address of an answer without forbidden ones. -/
structure Endpoint.Approved (lookup : Str → List Str) (allowPrivate : Bool) (e : Endpoint) : Prop where
  first : (answerFor lookup e.host).head? = some e.address
  allowed : ∀ address ∈ answerFor lookup e.host,
    ∃ a, ipAddress address = some a ∧ ¬ Forbidden K allowPrivate a

/-! ### What is returned -/

variable {K} {lookup : Str → List Str} {host : Str} {port : ℕ} {allowPrivate : Bool}

theorem checkForm_eq_ok {address : Str} {form : Ip} : checkForm K host address allowPrivate form = .ok () ↔
    ¬ (K.isLoopback form = true ∨ K.isLinkLocal form = true ∨ K.isMulticast form = true ∨
      K.isUnspecified form = true ∨ allowPrivate = false ∧ K.isPrivate form = true) := by
  unfold checkForm blockedReason
  cases K.isLoopback form <;> cases K.isLinkLocal form <;> cases K.isMulticast form <;>
    cases K.isUnspecified form <;> simp

theorem allowed_of_checkAddress {address : Str} (h : checkAddress K host allowPrivate address = .ok ()) :
    ∃ a, ipAddress address = some a ∧ ¬ Forbidden K allowPrivate a := by
  unfold checkAddress at h
  split at h
  · cases h
  · rename_i a ha
    refine ⟨a, ha, ?_⟩
    rintro ⟨form, hform, hkind⟩
    exact checkForm_eq_ok.1 (forM_eq_ok.1 h form (Ip.mem_forms hform)) hkind

/-- **What a host may be connected to.** -/
theorem resolve_spec {e : Endpoint} (h : resolve K lookup host port allowPrivate = .ok e) :
    e.host = host ∧ e.port = port ∧ e.Approved K lookup allowPrivate := by
  unfold resolve at h
  split at h
  · cases h
  · rename_i address addresses hanswer
    rw [bind_eq_ok] at h
    obtain ⟨_, hchecked, h⟩ := h
    obtain rfl := pure_eq_ok.1 h
    refine ⟨rfl, rfl, ?_, fun x hx => ?_⟩
    · simp [hanswer]
    · exact allowed_of_checkAddress (forM_eq_ok.1 hchecked x (hanswer ▸ hx))

end Acme

end Cabin
