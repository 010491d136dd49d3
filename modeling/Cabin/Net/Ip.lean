import Mathlib.Data.List.TakeWhile
import Mathlib.Tactic.IntervalCases
import Cabin.Text.Digits

/-!
# IP addresses and networks

Addresses, networks and their text forms, as Python's `ipaddress` reads and writes them.

* `ipAddress` parses a text, first as IPv4 and then as IPv6; `Ip.toStr` writes the compressed form.
* An IPv6 address may carry a scope (`fe80::1%eth0`), which is not part of its sixteen bytes.
  `Ip.packed` is the address its bytes denote.  An address without a scope is written without `%`,
  and a text without `%` parses to an address without a scope.
-/

namespace Cabin

instance neZeroV4 : NeZero (2 ^ 32 : ℕ) := ⟨by decide⟩
instance neZeroV6 : NeZero (2 ^ 128 : ℕ) := ⟨by decide⟩
instance neZeroPrefixV4 : NeZero (33 : ℕ) := ⟨by decide⟩
instance neZeroPrefixV6 : NeZero (129 : ℕ) := ⟨by decide⟩

/-- An IP address.  An IPv6 address may carry a scope. -/
inductive Ip where
  | v4 (n : Fin (2 ^ 32))
  | v6 (n : Fin (2 ^ 128)) (scope : Option Str)
  deriving DecidableEq, Repr

/-- An IP network: its address and the length of its prefix. -/
inductive IpNetwork where
  | v4 (n : Fin (2 ^ 32)) (len : Fin 33)
  | v6 (n : Fin (2 ^ 128)) (len : Fin 129)
  deriving DecidableEq, Repr

namespace Ip

/-- The address its bytes denote: the scope is lost. -/
def packed : Ip → Ip
  | v4 n => v4 n
  | v6 n _ => v6 n none

/-- The scope of an address. -/
def scope : Ip → Option Str
  | v4 _ => none
  | v6 _ s => s

/-! ### Reading -/

/-- The number digits denote, the most significant first. -/
def ofDigits (base : ℕ) (ds : List ℕ) : ℕ := ds.foldl (fun n d => base * n + d) 0

/-- One octet of an IPv4 address: one to three digits without a leading zero. -/
def parseOctet (s : Str) : Option ℕ :=
  if s.isEmpty then none
  else if !s.all Str.isDigit then none
  else if 3 < s.length then none
  else if s ≠ [0x30] ∧ s.head? = some 0x30 then none
  else
    let n := ofDigits 10 (s.map (· - 0x30))
    if n ≤ 255 then some n else none

/-- The number a dotted quad denotes. -/
def parseV4 (s : Str) : Option ℕ :=
  let octets := Str.splitAt 0x2E s
  if octets.length = 4 then (octets.mapM parseOctet).map (ofDigits 256) else none

/-- One group of an IPv6 address: one to four hexadecimal digits. -/
def parseHextet (s : Str) : Option ℕ :=
  if s.isEmpty ∨ 4 < s.length then none else (s.mapM Str.hexValue?).map (ofDigits 16)

/-- The two lowest groups of an IPv6 address may be written as an IPv4 address. -/
def expandSuffix (parts : List Str) : Option (List (Option ℕ)) :=
  match parts.getLast? with
  | none => none
  | some last =>
    let hextets := fun ps : List Str =>
      ps.mapM fun p => if p.isEmpty then some none else (parseHextet p).map some
    if 0x2E ∈ last then do
      let n ← parseV4 last
      let front ← hextets parts.dropLast
      pure (front ++ [some (n / 2 ^ 16), some (n % 2 ^ 16)])
    else hextets parts

/-- The eight groups of an address: `::`, an empty group that is neither the first nor the last,
stands for at least one group of zeros and may also take up the empty group at an end. -/
def fillGroups (parts : List (Option ℕ)) : Option (List ℕ) :=
  let n := parts.length
  let first := decide (parts.head? = some none)
  let last := decide (parts.getLast? = some none)
  match (List.range n).filter fun i => 0 < i && i + 1 < n && parts.getD i (some 0) == none with
  | [] => if n = 8 then parts.mapM id else none
  | [skip] =>
    let hi := if first then skip - 1 else skip
    let lo := if last then n - skip - 2 else n - skip - 1
    if (first ∧ hi ≠ 0) ∨ (last ∧ lo ≠ 0) ∨ 8 ≤ hi + lo then none
    else do
      let front ← (parts.take hi).mapM id
      let back ← (parts.drop (n - lo)).mapM id
      pure (front ++ List.replicate (8 - (hi + lo)) 0 ++ back)
  | _ => none

/-- The number the groups of an IPv6 address denote. -/
def parseV6 (s : Str) : Option ℕ :=
  let parts := Str.splitAt 0x3A s
  if parts.length < 3 then none
  else do
    let groups ← expandSuffix parts
    if 9 < groups.length then none
    else (fillGroups groups).map (ofDigits (2 ^ 16))

/-- Cut off the scope, which is neither empty nor has a further `%`. -/
def splitScopeId (s : Str) : Option (Str × Option Str) :=
  match Str.partition 0x25 s with
  | (addr, none) => some (addr, none)
  | (addr, some scope) => if scope.isEmpty ∨ 0x25 ∈ scope then none else some (addr, some scope)

end Ip

/-- `ipaddress.ip_address`: an address from its text, `none` for a `ValueError`. -/
def ipAddress (s : Str) : Option Ip :=
  if 0x2F ∈ s then none
  else match Ip.parseV4 s with
    | some n => some (.v4 (Fin.ofNat _ n))
    | none => do
      let (addr, scope) ← Ip.splitScopeId s
      let n ← Ip.parseV6 addr
      pure (.v6 (Fin.ofNat _ n) scope)

namespace Ip

/-! ### Writing -/

/-- The text of a digit. -/
def digitChar (d : ℕ) : ℕ := if d < 10 then 0x30 + d else 0x61 + (d - 10)

/-- Digits as a text, without leading zeros. -/
def showDigits (ds : List ℕ) : Str :=
  match ds.dropWhile (· == 0) with
  | [] => [0x30]
  | ds => ds.map digitChar

/-- An octet in decimal. -/
def showOctet (n : ℕ) : Str := showDigits [n / 100 % 10, n / 10 % 10, n % 10]

/-- A group in hexadecimal. -/
def showHextet (n : ℕ) : Str := showDigits [n / 4096 % 16, n / 256 % 16, n / 16 % 16, n % 16]

/-- The dotted quad. -/
def showV4 (n : ℕ) : Str :=
  [0x2E].intercalate (([n / 2 ^ 24 % 256, n / 2 ^ 16 % 256, n / 2 ^ 8 % 256, n % 256]).map showOctet)

/-- The eight groups of an IPv6 address. -/
def hextets (n : ℕ) : List ℕ :=
  [7, 6, 5, 4, 3, 2, 1, 0].map fun i => n / 2 ^ (16 * i) % 2 ^ 16

/-- The first longest run of zeros: where it starts and how long it is. -/
def longestZeros (hs : List ℕ) : ℕ × ℕ :=
  let step := fun (s : (ℕ × ℕ) × ℕ × ℕ) (p : ℕ × ℕ) =>
    let (best, len, index) := (s.1, s.2.1, p.2)
    if p.1 = 0 then
      (if best.2 < len + 1 then (index - len, len + 1) else best, len + 1, index)
    else (best, 0, index)
  (hs.zipIdx.foldl step ((0, 0), 0, 0)).1

/-- The groups of the text form: the longest run of two or more zeros becomes `::`. -/
def compressHextets (hs : List ℕ) : List Str :=
  let run := longestZeros hs
  let stop := run.1 + run.2
  if 1 < run.2 then
    (if run.1 = 0 then [[]] else []) ++ (hs.take run.1).map showHextet ++ [[]] ++
      (hs.drop stop).map showHextet ++ (if stop = hs.length then [[]] else [])
  else hs.map showHextet

/-- The text of an IPv6 number. -/
def showV6 (n : ℕ) : Str := [0x3A].intercalate (compressHextets (hextets n))

/-- `str` of an address; an IPv4-mapped IPv6 address ends in the dotted quad. -/
def toStr : Ip → Str
  | v4 n => showV4 n
  | v6 n scope =>
    let text :=
      if n.val / 2 ^ 32 = 0xFFFF then showV6 0xFFFF ++ 0x3A :: showV4 (n.val % 2 ^ 32)
      else showV6 n
    match scope with
    | none => text
    | some s => text ++ 0x25 :: s

end Ip

namespace IpNetwork

/-- `address in network`: never across the two families. -/
def contains : IpNetwork → Ip → Bool
  | v4 n len, .v4 a => a.val / 2 ^ (32 - len.val) * 2 ^ (32 - len.val) == n.val
  | v6 n len, .v6 a _ => a.val / 2 ^ (128 - len.val) * 2 ^ (128 - len.val) == n.val
  | _, _ => false

/-- `str` of a network. -/
def toStr : IpNetwork → Str
  | v4 n len => (Ip.v4 n).toStr ++ 0x2F :: Str.ofNat len
  | v6 n len => (Ip.v6 n none).toStr ++ 0x2F :: Str.ofNat len

end IpNetwork

namespace Ip

/-! ### Scopes -/

@[simp] theorem packed_packed (a : Ip) : a.packed.packed = a.packed := by cases a <;> rfl

@[simp] theorem scope_packed (a : Ip) : a.packed.scope = none := by cases a <;> rfl

theorem packed_of_scope {a : Ip} (h : a.scope = none) : a.packed = a := by
  cases a with
  | v4 n => rfl
  | v6 n s =>
    obtain rfl : s = none := h
    rfl

theorem isSome_of_mapM {α β : Type} {f : α → Option β} {xs : List α} {ys : List β}
    (h : xs.mapM f = some ys) : ∀ x ∈ xs, (f x).isSome = true := by
  induction xs generalizing ys with
  | nil => simp
  | cons x xs ih =>
    rw [List.mapM_cons] at h
    simp only [Option.bind_eq_bind, Option.bind_eq_some_iff] at h
    obtain ⟨y, hy, zs, hzs, -⟩ := h
    intro w hw
    rcases List.mem_cons.1 hw with rfl | hw
    · simp [hy]
    · exact ih hzs w hw

/-- A text without `%` has no scope. -/
theorem scope_of_ipAddress {s : Str} {a : Ip} (h : ipAddress s = some a) (hs : 0x25 ∉ s) :
    a.scope = none := by
  unfold ipAddress at h
  split at h
  · cases h
  split at h
  · cases h
    rfl
  · simp only [splitScopeId, Str.partition_of_notMem hs, Option.bind_eq_bind, Option.bind_some, Option.pure_def,
      Option.bind_eq_some_iff, Option.some.injEq] at h
    obtain ⟨n, -, rfl⟩ := h
    rfl

/-- A dotted quad has digits and full stops only. -/
theorem notMem_of_parseV4 {s : Str} {n c : ℕ} (h : parseV4 s = some n) (hdot : c ≠ 0x2E)
    (hdigit : Str.isDigit c = false) : c ∉ s := by
  intro hs
  obtain ⟨p, hp, hc⟩ := Str.mem_of_splitAt hs hdot
  unfold parseV4 at h
  dsimp only at h
  split_ifs at h
  obtain ⟨octets, hoctets, -⟩ := Option.map_eq_some_iff.1 h
  have hnone : parseOctet p = none := by
    unfold parseOctet
    split_ifs with h₁ h₂ <;> try rfl
    have hall : p.all Str.isDigit = true := by simpa using h₂
    exact absurd (List.all_eq_true.1 hall _ hc) (by simp [hdigit])
  have hsome := isSome_of_mapM hoctets p hp
  rw [hnone] at hsome
  cases hsome

/-- A text with `%` has a scope. -/
theorem percent_notMem_of_scope {s : Str} {a : Ip} (h : ipAddress s = some a)
    (ha : a.scope = none) : 0x25 ∉ s := by
  unfold ipAddress at h
  split at h
  · cases h
  split at h
  · rename_i n hn
    exact notMem_of_parseV4 hn (by decide) (by decide)
  · intro hs
    obtain ⟨p, rest, hp⟩ : ∃ p rest, Str.partition 0x25 s = (p, some rest) := by
      unfold Str.partition
      split
      · rename_i hnil
        have hall := List.dropWhile_eq_nil_iff.1 hnil _ hs
        exact absurd hall (by decide)
      · exact ⟨_, _, rfl⟩
    simp only [splitScopeId, hp, Option.bind_eq_bind, Option.pure_def, Option.bind_eq_some_iff,
      Option.some.injEq, Prod.exists] at h
    obtain ⟨addr, scope, hsplit, m, -, rfl⟩ := h
    obtain rfl : scope = none := ha
    split_ifs at hsplit
    simp at hsplit

/-- The characters of an address without a scope. -/
def isAddressChar (c : ℕ) : Bool := Str.isAlnum c || c == 0x2E || c == 0x3A

theorem range_of_isAddressChar {c : ℕ} (h : isAddressChar c = true) : 0x20 < c ∧ c < 0x7F := by
  simp only [isAddressChar, Str.isAlnum, Str.isDigit, Bool.or_eq_true, Bool.and_eq_true,
    decide_eq_true_eq, beq_iff_eq] at h
  omega

theorem isAlnum_digitChar {d : ℕ} (h : d < 16) : Str.isAlnum (digitChar d) = true := by
  interval_cases d <;> decide

/-- Digits are letters and digits. -/
theorem isAlnum_showDigits {ds : List ℕ} (h : ∀ d ∈ ds, d < 16) :
    ∀ c ∈ showDigits ds, Str.isAlnum c = true := by
  unfold showDigits
  split
  · intro c hc
    obtain rfl := List.mem_singleton.1 hc
    decide
  · intro c hc
    obtain ⟨d, hd, rfl⟩ := List.mem_map.1 hc
    exact isAlnum_digitChar (h d ((List.dropWhile_suffix _).subset hd))

theorem isAlnum_showOctet (n : ℕ) : ∀ c ∈ showOctet n, Str.isAlnum c = true :=
  isAlnum_showDigits (by simp; omega)

theorem isAlnum_showHextet (n : ℕ) : ∀ c ∈ showHextet n, Str.isAlnum c = true :=
  isAlnum_showDigits (by simp; omega)

theorem isAddressChar_of_isAlnum {c : ℕ} (h : Str.isAlnum c = true) : isAddressChar c = true := by
  simp [isAddressChar, h]

theorem isAddressChar_intercalate {sep : ℕ} (hsep : isAddressChar sep = true) {ps : List Str}
    (h : ∀ p ∈ ps, ∀ c ∈ p, isAddressChar c = true) :
    ∀ c ∈ [sep].intercalate ps, isAddressChar c = true := by
  induction ps with
  | nil => simp
  | cons p ps ih =>
    intro c hc
    have hrest := ih fun q hq => h q (List.mem_cons_of_mem _ hq)
    cases ps with
    | nil => exact h p (by simp) c (by simpa [List.intercalate] using hc)
    | cons q ps =>
      rw [List.intercalate_cons_cons, List.mem_append, List.mem_append] at hc
      rcases hc with (hc | hc) | hc
      · exact h p (by simp) c hc
      · obtain rfl := List.mem_singleton.1 hc
        exact hsep
      · exact hrest c hc

theorem isAddressChar_showV4 (n : ℕ) : ∀ c ∈ showV4 n, isAddressChar c = true := by
  refine isAddressChar_intercalate (by decide) fun p hp => ?_
  obtain ⟨m, -, rfl⟩ := List.mem_map.1 hp
  exact fun c hc => isAddressChar_of_isAlnum (isAlnum_showOctet m c hc)

theorem mem_compressHextets {hs : List ℕ} {p : Str} (hp : p ∈ compressHextets hs) :
    p = [] ∨ ∃ m, p = showHextet m := by
  have hmap : ∀ xs : List ℕ, p ∈ xs.map showHextet → p = [] ∨ ∃ m, p = showHextet m := by
    intro xs hp
    obtain ⟨m, -, rfl⟩ := List.mem_map.1 hp
    exact .inr ⟨m, rfl⟩
  have hend : ∀ (c : Prop) [Decidable c], p ∈ (if c then [[]] else []) → p = [] := by
    intro c _ hp
    split_ifs at hp <;> simp_all
  unfold compressHextets at hp
  by_cases h : 1 < (longestZeros hs).2
  · simp only [if_pos h, List.mem_append, List.mem_singleton] at hp
    rcases hp with (((hp | hp) | hp) | hp) | hp
    exacts [.inl (hend _ hp), hmap _ hp, .inl hp, hmap _ hp, .inl (hend _ hp)]
  · exact hmap hs (by simpa only [if_neg h] using hp)

theorem isAddressChar_showV6 (n : ℕ) : ∀ c ∈ showV6 n, isAddressChar c = true := by
  refine isAddressChar_intercalate (by decide) fun p hp => ?_
  rcases mem_compressHextets hp with rfl | ⟨m, rfl⟩
  · simp
  · exact fun c hc => isAddressChar_of_isAlnum (isAlnum_showHextet m c hc)

/-- An address without a scope is written with these characters. -/
theorem isAddressChar_toStr {a : Ip} (h : a.scope = none) : ∀ c ∈ a.toStr, isAddressChar c = true := by
  cases a with
  | v4 n => exact isAddressChar_showV4 _
  | v6 n s =>
    obtain rfl : s = none := h
    unfold toStr
    dsimp only
    split_ifs
    · intro c hc
      rcases List.mem_append.1 hc with hc | hc
      · exact isAddressChar_showV6 _ c hc
      · rcases List.mem_cons.1 hc with rfl | hc
        · decide
        · exact isAddressChar_showV4 _ c hc
    · exact isAddressChar_showV6 _

theorem percent_notMem_toStr {a : Ip} (h : a.scope = none) : 0x25 ∉ a.toStr := fun hc => by
  simpa [isAddressChar, Str.isAlnum, Str.isDigit] using isAddressChar_toStr h _ hc

theorem scope_of_percent_notMem {a : Ip} (h : 0x25 ∉ a.toStr) : a.scope = none := by
  cases a with
  | v4 n => rfl
  | v6 n s =>
    cases s with
    | none => rfl
    | some s => exact absurd (List.mem_append_right _ List.mem_cons_self) h

/-- An address without a scope is written without white space. -/
theorem isSpace_toStr {a : Ip} (h : a.scope = none) : ∀ c ∈ a.toStr, Str.isSpace c = false :=
  fun c hc => Str.isSpace_of_range (range_of_isAddressChar (isAddressChar_toStr h c hc))

end Ip

/-- A network is written without `%`, too. -/
theorem IpNetwork.percent_notMem_toStr (n : IpNetwork) : 0x25 ∉ n.toStr := by
  have hlen : ∀ k : ℕ, 0x25 ∉ Str.ofNat k := by
    intro k hk
    exact absurd (Str.isDigit_of_mem_ofNat hk).1 (by decide)
  cases n with
  | v4 n len =>
    simp only [toStr, List.mem_append, List.mem_cons, not_or]
    exact ⟨Ip.percent_notMem_toStr rfl, by decide, hlen _⟩
  | v6 n len =>
    simp only [toStr, List.mem_append, List.mem_cons, not_or]
    exact ⟨Ip.percent_notMem_toStr rfl, by decide, hlen _⟩

end Cabin
