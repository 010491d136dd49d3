import Cabin.Exec.Except
import Cabin.Net.IpText
import Cabin.Text.Unicode

/-!
# URLs

`urllib.parse` as far as the program uses it.  Splitting a URL is pure text work, `parts`; what can fail
is the check of the authority, `checkAuthority`, and reading the port.

* `urlsplit`, `urlparse`, `urlunsplit` with `SplitResult.hostname` and `SplitResult.port`;
* `parts_of_url`: a URL that is put together from its parts is split into them again;
* `readable_of_lowered`: an authority stays readable in lower case.
-/

namespace Cabin

namespace Url

variable (U : Unicode)

/-! ### Splitting -/

/-- `urlsplit`'s five parts. -/
structure SplitResult where
  scheme : Str
  netloc : Str
  path : Str
  query : Str := []
  fragment : Str := []
  deriving DecidableEq, Repr

/-- What is cut off in front. -/
def isControlOrSpace (c : ℕ) : Bool := c ≤ 0x20

/-- What is taken out wherever it stands. -/
def isUnsafe (c : ℕ) : Bool := c == 0x09 || c == 0x0A || c == 0x0D

def isAlpha (c : ℕ) : Bool := (0x41 ≤ c && c ≤ 0x5A) || (0x61 ≤ c && c ≤ 0x7A)

def isSchemeChar (c : ℕ) : Bool := Str.isAlnum c || c == 0x2B || c == 0x2D || c == 0x2E

/-- The scheme in lower case, and the rest. -/
def splitScheme (url : Str) : Str × Str :=
  match Str.partition 0x3A url with
  | (_, none) => ([], url)
  | (head, some rest) =>
    if head.head?.any isAlpha ∧ head.all isSchemeChar then (Str.asciiLower head, rest) else ([], url)

/-- The character does not end an authority. -/
def inNetloc (c : ℕ) : Bool := c != 0x2F && c != 0x3F && c != 0x23

/-- The authority, if there is one, and the rest. -/
def splitNetloc : Str → Str × Str
  | 0x2F :: 0x2F :: rest => (rest.takeWhile inNetloc, rest.dropWhile inNetloc)
  | rest => ([], rest)

/-- The parts of a URL, not checked. -/
def parts (url : Str) : SplitResult :=
  let (scheme, rest) := splitScheme ((url.dropWhile isControlOrSpace).filter fun c => !isUnsafe c)
  let (netloc, rest) := splitNetloc rest
  let (rest, fragment) := Str.partition 0x23 rest
  let (path, query) := Str.partition 0x3F rest
  ⟨scheme, netloc, path, query.getD [], fragment.getD []⟩

/-! ### Checking the authority -/

/-- What stands after the last `@`. -/
def hostAndPort (netloc : Str) : Str := netloc.rtakeWhile (· != 0x40)

/-- An address of a future version: `v`, digits in base 16, a dot and something. -/
def isFutureAddress (hostname : Str) : Bool :=
  match Str.partition 0x2E (hostname.drop 1) with
  | (digits, some rest) =>
    digits ≠ [] && digits.all (fun c => (Str.hexValue? c).isSome) && rest ≠ [] && rest.all (· != 0x0A)
  | (_, none) => false

/-- What may stand in brackets. -/
def checkBracketedHost (hostname : Str) : Except String Unit :=
  if hostname.head? = some 0x76 then
    refuse (isFutureAddress hostname = false) "IPvFuture address is invalid"
  else match ipAddress hostname with
    | none => .error s!"{hostname.repr} does not appear to be an IPv4 or IPv6 address"
    | some (.v4 _) => .error "An IPv4 address cannot be in brackets"
    | some (.v6 _ _) => .ok ()

/-- An authority with brackets: nothing before them, and nothing but a port after them. -/
def checkBracketedNetloc (netloc : Str) : Except String Unit :=
  match Str.partition 0x5B (hostAndPort netloc) with
  | (beforeBracket, some bracketed) => do
    refuse (beforeBracket ≠ []) "Invalid IPv6 URL"
    let (hostname, port) := Str.partition 0x5D bracketed
    refuse (port.getD [] ≠ [] ∧ (port.getD []).head? ≠ some 0x3A) "Invalid IPv6 URL"
    checkBracketedHost hostname
  | (hostAndPort, none) => checkBracketedHost (Str.partition 0x3A hostAndPort).1

/-- The normal form KC may not hold delimiters that the text does not have. -/
def checkNetloc (netloc : Str) : Except String Unit :=
  let n := netloc.filter fun c => c ∉ Str.of "@:#?"
  refuse (netloc.isAscii = false ∧ U.nfkc n ≠ n ∧ ∃ d ∈ Unicode.delimiters, d ∈ U.nfkc n)
    (s!"netloc {netloc.repr} contains invalid characters under NFKC normalization")

/-- All the checks of an authority. -/
def checkAuthority (netloc : Str) : Except String Unit := do
  refuse (¬ (0x5B ∈ netloc ↔ 0x5D ∈ netloc)) "Invalid IPv6 URL"
  (if 0x5B ∈ netloc then checkBracketedNetloc netloc else .ok ())
  checkNetloc U netloc

/-- `urlsplit`, with the message of its `ValueError`. -/
def urlsplit (url : Str) : Except String SplitResult := do
  checkAuthority U (parts url).netloc
  pure (parts url)

/-- What stands after the last slash. -/
def lastSegment (path : Str) : Str := path.rtakeWhile (· != 0x2F)

/-- A path without the parameters of its last segment. -/
def withoutParams (path : Str) : Str :=
  path.rdropWhile (· != 0x2F) ++ (Str.partition 0x3B (lastSegment path)).1

/-- `urlparse`: the path loses its parameters.  Only `http` and `https` are read any further, and both have
them. -/
def urlparse (url : Str) : Except String SplitResult := do
  let split ← urlsplit U url
  pure { split with path := withoutParams split.path }

/-- `urlunsplit` for `http` and `https`, without a query and a fragment. -/
def urlunsplit (scheme netloc path : Str) : Str :=
  if netloc ≠ [] then
    scheme ++ Str.of "://" ++ netloc ++ (if path = [] ∨ path.head? = some 0x2F then path else 0x2F :: path)
  else if path = [] ∨ path.head? = some 0x2F then scheme ++ Str.of "://" ++ path
  else scheme ++ 0x3A :: path

/-! ### Host and port -/

/-- The host and the port of an authority, as texts. -/
def hostinfo (netloc : Str) : Str × Str :=
  match Str.partition 0x5B (hostAndPort netloc) with
  | (_, some bracketed) =>
    let (hostname, rest) := Str.partition 0x5D bracketed
    (hostname, (Str.partition 0x3A (rest.getD [])).2.getD [])
  | (hostAndPort, none) =>
    let (hostname, port) := Str.partition 0x3A hostAndPort
    (hostname, port.getD [])

/-- The host in lower case, without its scope. -/
def SplitResult.hostname (r : SplitResult) : Option Str :=
  match (hostinfo r.netloc).1 with
  | [] => none
  | host =>
    match Str.partition 0x25 host with
    | (host, none) => some (U.lower host)
    | (host, some zone) => some (U.lower host ++ 0x25 :: zone)

/-- `int` takes no more digits than these. -/
def maxDigits : ℕ := 4300

/-- The number of a port. -/
def portNumber (port : Str) : ℕ := Ip.ofDigits 10 (port.map (· - 0x30))

/-- `port`: `none` if there is no port or an empty one. -/
def SplitResult.port (r : SplitResult) : Except String (Option ℕ) :=
  let port := (hostinfo r.netloc).2
  if port = [] then .ok none
  else if port.all Str.isDigit = false then
    .error s!"Port could not be cast to integer value as {port.repr}"
  else if maxDigits < port.length then
    .error (s!"Exceeds the limit ({maxDigits} digits) for integer string conversion: value has " ++
      s!"{port.length} digits; use sys.set_int_max_str_digits() to increase the limit")
  else if 65535 < portNumber port then .error "Port out of range 0-65535"
  else .ok (some (portNumber port))

/-! ### What splitting yields -/

variable {U} {url netloc path scheme s t : Str}

theorem partition_fst (c : ℕ) (s : Str) : (Str.partition c s).1 = s.takeWhile (· != c) := by
  unfold Str.partition
  split
  · rename_i hnil
    have hall := List.dropWhile_eq_nil_iff.1 hnil
    exact (List.takeWhile_eq_self_iff.2 hall).symm
  · rfl

theorem notMem_partition_fst (c : ℕ) (s : Str) : c ∉ (Str.partition c s).1 := by
  rw [partition_fst]
  intro hmem
  simpa using List.mem_takeWhile_imp hmem

theorem mem_of_mem_partition_fst {c x : ℕ} (h : x ∈ (Str.partition c s).1) : x ∈ s := by
  rw [partition_fst] at h
  exact (List.takeWhile_prefix _).subset h

/-- A text with the separator is what stands on its two sides. -/
theorem eq_of_partition {c : ℕ} {head rest : Str} (h : Str.partition c s = (head, some rest)) :
    c ∉ head ∧ s = head ++ c :: rest := by
  have hhead : c ∉ (Str.partition c s).1 := notMem_partition_fst c s
  rw [h] at hhead
  refine ⟨hhead, ?_⟩
  unfold Str.partition at h
  split at h
  · cases h
  · rename_i x rest' hdrop
    simp only [Prod.mk.injEq, Option.some.injEq] at h
    obtain ⟨rfl, rfl⟩ := h
    have hx : x = c := by
      have hnot := List.head?_dropWhile_not (· != c) s
      rw [hdrop] at hnot
      simpa using hnot
    have happ := List.takeWhile_append_dropWhile (p := (· != c)) (l := s)
    rw [hdrop, hx] at happ
    exact happ.symm

theorem eq_of_partition_none {c : ℕ} {head : Str} (h : Str.partition c s = (head, none)) :
    c ∉ s ∧ head = s := by
  unfold Str.partition at h
  split at h
  · rename_i hnil
    obtain ⟨rfl, -⟩ := Prod.mk.inj h
    refine ⟨fun hmem => ?_, rfl⟩
    simpa using List.dropWhile_eq_nil_iff.1 hnil c hmem
  · cases h

/-- A change of case changes the two sides of a separator, each for itself. -/
theorem partition_of_lowered (hU : U.Lawful) {d : ℕ} (hd : d < 128) (hletter : ¬ (0x41 ≤ d ∧ d ≤ 0x5A))
    (hlower : ¬ (0x61 ≤ d ∧ d ≤ 0x7A)) (h : U.Lowered s t) :
    (∃ s₁, Str.partition d s = (s₁, none) ∧ ∃ t₁, U.Lowered s₁ t₁ ∧ Str.partition d t = (t₁, none)) ∨
    ∃ s₁ s₂, Str.partition d s = (s₁, some s₂) ∧
      ∃ t₁ t₂, U.Lowered s₁ t₁ ∧ U.Lowered s₂ t₂ ∧ Str.partition d t = (t₁, some t₂) := by
  obtain ⟨s₁, rest, hpart⟩ : ∃ s₁ rest, Str.partition d s = (s₁, rest) := ⟨_, _, rfl⟩
  cases rest with
  | none =>
    obtain ⟨hnot, rfl⟩ := eq_of_partition_none hpart
    exact .inl ⟨_, hpart, t, h, Str.partition_of_notMem (mt (h.mem_iff hU hd hletter hlower).1 hnot)⟩
  | some s₂ =>
    obtain ⟨hnot, rfl⟩ := eq_of_partition hpart
    obtain ⟨t₁, t', h₁, h', rfl⟩ := h.append_inv
    obtain ⟨t₂, h₂, rfl⟩ := h'.cons_inv hU hd hletter
    refine .inr ⟨s₁, s₂, hpart, t₁, t₂, h₁, h₂, Str.partition_append fun x hx => ?_⟩
    rintro rfl
    exact hnot ((h₁.mem_iff hU hd hletter hlower).1 hx)

/-! ### Addresses in brackets -/

theorem ipAddress_v6_eq_some {n : Fin (2 ^ 128)} {scope : Option Str} :
    ipAddress s = some (.v6 n scope) ↔
      0x2F ∉ s ∧ ∃ addr m, Ip.splitScopeId s = some (addr, scope) ∧ Ip.parseV6 addr = some m ∧
        Fin.ofNat _ m = n := by
  have hcolon : ∀ {addr m}, Ip.splitScopeId s = some (addr, scope) → Ip.parseV6 addr = some m →
      Ip.parseV4 s = none := by
    intro addr m hsplit hm
    have hmem : 0x3A ∈ s := by
      have haddr := Ip.colon_mem_of_parseV6 hm
      have hfst : addr = (Str.partition 0x25 s).1 := by
        unfold Ip.splitScopeId at hsplit
        split at hsplit
        · rename_i heq
          cases hsplit
          rw [heq]
        · rename_i heq
          split_ifs at hsplit
          cases hsplit
          rw [heq]
      exact mem_of_mem_partition_fst (hfst ▸ haddr)
    by_contra hsome
    obtain ⟨k, hk⟩ := Option.ne_none_iff_exists'.1 hsome
    exact Ip.notMem_of_parseV4 hk (by decide) (by decide) hmem
  unfold ipAddress
  constructor
  · intro h
    split_ifs at h with hslash
    refine ⟨hslash, ?_⟩
    split at h
    · cases h
    · simp only [Option.bind_eq_bind, Option.bind_eq_some_iff, Option.pure_def, Option.some.injEq,
        Ip.v6.injEq] at h
      obtain ⟨⟨addr, scope'⟩, hsplit, m, hm, rfl, rfl⟩ := h
      exact ⟨addr, m, hsplit, hm, rfl⟩
  · rintro ⟨hslash, addr, m, hsplit, hm, rfl⟩
    rw [if_neg hslash, hcolon hsplit hm]
    simp [hsplit, hm]

theorem lt_of_hexValue {c : ℕ} (h : (Str.hexValue? c).isSome = true) : c < 128 := by
  unfold Str.hexValue? Str.isDigit at h
  split_ifs at h with hdigit hlower hupper
  · simp only [Bool.and_eq_true, decide_eq_true_eq] at hdigit
    omega
  · omega
  · omega
  · cases h

theorem lt_of_parseV6 {m c : ℕ} (h : Ip.parseV6 s = some m) (hc : c ∈ s) : c < 128 := by
  by_cases hcolon : c = 0x3A
  · omega
  · by_cases hdot : c = 0x2E
    · omega
    · exact lt_of_hexValue (Ip.isSome_of_parseV6 h hc hcolon hdot)

/-- An IPv6 address stays the same address in lower case; its scope may change. -/
theorem ipAddress_of_lowered (hU : U.Lawful) (h : U.Lowered s t) {n : Fin (2 ^ 128)} {scope : Option Str}
    (hs : ipAddress s = some (.v6 n scope)) : ∃ scope', ipAddress t = some (.v6 n scope') := by
  obtain ⟨hslash, addr, m, hsplit, hm, hn⟩ := ipAddress_v6_eq_some.1 hs
  have hslash' : 0x2F ∉ t := mt (h.mem_iff hU (by decide) (by decide) (by decide)).1 hslash
  have hparse : ∀ {t₁}, U.Lowered addr t₁ → Ip.parseV6 t₁ = some m := by
    intro t₁ h₁
    rw [h₁.eq_of_isAscii hU fun c hc => lt_of_parseV6 hm hc, ← hm]
    exact Ip.parseV6_map Str.sameDigits_asciiLowerChar addr
  unfold Ip.splitScopeId at hsplit
  rcases partition_of_lowered hU (d := 0x25) (by decide) (by decide) (by decide) h with
    ⟨s₁, hpart, t₁, h₁, hpart'⟩ | ⟨s₁, s₂, hpart, t₁, t₂, h₁, h₂, hpart'⟩
  · rw [hpart] at hsplit
    cases hsplit
    refine ⟨none, ipAddress_v6_eq_some.2 ⟨hslash', t₁, m, ?_, hparse h₁, hn⟩⟩
    rw [Ip.splitScopeId, hpart']
  · rw [hpart] at hsplit
    dsimp only at hsplit
    split_ifs at hsplit with hzone
    cases hsplit
    refine ⟨some t₂, ipAddress_v6_eq_some.2 ⟨hslash', t₁, m, ?_, hparse h₁, hn⟩⟩
    rw [Ip.splitScopeId, hpart']
    rw [not_or, List.isEmpty_iff] at hzone
    exact if_neg (not_or.2 ⟨by simpa using mt (h₂.eq_nil_iff hU).1 hzone.1,
      mt (h₂.mem_iff hU (by decide) (by decide) (by decide)).1 hzone.2⟩)

/-- The text of an IPv6 address does not begin with a `v`. -/
theorem head_ne_of_ipAddress {n : Fin (2 ^ 128)} {scope : Option Str} (h : ipAddress s = some (.v6 n scope)) :
    s.head? ≠ some 0x76 := by
  intro hhead
  obtain ⟨-, addr, m, hsplit, hm, -⟩ := ipAddress_v6_eq_some.1 h
  obtain ⟨s', rfl⟩ := List.head?_eq_some_iff.1 hhead
  have haddr : addr = 0x76 :: (Str.partition 0x25 s').1 := by
    have hfst : (Str.partition 0x25 (0x76 :: s')).1 = 0x76 :: (Str.partition 0x25 s').1 := by
      rw [partition_fst, partition_fst, List.takeWhile_cons_of_pos (by decide)]
    unfold Ip.splitScopeId at hsplit
    split at hsplit
    · rename_i heq
      cases hsplit
      rw [← hfst, heq]
    · rename_i heq
      split_ifs at hsplit
      cases hsplit
      rw [← hfst, heq]
  have hhex := Ip.isSome_of_parseV6 hm (c := 0x76) (by simp [haddr]) (by decide) (by decide)
  revert hhex
  decide

theorem isFutureAddress_of_lowered (hU : U.Lawful) (h : U.Lowered s t) (hs : isFutureAddress (0x76 :: s) = true) :
    isFutureAddress (0x76 :: t) = true := by
  unfold isFutureAddress at hs ⊢
  rw [List.drop_one, List.tail_cons] at hs ⊢
  rcases partition_of_lowered hU (d := 0x2E) (by decide) (by decide) (by decide) h with
    ⟨s₁, hpart, -⟩ | ⟨s₁, s₂, hpart, t₁, t₂, h₁, h₂, hpart'⟩
  · rw [hpart] at hs
    cases hs
  · rw [hpart] at hs
    rw [hpart']
    simp only [Bool.and_eq_true, decide_eq_true_eq, List.all_eq_true, bne_iff_ne, and_assoc] at hs ⊢
    obtain ⟨hdigits, hhex, hrest, hline⟩ := hs
    refine ⟨mt (h₁.eq_nil_iff hU).1 hdigits, fun x hx => ?_, mt (h₂.eq_nil_iff hU).1 hrest, fun x hx => ?_⟩
    · rw [h₁.eq_of_isAscii hU fun c hc => lt_of_hexValue (hhex c hc)] at hx
      obtain ⟨c, hc, rfl⟩ := List.mem_map.1 hx
      rw [Str.sameDigits_asciiLowerChar.hexValue]
      exact hhex c hc
    · rintro rfl
      exact hline _ ((h₂.mem_iff hU (by decide) (by decide) (by decide)).1 hx) rfl

/-- What may stand in brackets may stand there in lower case. -/
theorem checkBracketedHost_of_lowered (hU : U.Lawful) (h : U.Lowered s t)
    (hs : checkBracketedHost s = .ok ()) : checkBracketedHost t = .ok () := by
  unfold checkBracketedHost at hs
  split_ifs at hs with hv
  · obtain ⟨s', rfl⟩ := List.head?_eq_some_iff.1 hv
    obtain ⟨t', h', rfl⟩ := h.cons_inv hU (by decide) (by decide)
    rw [refuse_eq_ok, Bool.not_eq_false] at hs
    rw [checkBracketedHost, if_pos (by rfl), refuse_eq_ok, Bool.not_eq_false]
    exact isFutureAddress_of_lowered hU h' hs
  · split at hs
    · cases hs
    · cases hs
    · rename_i n scope hip
      obtain ⟨scope', hip'⟩ := ipAddress_of_lowered hU h hip
      rw [checkBracketedHost, if_neg (head_ne_of_ipAddress hip'), hip']

/-! ### Readable authorities -/

theorem hostAndPort_of_notMem (h : 0x40 ∉ netloc) : hostAndPort netloc = netloc := by
  rw [hostAndPort, List.rtakeWhile_eq_self_iff]
  intro x hx
  simpa using fun e : x = 0x40 => h (e ▸ hx)

/-- There are no brackets, or an address stands in them and nothing but a port follows. -/
inductive Bracketed : Str → Prop
  | plain {netloc : Str} : 0x5B ∉ netloc → 0x5D ∉ netloc → Bracketed netloc
  | literal {host suffix : Str} : 0x5D ∉ host → checkBracketedHost host = .ok () →
      (suffix = [] ∨ suffix.head? = some 0x3A) → Bracketed (0x5B :: (host ++ 0x5D :: suffix))

theorem checkBracketedNetloc_iff (hat : 0x40 ∉ netloc) (hopen : 0x5B ∈ netloc) (hclose : 0x5D ∈ netloc) :
    checkBracketedNetloc netloc = .ok () ↔ Bracketed netloc := by
  have hpart : ∃ front bracketed, Str.partition 0x5B netloc = (front, some bracketed) := by
    obtain ⟨front, rest, hpart⟩ : ∃ front rest, Str.partition 0x5B netloc = (front, rest) := ⟨_, _, rfl⟩
    cases rest with
    | none => exact absurd hopen (eq_of_partition_none hpart).1
    | some bracketed => exact ⟨front, bracketed, hpart⟩
  obtain ⟨front, bracketed, hpart⟩ := hpart
  obtain ⟨hfront, rfl⟩ := eq_of_partition hpart
  simp only [checkBracketedNetloc, hostAndPort_of_notMem hat, hpart, bind_eq_ok, refuse_eq_ok, not_not,
    exists_const]
  constructor
  · rintro ⟨rfl, hsuffix, hhost⟩
    obtain ⟨host, rest, hclosed⟩ : ∃ host rest, Str.partition 0x5D bracketed = (host, rest) := ⟨_, _, rfl⟩
    cases rest with
    | none =>
      have hclose : 0x5D ∈ bracketed := by simpa using hclose
      exact absurd hclose (eq_of_partition_none hclosed).1
    | some suffix =>
      obtain ⟨hnot, rfl⟩ := eq_of_partition hclosed
      rw [hclosed] at hsuffix hhost
      refine .literal hnot hhost ?_
      simp only [Option.getD_some, not_and, not_not] at hsuffix
      exact or_iff_not_imp_left.2 hsuffix
  · intro hbracketed
    generalize hn : front ++ 0x5B :: bracketed = netloc at hbracketed hopen
    cases hbracketed with
    | plain h => exact absurd hopen h
    | @literal host suffix hnot hhost hsuffix =>
      cases front with
      | cons c front =>
        simp only [List.cons_append, List.cons.injEq] at hn
        exact absurd (List.mem_cons.2 (.inl hn.1.symm)) hfront
      | nil =>
        simp only [List.nil_append, List.cons.injEq, true_and] at hn
        subst hn
        have hclosed : Str.partition 0x5D (host ++ 0x5D :: suffix) = (host, some suffix) :=
          Str.partition_append fun x hx e => hnot (e ▸ hx)
        rw [hclosed]
        refine ⟨rfl, ?_, hhost⟩
        simp only [Option.getD_some, not_and, not_not]
        exact or_iff_not_imp_left.1 hsuffix

/-- The normal form of no character hides a delimiter. -/
def NoneHidden (U : Unicode) (netloc : Str) : Prop :=
  ∀ c ∈ netloc, 128 ≤ c → ∀ d ∈ Unicode.delimiters, d ∉ U.nfkc [c]

theorem mem_delimiters {d : ℕ} : d ∈ Unicode.delimiters ↔ d = 0x2F ∨ d ∈ Str.of "@:#?" := by
  have hall : Unicode.delimiters = [0x2F, 0x3F, 0x23, 0x40, 0x3A] := by decide
  have hothers : Str.of "@:#?" = [0x40, 0x3A, 0x23, 0x3F] := by decide
  simp only [hall, hothers, List.mem_cons, List.not_mem_nil, or_false]
  omega

theorem lt_of_mem_delimiters {d : ℕ} (h : d ∈ Unicode.delimiters) : d < 128 := by
  revert d
  decide

theorem checkNetloc_iff (hU : U.Lawful) (hslash : 0x2F ∉ netloc) :
    checkNetloc U netloc = .ok () ↔ NoneHidden U netloc := by
  -- What is left without the other delimiters has none.
  have hnone : ∀ d ∈ Unicode.delimiters, d ∉ netloc.filter fun c => c ∉ Str.of "@:#?" := by
    intro d hd hmem
    obtain ⟨hmem, hnot⟩ := List.mem_filter.1 hmem
    rcases mem_delimiters.1 hd with rfl | h
    · exact hslash hmem
    · exact of_decide_eq_true hnot h
  rw [checkNetloc, refuse_eq_ok]
  constructor
  · intro h c hc hlt d hd hmem
    have hn : d ∈ U.nfkc (netloc.filter fun c => c ∉ Str.of "@:#?") := by
      refine (hU.nfkc_mem d hd _).2 ⟨c, List.mem_filter.2 ⟨hc, ?_⟩, hmem⟩
      have hnot : c ∉ Str.of "@:#?" := by
        intro hc'
        have hsmall := lt_of_mem_delimiters (mem_delimiters.2 (.inr hc'))
        omega
      exact decide_eq_true hnot
    refine h ⟨?_, fun heq => hnone d hd (heq ▸ hn), d, hd, hn⟩
    exact List.all_eq_false.2 ⟨c, hc, by simpa using hlt⟩
  · rintro h ⟨-, -, d, hd, hmem⟩
    obtain ⟨c, hc, hmem⟩ := (hU.nfkc_mem d hd _).1 hmem
    by_cases hlt : c < 128
    · rw [hU.nfkc_ascii c hlt, List.mem_singleton] at hmem
      exact hnone d hd (hmem ▸ hc)
    · exact h c (List.mem_filter.1 hc).1 (not_lt.1 hlt) d hd hmem

/-- **What `urlsplit` takes as an authority.** -/
theorem checkAuthority_iff (hU : U.Lawful) (hat : 0x40 ∉ netloc) (hslash : 0x2F ∉ netloc) :
    checkAuthority U netloc = .ok () ↔ Bracketed netloc ∧ NoneHidden U netloc := by
  simp only [checkAuthority, bind_eq_ok, refuse_eq_ok, not_not, exists_const, checkNetloc_iff hU hslash]
  constructor
  · rintro ⟨hiff, _, hbracketed, hhidden⟩
    refine ⟨?_, hhidden⟩
    by_cases hopen : 0x5B ∈ netloc
    · rw [if_pos hopen] at hbracketed
      exact (checkBracketedNetloc_iff hat hopen (hiff.1 hopen)).1 hbracketed
    · exact .plain hopen fun h => hopen (hiff.2 h)
  · rintro ⟨hbracketed, hhidden⟩
    by_cases hopen : 0x5B ∈ netloc
    · have hclose : 0x5D ∈ netloc := by
        cases hbracketed with
        | plain h => exact absurd hopen h
        | literal => simp
      refine ⟨iff_of_true hopen hclose, (), ?_, hhidden⟩
      rw [if_pos hopen]
      exact (checkBracketedNetloc_iff hat hopen hclose).2 hbracketed
    · have hclose : 0x5D ∉ netloc := by
        cases hbracketed with
        | plain _ h => exact h
        | literal => simp at hopen
      exact ⟨iff_of_false hopen hclose, (), if_neg hopen, hhidden⟩

/-! ### Lower case -/

theorem bracketed_of_lowered (hU : U.Lawful) (h : U.Lowered s t) (hs : Bracketed s) : Bracketed t := by
  cases hs with
  | plain hopen hclose =>
    exact .plain (mt (h.mem_iff hU (by decide) (by decide) (by decide)).1 hopen)
      (mt (h.mem_iff hU (by decide) (by decide) (by decide)).1 hclose)
  | literal hnot hhost hsuffix =>
    obtain ⟨t', h₁, rfl⟩ := h.cons_inv hU (by decide) (by decide)
    obtain ⟨host', t'', hhost', h₂, rfl⟩ := h₁.append_inv
    obtain ⟨suffix', hsuffix', rfl⟩ := h₂.cons_inv hU (by decide) (by decide)
    refine .literal (mt (hhost'.mem_iff hU (by decide) (by decide) (by decide)).1 hnot)
      (checkBracketedHost_of_lowered hU hhost' hhost) ?_
    rcases hsuffix with rfl | hhead
    · exact .inl ((hsuffix'.eq_nil_iff hU).2 rfl)
    · obtain ⟨port, rfl⟩ := List.head?_eq_some_iff.1 hhead
      obtain ⟨port', -, rfl⟩ := hsuffix'.cons_inv hU (by decide) (by decide)
      exact .inr rfl

theorem noneHidden_of_lowered (hU : U.Lawful) (h : U.Lowered s t) (hs : NoneHidden U s) : NoneHidden U t := by
  intro x hx hlarge d hd hmem
  obtain ⟨c, hc, hlarge', hmem'⟩ := h.nfkc hU hd hx hlarge hmem
  exact hs c hc hlarge' d hd hmem'

/-- **An authority that can be read can be read in lower case.** -/
theorem readable_of_lowered (hU : U.Lawful) (h : U.Lowered s t) (hat : 0x40 ∉ s) (hslash : 0x2F ∉ s)
    (hs : checkAuthority U s = .ok ()) : checkAuthority U t = .ok () := by
  obtain ⟨hbracketed, hhidden⟩ := (checkAuthority_iff hU hat hslash).1 hs
  have hat' : 0x40 ∉ t := mt (h.mem_iff hU (by decide) (by decide) (by decide)).1 hat
  have hslash' : 0x2F ∉ t := mt (h.mem_iff hU (by decide) (by decide) (by decide)).1 hslash
  exact (checkAuthority_iff hU hat' hslash').2
    ⟨bracketed_of_lowered hU h hbracketed, noneHidden_of_lowered hU h hhidden⟩

/-! ### Host and port -/

theorem hostinfo_plain (hat : 0x40 ∉ netloc) (hopen : 0x5B ∉ netloc) : hostinfo netloc =
    ((Str.partition 0x3A netloc).1, (Str.partition 0x3A netloc).2.getD []) := by
  rw [hostinfo, hostAndPort_of_notMem hat, Str.partition_of_notMem hopen]

theorem hostinfo_literal {host suffix : Str} (hat : 0x40 ∉ 0x5B :: (host ++ 0x5D :: suffix))
    (hnot : 0x5D ∉ host) : hostinfo (0x5B :: (host ++ 0x5D :: suffix)) =
      (host, (Str.partition 0x3A suffix).2.getD []) := by
  have hopen : Str.partition 0x5B (0x5B :: (host ++ 0x5D :: suffix)) = ([], some (host ++ 0x5D :: suffix)) :=
    Str.partition_append (p := []) nofun
  have hclose : Str.partition 0x5D (host ++ 0x5D :: suffix) = (host, some suffix) :=
    Str.partition_append fun x hx e => hnot (e ▸ hx)
  rw [hostinfo, hostAndPort_of_notMem hat, hopen]
  dsimp only
  rw [hclose]
  rfl

/-- Where the text after a separator does not have it again, it is the last one. -/
theorem eq_of_append_cons {c : ℕ} {a b u v : Str} (h : a ++ c :: u = b ++ c :: v) (hu : c ∉ u) (hv : c ∉ v) :
    a = b ∧ u = v := by
  have hrev : u.reverse ++ c :: a.reverse = v.reverse ++ c :: b.reverse := by
    simpa using congrArg List.reverse h
  have hleft : Str.partition c (u.reverse ++ c :: a.reverse) = (u.reverse, some a.reverse) :=
    Str.partition_append fun x hx e => hu (List.mem_reverse.1 (e ▸ hx))
  have hright : Str.partition c (v.reverse ++ c :: b.reverse) = (v.reverse, some b.reverse) :=
    Str.partition_append fun x hx e => hv (List.mem_reverse.1 (e ▸ hx))
  rw [hrev, hright] at hleft
  simp only [Prod.mk.injEq, Option.some.injEq, List.reverse_inj] at hleft
  exact ⟨hleft.2.symm, hleft.1.symm⟩

theorem colon_notMem_of_digits {port : Str} (h : port.all Str.isDigit = true) : 0x3A ∉ port := fun hmem =>
  absurd (List.all_eq_true.1 h _ hmem) (by decide)

/-- The port of an authority, if it has one, is what comes after its last colon. -/
theorem port_cases (hat : 0x40 ∉ netloc) (h : Bracketed netloc) :
    ((hostinfo netloc).2 = [] ∧ ∀ x port, netloc = x ++ 0x3A :: port → port.all Str.isDigit = false) ∨
    ∃ shown, netloc = shown ++ 0x3A :: (hostinfo netloc).2 ∧ hostinfo shown = ((hostinfo netloc).1, []) ∧
      Bracketed shown := by
  cases h with
  | plain hopen hclose =>
    rw [hostinfo_plain hat hopen]
    obtain ⟨shown, rest, hpart⟩ : ∃ shown rest, Str.partition 0x3A netloc = (shown, rest) := ⟨_, _, rfl⟩
    rw [hpart]
    cases rest with
    | none =>
      obtain ⟨hnot, rfl⟩ := eq_of_partition_none hpart
      refine .inl ⟨rfl, fun x port heq => absurd ?_ hnot⟩
      rw [heq]
      simp
    | some port =>
      obtain ⟨hnot, rfl⟩ := eq_of_partition hpart
      simp only [List.mem_append, List.mem_cons, not_or] at hat hopen hclose
      refine .inr ⟨shown, rfl, ?_, .plain hopen.1 hclose.1⟩
      rw [hostinfo_plain hat.1 hopen.1, Str.partition_of_notMem hnot]
      rfl
  | @literal host suffix hnot hhost hsuffix =>
    rw [hostinfo_literal hat hnot]
    rcases hsuffix with rfl | hhead
    · refine .inl ⟨rfl, fun x port heq => ?_⟩
      -- The last character is the bracket.
      have hlast := congrArg List.getLast? heq
      rw [show (0x5B :: (host ++ [0x5D]) : Str) = (0x5B :: host) ++ [0x5D] from rfl, List.getLast?_concat,
        List.getLast?_append_cons] at hlast
      cases port with
      | nil => simp at hlast
      | cons c port =>
        rw [List.getLast?_cons_cons] at hlast
        refine List.all_eq_false.2 ⟨0x5D, List.mem_of_getLast? hlast.symm, by decide⟩
    · obtain ⟨port, rfl⟩ := List.head?_eq_some_iff.1 hhead
      have hport : Str.partition 0x3A (0x3A :: port) = ([], some port) := Str.partition_append (p := []) nofun
      have hat' : 0x40 ∉ 0x5B :: (host ++ [0x5D]) := by
        simp only [List.mem_append, List.mem_cons, not_or, List.not_mem_nil, not_false_eq_true,
          and_true] at hat ⊢
        exact ⟨hat.1, hat.2.1, hat.2.2.1⟩
      rw [hport]
      refine .inr ⟨0x5B :: (host ++ [0x5D]), by simp, ?_, .literal hnot hhost (.inl rfl)⟩
      rw [hostinfo_literal hat' hnot]
      rfl

/-- The texts of host and port in lower case. -/
theorem hostinfo_of_lowered (hU : U.Lawful) (h : U.Lowered s t) (hat : 0x40 ∉ s) (hs : Bracketed s) :
    U.Lowered (hostinfo s).1 (hostinfo t).1 ∧ U.Lowered (hostinfo s).2 (hostinfo t).2 := by
  have hpart : ∀ {a b : Str}, U.Lowered a b →
      U.Lowered (Str.partition 0x3A a).1 (Str.partition 0x3A b).1 ∧
        U.Lowered ((Str.partition 0x3A a).2.getD []) ((Str.partition 0x3A b).2.getD []) := by
    intro a b hab
    rcases partition_of_lowered hU (d := 0x3A) (by decide) (by decide) (by decide) hab with
      ⟨a₁, ha, b₁, hab₁, hb⟩ | ⟨a₁, a₂, ha, b₁, b₂, hab₁, hab₂, hb⟩
    · rw [ha, hb]
      exact ⟨hab₁, .nil⟩
    · rw [ha, hb]
      exact ⟨hab₁, hab₂⟩
  have hat' : 0x40 ∉ t := mt (h.mem_iff hU (by decide) (by decide) (by decide)).1 hat
  cases hs with
  | plain hopen hclose =>
    rw [hostinfo_plain hat hopen,
      hostinfo_plain hat' (mt (h.mem_iff hU (by decide) (by decide) (by decide)).1 hopen)]
    exact hpart h
  | literal hnot hhost hsuffix =>
    obtain ⟨t', h₁, rfl⟩ := h.cons_inv hU (by decide) (by decide)
    obtain ⟨host', t'', hhost', h₂, rfl⟩ := h₁.append_inv
    obtain ⟨suffix', hsuffix', rfl⟩ := h₂.cons_inv hU (by decide) (by decide)
    rw [hostinfo_literal hat hnot]
    rw [hostinfo_literal hat' (mt (hhost'.mem_iff hU (by decide) (by decide) (by decide)).1 hnot)]
    exact ⟨hhost', (hpart hsuffix').2⟩

/-- Digits have no other case. -/
theorem all_isDigit_of_lowered (hU : U.Lawful) (h : U.Lowered s t) :
    t.all Str.isDigit = s.all Str.isDigit ∧ (s.all Str.isDigit = true → t = s) := by
  induction h with
  | nil => exact ⟨rfl, fun _ => rfl⟩
  | @cons c p s t hp _ ih =>
    rw [List.all_append, List.all_cons, ih.1]
    by_cases hc : c < 128
    · rw [hU.ascii c hc, List.mem_singleton] at hp
      subst hp
      rw [List.all_cons, List.all_nil, Bool.and_true, Str.sameDigits_asciiLowerChar.isDigit]
      refine ⟨rfl, fun hall => ?_⟩
      rw [Bool.and_eq_true] at hall
      rw [Str.sameDigits_asciiLowerChar.digit c hall.1, ih.2 hall.2]
      rfl
    · obtain ⟨hne, hother⟩ := hU.other c (not_lt.1 hc) p hp
      have hdigit : Str.isDigit c = false := by
        simp only [Str.isDigit, Bool.and_eq_false_iff, decide_eq_false_iff_not]
        omega
      have hall : p.all Str.isDigit = false := by
        obtain ⟨x, p, rfl⟩ := List.exists_cons_of_ne_nil hne
        rw [List.all_cons]
        have hx : Str.isDigit x = false := by
          have hx := hother x List.mem_cons_self
          simp only [Str.isDigit, Bool.and_eq_false_iff, decide_eq_false_iff_not]
          omega
        rw [hx, Bool.false_and]
      rw [hdigit, hall]
      exact ⟨rfl, nofun⟩

/-! ### Putting a URL together -/

/-- What splitting a URL always yields. -/
structure WellSplit (url : Str) (r : SplitResult) : Prop where
  netloc : ∀ c ∈ r.netloc, inNetloc c = true
  path : r.netloc ≠ [] → r.path = [] ∨ r.path.head? = some 0x2F
  query_notMem : 0x3F ∉ r.path
  fragment_notMem : 0x23 ∉ r.path
  netloc_subset : ∀ c ∈ r.netloc, c ∈ url
  path_subset : ∀ c ∈ r.path, c ∈ url

theorem mem_of_mem_splitScheme {c : ℕ} (h : c ∈ (splitScheme s).2) : c ∈ s := by
  unfold splitScheme at h
  split at h
  · exact h
  · rename_i head rest hpart
    obtain ⟨-, rfl⟩ := eq_of_partition hpart
    split_ifs at h
    · exact List.mem_append_right _ (List.mem_cons_of_mem _ h)
    · exact h

theorem splitNetloc_spec (s : Str) :
    (∀ c ∈ (splitNetloc s).1, inNetloc c = true ∧ c ∈ s) ∧ (∀ c ∈ (splitNetloc s).2, c ∈ s) ∧
      ((splitNetloc s).1 ≠ [] → ∀ c ∈ (splitNetloc s).2.head?, inNetloc c = false) := by
  unfold splitNetloc
  split
  · rename_i rest
    have hmem : ∀ {c : ℕ}, c ∈ rest → c ∈ 0x2F :: 0x2F :: rest := fun hc =>
      List.mem_cons_of_mem _ (List.mem_cons_of_mem _ hc)
    refine ⟨fun c hc => ⟨List.mem_takeWhile_imp hc, hmem ((List.takeWhile_prefix _).subset hc)⟩,
      fun c hc => hmem ((List.dropWhile_suffix _).subset hc), fun _ c hc => ?_⟩
    have hnot := List.head?_dropWhile_not inNetloc rest
    rw [Option.mem_def.1 hc] at hnot
    simpa using hnot
  · exact ⟨nofun, fun c hc => hc, fun h => absurd rfl h⟩

/-- What ends the authority is a slash, or else it ends the path too. -/
theorem path_of_head (h : ∀ c ∈ s.head?, inNetloc c = false) :
    (Str.partition 0x3F (Str.partition 0x23 s).1).1 = [] ∨
      (Str.partition 0x3F (Str.partition 0x23 s).1).1.head? = some 0x2F := by
  rw [partition_fst, partition_fst]
  cases s with
  | nil => exact .inl rfl
  | cons c s =>
    have hc : inNetloc c = false := h c rfl
    have hcases : c = 0x2F ∨ c = 0x3F ∨ c = 0x23 := by
      simp only [inNetloc, Bool.and_eq_false_iff, bne_eq_false_iff_eq] at hc
      tauto
    rcases hcases with rfl | rfl | rfl
    · exact .inr (by simp)
    · exact .inl (by simp)
    · exact .inl (by simp)

theorem wellSplit_parts (url : Str) : WellSplit url (parts url) := by
  have hsub : ∀ {c : ℕ}, c ∈ (splitScheme ((url.dropWhile isControlOrSpace).filter fun c => !isUnsafe c)).2 →
      c ∈ url := fun hc =>
    (List.dropWhile_suffix _).subset (List.mem_filter.1 (mem_of_mem_splitScheme hc)).1
  obtain ⟨hnetloc, hrest, hhead⟩ := splitNetloc_spec
    (splitScheme ((url.dropWhile isControlOrSpace).filter fun c => !isUnsafe c)).2
  exact
    { netloc := fun c hc => (hnetloc c hc).1
      path := fun hne => path_of_head (hhead hne)
      query_notMem := notMem_partition_fst 0x3F _
      fragment_notMem := fun hc => notMem_partition_fst 0x23 _ (mem_of_mem_partition_fst hc)
      netloc_subset := fun c hc => hsub (hnetloc c hc).2
      path_subset := fun c hc =>
        hsub (hrest c (mem_of_mem_partition_fst (mem_of_mem_partition_fst hc))) }

/-- The two schemes that are read any further. -/
def schemes : List Str := [Str.of "http", Str.of "https"]

theorem splitScheme_of_mem (h : scheme ∈ schemes) (rest : Str) :
    splitScheme (scheme ++ 0x3A :: rest) = (scheme, rest) := by
  have hscheme : 0x3A ∉ scheme ∧ scheme.head?.any isAlpha = true ∧ scheme.all isSchemeChar = true ∧
      Str.asciiLower scheme = scheme := by
    revert scheme
    decide
  obtain ⟨hcolon, halpha, hall, hlower⟩ := hscheme
  have hpart : Str.partition 0x3A (scheme ++ 0x3A :: rest) = (scheme, some rest) :=
    Str.partition_append fun x hx e => hcolon (e ▸ hx)
  rw [splitScheme, hpart]
  dsimp only
  rw [if_pos ⟨halpha, hall⟩, hlower]

/-- **A URL is split into the parts it was put together from.** -/
theorem parts_of_url (hscheme : scheme ∈ schemes) (hnetloc : ∀ c ∈ netloc, inNetloc c = true)
    (hpath : path = [] ∨ path.head? = some 0x2F) (hquery : 0x3F ∉ path) (hfragment : 0x23 ∉ path)
    (hsafe : ∀ c ∈ netloc ++ path, isUnsafe c = false) :
    parts (scheme ++ Str.of "://" ++ netloc ++ path) = ⟨scheme, netloc, path, [], []⟩ := by
  have hurl : scheme ++ Str.of "://" ++ netloc ++ path =
      scheme ++ 0x3A :: 0x2F :: 0x2F :: (netloc ++ path) := by
    rw [show Str.of "://" = [0x3A, 0x2F, 0x2F] by decide]
    simp
  have hchars : (∀ c ∈ scheme, isUnsafe c = false) ∧ scheme.head?.any isControlOrSpace = false ∧
      scheme ≠ [] := by
    clear hurl
    revert scheme
    decide
  obtain ⟨hschemeSafe, hhead, hne⟩ := hchars
  have hdrop : (scheme ++ 0x3A :: 0x2F :: 0x2F :: (netloc ++ path)).dropWhile isControlOrSpace =
      scheme ++ 0x3A :: 0x2F :: 0x2F :: (netloc ++ path) := by
    obtain ⟨c, scheme', rfl⟩ := List.exists_cons_of_ne_nil hne
    exact List.dropWhile_cons_of_neg (by simpa using hhead)
  have hfilter : (scheme ++ 0x3A :: 0x2F :: 0x2F :: (netloc ++ path)).filter (fun c => !isUnsafe c) =
      scheme ++ 0x3A :: 0x2F :: 0x2F :: (netloc ++ path) := by
    refine List.filter_eq_self.2 fun c hc => ?_
    simp only [List.mem_append, List.mem_cons] at hc hsafe
    rcases hc with hc | rfl | rfl | rfl | hc
    · rw [hschemeSafe c hc]
      rfl
    · rfl
    · rfl
    · rfl
    · rw [hsafe c hc]
      rfl
  have hend : ∀ c ∈ path.head?, inNetloc c = false := by
    rcases hpath with rfl | hpath
    · exact nofun
    · rw [hpath]
      rintro c ⟨⟩
      rfl
  have hnetlocSplit : splitNetloc (0x2F :: 0x2F :: (netloc ++ path)) = (netloc, path) := by
    simp only [splitNetloc]
    rw [List.takeWhile_append_of_pos hnetloc, List.dropWhile_append_of_pos hnetloc]
    cases path with
    | nil => simp
    | cons c path =>
      have hc : inNetloc c = false := hend c rfl
      rw [List.takeWhile_cons_of_neg (by simp [hc]), List.dropWhile_cons_of_neg (by simp [hc]),
        List.append_nil]
  unfold parts
  rw [hurl, hdrop, hfilter, splitScheme_of_mem hscheme]
  dsimp only
  rw [hnetlocSplit]
  dsimp only
  rw [Str.partition_of_notMem hfragment]
  dsimp only
  rw [Str.partition_of_notMem hquery]
  rfl

end Url

end Cabin
