import Cabin.Ca.Constraints
import Cabin.Net.Networks
import Cabin.Text.Case

/-!
# Constraints as they are typed

The lines an operator types into the two fields for name constraints (`ca/leaf.py`,
`parse_name_constraints`), the extension that is made of them and what is read back of it
(`constraints_of`).  A line is tried as an address, as a network and as a host name.

* `IsEntry`: the lines that should be accepted;
* `AsPromised`: exactly these are, they survive the certificate, and an address line stands for the
  addresses that are typed;
* `constraints_survive_iff`: so it is, except for a wildcard behind a full stop and an address with a scope.
-/

namespace Cabin

namespace Leaf

open X509

/-! ### The parser -/

/-- At most this many entries on one side. -/
def maxNameConstraints : ℕ := 50

/-- An entry: a DNS suffix or a network. -/
inductive Subtree where
  | dns (name : Str)
  | ip (network : Network)
  deriving DecidableEq, Repr

/-- The suffix of an entry. -/
def Subtree.dns? : Subtree → Option Str
  | dns name => some name
  | ip _ => none

/-- The network of an entry. -/
def Subtree.ip? : Subtree → Option Network
  | dns _ => none
  | ip network => some network

/-- The entry as a network, `none` if it is not for an address at all. -/
def parseIpEntry (entry : Str) : Except Failure (Option Network) :=
  match ipAddress entry with
  | some address =>
    match ipNetwork true (entry ++ 0x2F :: Str.ofNat address.bits) with
    | .ok network => .ok (some network)
    | .error _ =>
      raise .value (Str.repr (entry ++ 0x2F :: Str.ofNat address.bits) ++
        " does not appear to be an IPv4 or IPv6 network")
  | none =>
    if 0x2F ∉ entry then .ok none
    else match ipNetwork true entry with
      | .ok network => .ok (some network)
      | .error _ =>
        match ipNetwork false entry with
        | .error _ => .ok none
        | .ok _ =>
          raise .nameConstraint (s!"{entry.repr} has host bits set -- this would be silently widened " ++
            "to a wider network than what was typed; use the network address instead")

/-- The host name of an entry: a full stop in front means the same subtree. -/
def dnsValue (entry : Str) : Str := if entry.head? = some 0x2E then entry.tail else entry

/-- One line that is not blank. -/
def parseEntry (entry : Str) : Except Failure Subtree := do
  refuse ((Str.of "*.").isPrefixOf entry)
    ⟨.nameConstraint, s!"{entry.repr} is a wildcard, which is not a name-constraint entry -- a " ++
      "subtree already means 'this name and everything below it'"⟩
  match ← parseIpEntry entry with
  | some network => pure (.ip network)
  | none =>
    refuse (dnsValue entry = [] ∨ isHostname (dnsValue entry) = false)
      ⟨.nameConstraint, s!"not a valid name-constraint entry: {entry.repr}"⟩
    pure (.dns (Str.lower (dnsValue entry)))

/-- The lines of a field that are not blank, stripped. -/
def entryLines (text : Str) : List Str := ((Str.splitLines text).map Str.strip).filter (· ≠ [])

/-- The entries of a field. -/
def parseSide (text : Str) : Except Failure (List Str × List Network) := do
  let parsed ← (entryLines text).mapM parseEntry
  refuse (maxNameConstraints < parsed.length)
    ⟨.nameConstraint, s!"at most {maxNameConstraints} name-constraint entries are allowed on one side; " ++
      s!"found {parsed.length}"⟩
  pure (parsed.filterMap Subtree.dns?, parsed.filterMap Subtree.ip?)

/-- The constraints of the two fields. -/
structure TypedConstraints where
  permittedDns : List Str := []
  permittedIp : List Network := []
  excludedDns : List Str := []
  excludedIp : List Network := []
  deriving DecidableEq, Repr

/-- The two fields, parsed. -/
def parseNameConstraints (permitted excluded : Str) : Except Failure TypedConstraints := do
  let (permittedDns, permittedIp) ← parseSide permitted
  let (excludedDns, excludedIp) ← parseSide excluded
  pure ⟨permittedDns, permittedIp, excludedDns, excludedIp⟩

namespace TypedConstraints

/-- No constraint at all. -/
def isEmpty (s : TypedConstraints) : Bool :=
  s.permittedDns.isEmpty && s.permittedIp.isEmpty && s.excludedDns.isEmpty && s.excludedIp.isEmpty

/-- What a certificate holds of them: of a network its address and its mask. -/
def encoded (s : TypedConstraints) : NameConstraintSpec :=
  ⟨s.permittedDns, s.permittedIp.map Network.network, s.excludedDns, s.excludedIp.map Network.network⟩

/-- What is read from a certificate has no scopes. -/
def ofRead (s : NameConstraintSpec) : TypedConstraints :=
  ⟨s.permittedDns, s.permittedIp.map (⟨·, none⟩), s.excludedDns, s.excludedIp.map (⟨·, none⟩)⟩

/-- The extension, as it is encoded; a DNS subtree with a star cannot be made. -/
def extension (s : TypedConstraints) : Except Failure (Option NameConstraints) := do
  refuse (∃ name ∈ s.permittedDns ++ s.excludedDns, 0x2A ∈ name)
    ⟨.value, "DNSName name constraints must not contain the '*' wildcard character"⟩
  pure (nameConstraintsExtension s.encoded)

end TypedConstraints

/-! ### What is expected -/

/-- A host name without a wildcard. -/
def IsPlainHost (v : Str) : Prop :=
  v.length ≤ maxHostnameLength ∧ (Str.splitAt 0x2E v).all isLabel = true

/-- A line that should be accepted: a host name, perhaps with a full stop in front, an address, or a
network without bits behind its prefix. -/
def IsEntry (line : Str) : Prop :=
  (∃ v, (line = v ∨ line = 0x2E :: v) ∧ IsPlainHost v) ∨ (∃ a, ipAddress line = some a) ∨
    0x2F ∈ line ∧ ∃ n, Network.parse line = some n ∧ n.network.masked = n.network

/-- A field that should be accepted. -/
def IsField (text : Str) : Prop :=
  (entryLines text).length ≤ maxNameConstraints ∧ ∀ line ∈ entryLines text, IsEntry line

/-- The line is typed for the address. -/
def IsTypedFor (line : Str) (a : Ip) : Prop :=
  ipAddress line = some a ∨
    ipAddress line = none ∧ ∃ n, Network.parse line = some n ∧ n.network.Covers a

/-- The constraints survive the certificate. -/
structure Survives (s : TypedConstraints) : Prop where
  /-- There is no extension exactly if there is no constraint. -/
  absent : s.extension = .ok none ↔ s.isEmpty = true
  /-- A certificate that carries the extension is read as these constraints. -/
  readBack : ∃ nc, s.extension = .ok nc ∧ ∀ cert : Cert,
    cert.extension? Extensions.nameConstraints = .ok (nc.map (⟨·, true⟩)) →
    (constraintsOf cert).map TypedConstraints.ofRead = .ok s

/-- What the fields promise. -/
structure AsPromised (permitted excluded : Str) : Prop where
  accepted : (∃ s, parseNameConstraints permitted excluded = .ok s) ↔ IsField permitted ∧ IsField excluded
  survives : ∀ s, parseNameConstraints permitted excluded = .ok s → Survives s
  /-- A line for addresses stands for the addresses that are typed. -/
  exact : ∀ s, parseNameConstraints permitted excluded = .ok s →
    ∀ line ∈ entryLines permitted ++ entryLines excluded, ∀ n, parseEntry line = .ok (.ip n) →
    ∀ a : Ip, a.scope = none → (n.network.Has a ↔ IsTypedFor line a)

/-- A wildcard behind a full stop. -/
def IsDottedWildcard (line : Str) : Prop := ∃ v, line = Str.of ".*." ++ v ∧ isHostname (Str.of "*." ++ v) = true

/-- An address or a network with a scope. -/
def HasScope (line : Str) : Prop :=
  (∃ a, ipAddress line = some a ∧ a.scope ≠ none) ∨
    0x2F ∈ line ∧ ∃ n, Network.parse line = some n ∧ n.scope ≠ none

/-- The fields are refused for another reason: too many lines, or a line that is nothing of the sort. -/
def IsRefused (permitted excluded : Str) : Prop :=
  ∃ text ∈ [permitted, excluded], maxNameConstraints < (entryLines text).length ∨
    ∃ line ∈ entryLines text, ¬ IsEntry line ∧ ¬ IsDottedWildcard line

/-! ### One line -/

section entry

variable {line : Str} {n : Network}

theorem parseIpEntry_address {a : Ip} (h : ipAddress line = some a) :
    parseIpEntry line = .ok (some a.asNetwork) := by
  simp only [parseIpEntry, h, ipNetwork_address h]

theorem parseIpEntry_eq_some (h : ipAddress line = none) : parseIpEntry line = .ok (some n) ↔
    0x2F ∈ line ∧ Network.parse line = some n ∧ n.network.masked = n.network := by
  unfold parseIpEntry
  by_cases hslash : 0x2F ∈ line
  · cases hparse : Network.parse line with
    | none => simp [h, hslash, ipNetwork, hparse]
    | some m =>
      by_cases hmasked : m.network.masked = m.network
      · simp only [h, hslash, not_true_eq_false, if_false, ipNetwork, hparse, if_pos hmasked,
          Except.ok.injEq, Option.some.injEq, true_and]
        exact ⟨fun heq => heq ▸ ⟨rfl, hmasked⟩, And.left⟩
      · simp only [h, hslash, not_true_eq_false, if_false, if_true, ipNetwork, hparse, if_neg hmasked,
          Bool.false_eq_true, Option.some.injEq, true_and, raise, reduceCtorEq, false_iff]
        rintro ⟨rfl, hself⟩
        exact hmasked hself
  · simp [h, hslash]

theorem parseIpEntry_eq_none : parseIpEntry line = .ok none ↔
    ipAddress line = none ∧ (0x2F ∈ line → Network.parse line = none) := by
  cases h : ipAddress line with
  | some a => simp [parseIpEntry_address h]
  | none =>
    unfold parseIpEntry
    by_cases hslash : 0x2F ∈ line
    · cases hparse : Network.parse line with
      | none => simp [h, hslash, ipNetwork, hparse]
      | some m =>
        by_cases hmasked : m.network.masked = m.network <;>
          simp [h, hslash, ipNetwork, hparse, hmasked, raise]
    · simp [h, hslash]

/-- No address begins with a star. -/
theorem star_of_ipAddress {a : Ip} (h : ipAddress line = some a) : line.head? ≠ some 0x2A := by
  have hstar := Network.head?_ne_star (parse_address h)
  cases line with
  | nil => exact nofun
  | cons c rest => exact hstar

theorem isPrefixOf_star {v : Str} (h : (Str.of "*.").isPrefixOf v = true) : v.head? = some 0x2A := by
  obtain ⟨rest, rfl⟩ := List.isPrefixOf_iff_prefix.1 h
  rfl

/-- A line for addresses is accepted as such. -/
theorem parseEntry_eq_ip : parseEntry line = .ok (.ip n) ↔ parseIpEntry line = .ok (some n) := by
  have hstar : parseIpEntry line = .ok (some n) → ¬ (Str.of "*.").isPrefixOf line = true := by
    intro hip hprefix
    cases h : ipAddress line with
    | some a => exact star_of_ipAddress h (isPrefixOf_star hprefix)
    | none =>
      obtain ⟨-, hparse, -⟩ := (parseIpEntry_eq_some h).1 hip
      exact Network.head?_ne_star hparse (isPrefixOf_star hprefix)
  simp only [parseEntry, bind_eq_ok, refuse_eq_ok]
  constructor
  · rintro ⟨-, -, network, hnetwork, h⟩
    cases network with
    | some m =>
      obtain ⟨⟩ := pure_eq_ok.1 h
      exact hnetwork
    | none =>
      simp only [bind_eq_ok, pure_eq_ok] at h
      obtain ⟨-, -, ⟨⟩⟩ := h
  · exact fun hip => ⟨(), hstar hip, _, hip, rfl⟩

theorem parseEntry_eq_dns {name : Str} : parseEntry line = .ok (.dns name) ↔
    ¬ (Str.of "*.").isPrefixOf line = true ∧ parseIpEntry line = .ok none ∧
      isHostname (dnsValue line) = true ∧ name = Str.lower (dnsValue line) := by
  have hne : isHostname (dnsValue line) = true → dnsValue line ≠ [] := by
    intro hhost hnil
    rw [hnil] at hhost
    exact absurd hhost (by decide)
  simp only [parseEntry, bind_eq_ok, refuse_eq_ok]
  constructor
  · rintro ⟨-, hstar, network, hnetwork, h⟩
    cases network with
    | some m => cases pure_eq_ok.1 h
    | none =>
      simp only [bind_eq_ok, refuse_eq_ok, pure_eq_ok, not_or, Bool.not_eq_false] at h
      obtain ⟨-, ⟨-, hhost⟩, heq⟩ := h
      exact ⟨hstar, hnetwork, hhost, (Subtree.dns.inj heq).symm⟩
  · rintro ⟨hstar, hnetwork, hhost, rfl⟩
    refine ⟨(), hstar, none, hnetwork, ?_⟩
    simp only [bind_eq_ok, refuse_eq_ok, pure_eq_ok, not_or, Bool.not_eq_false]
    exact ⟨(), ⟨hne hhost, hhost⟩, trivial⟩

/-- A host name that does not end in a line feed matches the pattern to its end. -/
theorem isHostname_iff {v : Str} (h : v.getLast? ≠ some 0x0A) :
    isHostname v = true ↔ v.length ≤ maxHostnameLength ∧ isLabels v = true := by
  have hlast : (v.getLast? == some 0x0A) = false := beq_eq_false_iff_ne.2 h
  simp [isHostname, hlast]

/-- A stripped line has no line feed at its end, nor has its host name. -/
theorem getLast?_dnsValue (h : Str.Stripped line) : (dnsValue line).getLast? ≠ some 0x0A := by
  intro hfeed
  have hlast : line.getLast? = some 0x0A := by
    unfold dnsValue at hfeed
    split_ifs at hfeed with hdot
    · obtain ⟨rest, rfl⟩ := List.head?_eq_some_iff.1 hdot
      rw [List.getLast?_cons_of_ne_nil (by rintro rfl; cases hfeed)]
      exact hfeed
    · exact hfeed
  have hspace := h.last 0x0A hlast
  revert hspace
  decide

theorem star_notMem_of_isPlainHost {v : Str} (h : IsPlainHost v) : 0x2A ∉ v := by
  intro hmem
  obtain ⟨p, hp, hpc⟩ := Str.mem_of_splitAt hmem (show 0x2A ≠ 0x2E by decide)
  have hlabel := List.all_eq_true.1 h.2 p hp
  simp only [isLabel, Bool.and_eq_true, List.all_eq_true, Bool.or_eq_true, beq_iff_eq] at hlabel
  have hchar := hlabel.1.1.1 _ hpc
  revert hchar
  decide

theorem isHostname_of_isPlainHost {v : Str} (h : IsPlainHost v) : isHostname v = true := by
  have hprefix : ¬ (Str.of "*.").isPrefixOf v = true := fun hprefix =>
    star_notMem_of_isPlainHost h (List.mem_of_mem_head? (isPrefixOf_star hprefix))
  have hlabels : isLabels v = true := by
    rw [isLabels, if_neg hprefix]
    exact h.2
  simp [isHostname, hlabels, h.1]

/-- The host name of a line is plain, or a wildcard. -/
theorem isPlainHost_of_isHostname {v : Str} (hlast : v.getLast? ≠ some 0x0A) (h : isHostname v = true) :
    IsPlainHost v ∨ (Str.of "*.").isPrefixOf v = true := by
  obtain ⟨hlen, hlabels⟩ := (isHostname_iff hlast).1 h
  by_cases hprefix : (Str.of "*.").isPrefixOf v = true
  · exact .inr hprefix
  · rw [isLabels, if_neg hprefix] at hlabels
    exact .inl ⟨hlen, hlabels⟩

/-- A host name has no slash, so it is not tried as a network. -/
theorem slash_notMem_of_isHostname {v : Str} (h : isHostname v = true) : 0x2F ∉ v := by
  intro hslash
  rcases isHostChar_of_isHostname h _ hslash with hchar | hfeed
  · revert hchar
    decide
  · cases hfeed

theorem isHostname_of_isDottedWildcard (h : IsDottedWildcard line) :
    isHostname (dnsValue line) = true ∧ 0x2A ∈ dnsValue line := by
  obtain ⟨v, rfl, hhost⟩ := h
  exact ⟨hhost, List.mem_cons_self⟩

/-- A line whose host name is one is accepted, as an address or as this name. -/
theorem exists_parseEntry_of_isHostname (hstar : ¬ (Str.of "*.").isPrefixOf line = true)
    (h : isHostname (dnsValue line) = true) : ∃ e, parseEntry line = .ok e := by
  cases haddress : ipAddress line with
  | some a => exact ⟨_, parseEntry_eq_ip.2 (parseIpEntry_address haddress)⟩
  | none =>
    refine ⟨_, parseEntry_eq_dns.2 ⟨hstar, parseIpEntry_eq_none.2 ⟨haddress, fun hslash => ?_⟩, h, rfl⟩⟩
    have hslash' : 0x2F ∈ dnsValue line := by
      unfold dnsValue
      split_ifs with hdot
      · obtain ⟨rest, rfl⟩ := List.head?_eq_some_iff.1 hdot
        simpa using hslash
      · exact hslash
    exact absurd hslash' (slash_notMem_of_isHostname h)

/-- **Which lines are accepted**: those that should be, and wildcards behind a full stop. -/
theorem exists_parseEntry_iff (hstripped : Str.Stripped line) :
    (∃ e, parseEntry line = .ok e) ↔ IsEntry line ∨ IsDottedWildcard line := by
  constructor
  · rintro ⟨e, he⟩
    cases e with
    | ip n =>
      have hip := parseEntry_eq_ip.1 he
      cases h : ipAddress line with
      | some a => exact .inl (.inr (.inl ⟨a, h⟩))
      | none =>
        obtain ⟨hslash, hparse, hmasked⟩ := (parseIpEntry_eq_some h).1 hip
        exact .inl (.inr (.inr ⟨hslash, n, hparse, hmasked⟩))
    | dns name =>
      obtain ⟨hstar, -, hhost, -⟩ := parseEntry_eq_dns.1 he
      have hkind := isPlainHost_of_isHostname (getLast?_dnsValue hstripped) hhost
      unfold dnsValue at hhost hkind
      split_ifs at hhost hkind with hdot
      · obtain ⟨rest, rfl⟩ := List.head?_eq_some_iff.1 hdot
        rcases hkind with hplain | hwild
        · exact .inl (.inl ⟨rest, .inr rfl, hplain⟩)
        · obtain ⟨v, rfl⟩ := List.isPrefixOf_iff_prefix.1 hwild
          exact .inr ⟨v, rfl, hhost⟩
      · exact .inl (.inl ⟨line, .inl rfl, hkind.resolve_right hstar⟩)
  · rintro ((⟨v, rfl | rfl, hplain⟩ | ⟨a, ha⟩ | ⟨hslash, n, hparse, hmasked⟩) | hwild)
    · have hdot : line.head? ≠ some 0x2E := by
        intro hdot
        obtain ⟨rest, rfl⟩ := List.head?_eq_some_iff.1 hdot
        have hnil : [] ∈ Str.splitAt 0x2E (0x2E :: rest) := by simp [Str.splitAt]
        exact absurd (List.all_eq_true.1 hplain.2 _ hnil) (by decide)
      refine exists_parseEntry_of_isHostname (fun hprefix => ?_) ?_
      · exact star_notMem_of_isPlainHost hplain (List.mem_of_mem_head? (isPrefixOf_star hprefix))
      · rw [dnsValue, if_neg hdot]
        exact isHostname_of_isPlainHost hplain
    · exact exists_parseEntry_of_isHostname (fun hprefix => by cases isPrefixOf_star hprefix)
        (isHostname_of_isPlainHost hplain)
    · exact ⟨_, parseEntry_eq_ip.2 (parseIpEntry_address ha)⟩
    · cases h : ipAddress line with
      | some a => exact absurd hslash (slash_notMem_of_ipAddress h)
      | none => exact ⟨_, parseEntry_eq_ip.2 ((parseIpEntry_eq_some h).2 ⟨hslash, hparse, hmasked⟩)⟩
    · refine exists_parseEntry_of_isHostname (fun hprefix => ?_) (isHostname_of_isDottedWildcard hwild).1
      obtain ⟨v, rfl, -⟩ := hwild
      cases isPrefixOf_star hprefix

/-- A wildcard behind a full stop should not be accepted. -/
theorem not_isEntry_of_isDottedWildcard (h : IsDottedWildcard line) : ¬ IsEntry line := by
  obtain ⟨v, rfl, hhost⟩ := h
  have hhead : (Str.of ".*." ++ v).head? = some 0x2E := rfl
  rintro (⟨w, hw | hw, hplain⟩ | ⟨a, ha⟩ | ⟨hslash, -⟩)
  · subst hw
    exact star_notMem_of_isPlainHost hplain (List.mem_cons_of_mem _ List.mem_cons_self)
  · obtain rfl : Str.of "*." ++ v = w := (List.cons.inj hw).2
    exact star_notMem_of_isPlainHost hplain List.mem_cons_self
  · -- Without a `%` the address has no scope, and so no star.
    have hpercent : 0x25 ∉ Str.of ".*." ++ v := by
      intro hmem
      rcases List.mem_cons.1 hmem with hmem | hmem
      · cases hmem
      · rcases isHostChar_of_isHostname hhost _ hmem with hchar | hfeed
        · revert hchar
          decide
        · cases hfeed
    have hdigit := Ip.isSome_of_ipAddress ha (Ip.scope_of_ipAddress ha hpercent)
      (List.mem_cons_of_mem _ List.mem_cons_self) (c := 0x2A) (by decide) (by decide)
    revert hdigit
    decide
  · rcases List.mem_cons.1 hslash with hslash | hslash
    · cases hslash
    · exact slash_notMem_of_isHostname hhost hslash

end entry

/-! ### A field -/

section field

variable {text permitted excluded : Str} {s : TypedConstraints}

theorem stripped_of_mem_entryLines {line : Str} (h : line ∈ entryLines text) : Str.Stripped line := by
  obtain ⟨raw, -, rfl⟩ := List.mem_map.1 (List.mem_of_mem_filter h)
  exact Str.stripped_strip raw

/-- What a field is parsed to. -/
theorem parseSide_eq_ok {dns : List Str} {ip : List Network} : parseSide text = .ok (dns, ip) ↔
    ∃ parsed, (entryLines text).mapM parseEntry = .ok parsed ∧ parsed.length ≤ maxNameConstraints ∧
      dns = parsed.filterMap Subtree.dns? ∧ ip = parsed.filterMap Subtree.ip? := by
  simp only [parseSide, bind_eq_ok, refuse_eq_ok, pure_eq_ok, not_lt, Prod.mk.injEq]
  constructor
  · rintro ⟨parsed, hparsed, -, hlen, rfl, rfl⟩
    exact ⟨parsed, hparsed, hlen, rfl, rfl⟩
  · rintro ⟨parsed, hparsed, hlen, rfl, rfl⟩
    exact ⟨parsed, hparsed, (), hlen, rfl, rfl⟩

theorem exists_parseSide_iff : (∃ side, parseSide text = .ok side) ↔
    (entryLines text).length ≤ maxNameConstraints ∧
      ∀ line ∈ entryLines text, IsEntry line ∨ IsDottedWildcard line := by
  constructor
  · rintro ⟨⟨dns, ip⟩, h⟩
    obtain ⟨parsed, hparsed, hlen, -, -⟩ := parseSide_eq_ok.1 h
    refine ⟨(forall₂_of_mapM_eq_ok hparsed).length_eq ▸ hlen, fun line hline => ?_⟩
    obtain ⟨e, -, he⟩ := (mem_of_mapM_eq_ok hparsed).2 line hline
    exact (exists_parseEntry_iff (stripped_of_mem_entryLines hline)).1 ⟨e, he⟩
  · rintro ⟨hlen, hlines⟩
    obtain ⟨parsed, hparsed⟩ := exists_mapM_eq_ok_iff.2 fun line hline =>
      (exists_parseEntry_iff (stripped_of_mem_entryLines hline)).2 (hlines line hline)
    have hlen' := (forall₂_of_mapM_eq_ok hparsed).length_eq ▸ hlen
    exact ⟨(_, _), parseSide_eq_ok.2 ⟨parsed, hparsed, hlen', rfl, rfl⟩⟩

theorem parseNameConstraints_eq_ok : parseNameConstraints permitted excluded = .ok s ↔
    parseSide permitted = .ok (s.permittedDns, s.permittedIp) ∧
      parseSide excluded = .ok (s.excludedDns, s.excludedIp) := by
  simp only [parseNameConstraints, bind_eq_ok, pure_eq_ok, Prod.exists]
  constructor
  · rintro ⟨_, _, hp, _, _, he, rfl⟩
    exact ⟨hp, he⟩
  · rintro ⟨hp, he⟩
    exact ⟨_, _, hp, _, _, he, rfl⟩

theorem exists_parseNameConstraints_iff : (∃ s, parseNameConstraints permitted excluded = .ok s) ↔
    (∃ side, parseSide permitted = .ok side) ∧ ∃ side, parseSide excluded = .ok side := by
  constructor
  · rintro ⟨s, h⟩
    obtain ⟨hp, he⟩ := parseNameConstraints_eq_ok.1 h
    exact ⟨⟨_, hp⟩, ⟨_, he⟩⟩
  · rintro ⟨⟨⟨_, _⟩, hp⟩, ⟨_, _⟩, he⟩
    exact ⟨⟨_, _, _, _⟩, parseNameConstraints_eq_ok.2 ⟨hp, he⟩⟩

/-- What is parsed of a field comes from its lines. -/
theorem mem_of_parseSide {dns : List Str} {ip : List Network} (h : parseSide text = .ok (dns, ip)) :
    (∀ name ∈ dns, ∃ line ∈ entryLines text, parseEntry line = .ok (.dns name)) ∧
      ∀ n, n ∈ ip ↔ ∃ line ∈ entryLines text, parseEntry line = .ok (.ip n) := by
  obtain ⟨parsed, hparsed, -, rfl, rfl⟩ := parseSide_eq_ok.1 h
  obtain ⟨hback, hforth⟩ := mem_of_mapM_eq_ok hparsed
  refine ⟨fun name hname => ?_, fun n => ⟨fun hn => ?_, ?_⟩⟩
  · obtain ⟨e, he, hdns⟩ := List.mem_filterMap.1 hname
    cases e with
    | dns w =>
      obtain rfl := Option.some.inj hdns
      exact hback _ he
    | ip m => cases hdns
  · obtain ⟨e, he, hip⟩ := List.mem_filterMap.1 hn
    cases e with
    | dns w => cases hip
    | ip m =>
      obtain rfl := Option.some.inj hip
      exact hback _ he
  · rintro ⟨line, hline, hparse⟩
    obtain ⟨e, he, hline'⟩ := hforth line hline
    rw [hparse] at hline'
    obtain rfl := Except.ok.inj hline'
    exact List.mem_filterMap.2 ⟨_, he, rfl⟩

end field

/-! ### Through the certificate -/

section survive

variable {s : TypedConstraints} {cert : Cert}

theorem isEmpty_encoded : s.encoded.isEmpty = s.isEmpty := by
  simp [TypedConstraints.encoded, NameConstraintSpec.isEmpty, TypedConstraints.isEmpty]

/-- The subtrees of a side are its entries. -/
theorem getD_side (dns : List Str) (ip : List IpNetwork) :
    (side dns ip).getD [] = dns.map .dns ++ ip.map .network := by
  unfold side
  cases dns <;> cases ip <;> rfl

theorem dnsSubtrees_side (dns : List Str) (ip : List IpNetwork) :
    dnsSubtrees ((side dns ip).getD []) = dns := by
  rw [getD_side]
  simp [dnsSubtrees, List.filterMap_append, List.filterMap_map]

theorem ipSubtrees_side (dns : List Str) (ip : List IpNetwork) :
    ipSubtrees ((side dns ip).getD []) = ip := by
  rw [getD_side]
  simp [ipSubtrees, List.filterMap_append, List.filterMap_map]

/-- What is read back: the suffixes in lower case, and the networks without scopes. -/
theorem constraintsOf_of_extension (spec : NameConstraintSpec)
    (h : cert.extension? Extensions.nameConstraints =
      .ok ((nameConstraintsExtension spec).map (⟨·, true⟩))) :
    constraintsOf cert = .ok ⟨spec.permittedDns.map Str.lower, spec.permittedIp,
      spec.excludedDns.map Str.lower, spec.excludedIp⟩ := by
  unfold constraintsOf
  rw [h]
  unfold nameConstraintsExtension
  split_ifs with hempty
  · obtain ⟨permittedDns, permittedIp, excludedDns, excludedIp⟩ := spec
    simp only [NameConstraintSpec.isEmpty, Bool.and_eq_true, List.isEmpty_iff] at hempty
    obtain ⟨⟨⟨rfl, rfl⟩, rfl⟩, rfl⟩ := hempty
    rfl
  · simp only [Option.map_some, bind, Except.bind, dnsSubtrees_side, ipSubtrees_side]
    rfl

/-- An issuer that carries an extension. -/
def carrier (nc : Option NameConstraints) : Cert :=
  { importedIssuer none none with
    tbs := { (importedIssuer none none).tbs with
      extensions := { (importedIssuer none none).tbs.extensions with
        nameConstraints := nc.map (⟨·, true⟩) } } }

theorem extension?_carrier (nc : Option NameConstraints) :
    (carrier nc).extension? Extensions.nameConstraints = .ok (nc.map (⟨·, true⟩)) := by
  cases nc <;> rfl

theorem map_scope_eq_iff {ns : List Network} :
    (ns.map Network.network).map (⟨·, none⟩) = ns ↔ ∀ n ∈ ns, n.scope = none := by
  induction ns with
  | nil => simp
  | cons n ns ih =>
    rw [List.map_cons, List.map_cons, List.cons.injEq, ih, List.forall_mem_cons]
    refine and_congr_left fun _ => ?_
    obtain ⟨network, scope⟩ := n
    simp [eq_comm]

/-- Suffixes in lower case without stars and networks without scopes survive. -/
theorem survives_of (hdns : ∀ name ∈ s.permittedDns ++ s.excludedDns, Str.lower name = name ∧ 0x2A ∉ name)
    (hip : ∀ n ∈ s.permittedIp ++ s.excludedIp, n.scope = none) : Survives s := by
  have hextension : s.extension = .ok (nameConstraintsExtension s.encoded) := by
    simp only [TypedConstraints.extension, bind_eq_ok, refuse_eq_ok, pure_eq_ok]
    refine ⟨(), ?_, trivial⟩
    rintro ⟨name, hname, hstar⟩
    exact (hdns name hname).2 hstar
  have hlower : ∀ names : List Str, (∀ name ∈ names, Str.lower name = name) →
      names.map Str.lower = names := fun names h => (List.map_congr_left h).trans (List.map_id names)
  constructor
  · rw [hextension, Except.ok.injEq, nameConstraintsExtension, isEmpty_encoded]
    split_ifs with h <;> simp [h]
  · refine ⟨_, hextension, fun cert hcert => ?_⟩
    rw [constraintsOf_of_extension _ hcert]
    refine congrArg Except.ok ?_
    obtain ⟨permittedDns, permittedIp, excludedDns, excludedIp⟩ := s
    simp only [TypedConstraints.encoded, TypedConstraints.ofRead, TypedConstraints.mk.injEq]
    refine ⟨hlower _ fun name hname => (hdns name (List.mem_append_left _ hname)).1,
      map_scope_eq_iff.2 fun n hn => hip n (List.mem_append_left _ hn),
      hlower _ fun name hname => (hdns name (List.mem_append_right _ hname)).1,
      map_scope_eq_iff.2 fun n hn => hip n (List.mem_append_right _ hn)⟩

/-- What survives has no scopes. -/
theorem scope_of_survives (h : Survives s) : ∀ n ∈ s.permittedIp ++ s.excludedIp, n.scope = none := by
  obtain ⟨nc, hnc, hread⟩ := h.readBack
  have hread := hread (carrier nc) (extension?_carrier nc)
  cases hcarrier : constraintsOf (carrier nc) with
  | error e =>
    rw [hcarrier] at hread
    cases hread
  | ok spec =>
    rw [hcarrier] at hread
    obtain rfl := Except.ok.inj hread
    intro n hn
    simp only [TypedConstraints.ofRead, List.mem_append, List.mem_map] at hn
    rcases hn with ⟨m, -, rfl⟩ | ⟨m, -, rfl⟩ <;> rfl

end survive

/-! ### The two fields -/

section fields

variable {permitted excluded line : Str} {s : TypedConstraints}

@[simp] theorem scope_asNetwork (a : Ip) : a.asNetwork.scope = a.scope := by
  cases a <;> rfl

/-- The network of a line has a scope exactly if the line does. -/
theorem scope_of_parseEntry {n : Network} (h : parseEntry line = .ok (.ip n)) :
    n.scope ≠ none ↔ HasScope line := by
  have hip := parseEntry_eq_ip.1 h
  unfold HasScope
  cases haddress : ipAddress line with
  | some a =>
    rw [parseIpEntry_address haddress] at hip
    obtain rfl := Option.some.inj (Except.ok.inj hip)
    simp [slash_notMem_of_ipAddress haddress]
  | none =>
    obtain ⟨hslash, hparse, -⟩ := (parseIpEntry_eq_some haddress).1 hip
    simp [hslash, hparse]

/-- An accepted line with a scope is one for addresses. -/
theorem exists_ip_of_hasScope {e : Subtree} (h : parseEntry line = .ok e) (hscope : HasScope line) :
    ∃ n, e = .ip n ∧ n.scope ≠ none := by
  cases e with
  | ip n => exact ⟨n, rfl, (scope_of_parseEntry h).2 hscope⟩
  | dns name =>
    obtain ⟨-, hnone, -, -⟩ := parseEntry_eq_dns.1 h
    obtain ⟨haddress, hnetwork⟩ := parseIpEntry_eq_none.1 hnone
    rcases hscope with ⟨a, ha, -⟩ | ⟨hslash, n, hn, -⟩
    · cases haddress.symm.trans ha
    · cases (hnetwork hslash).symm.trans hn

/-- A host name that is accepted is in lower case, and has a star only as a wildcard behind a full stop. -/
theorem dns_of_parseEntry {name : Str} (hstripped : Str.Stripped line) (hwild : ¬ IsDottedWildcard line)
    (h : parseEntry line = .ok (.dns name)) : Str.lower name = name ∧ 0x2A ∉ name := by
  obtain ⟨hstar, -, hhost, rfl⟩ := parseEntry_eq_dns.1 h
  have hplain : IsPlainHost (dnsValue line) := by
    refine (isPlainHost_of_isHostname (getLast?_dnsValue hstripped) hhost).resolve_right fun hprefix => ?_
    unfold dnsValue at hprefix hhost
    split_ifs at hprefix hhost with hdot
    · obtain ⟨rest, rfl⟩ := List.head?_eq_some_iff.1 hdot
      obtain ⟨v, rfl⟩ := List.isPrefixOf_iff_prefix.1 hprefix
      exact hwild ⟨v, rfl, hhost⟩
    · exact hstar hprefix
  have hascii := isAscii_of_isHostname hhost
  refine ⟨Str.lower_lower_of_isAscii hascii, fun hmem => ?_⟩
  rw [Str.lower_of_isAscii hascii] at hmem
  obtain ⟨c, hc, hstar⟩ := List.mem_map.1 hmem
  have hc' : c = 0x2A := by
    unfold Str.asciiLowerChar at hstar
    split_ifs at hstar <;> omega
  exact star_notMem_of_isPlainHost hplain (hc' ▸ hc)

/-- An accepted line for addresses stands for those that are typed. -/
theorem has_iff_isTypedFor {n : Network} (h : parseEntry line = .ok (.ip n)) (hscope : ¬ HasScope line)
    {a : Ip} (ha : a.scope = none) : n.network.Has a ↔ IsTypedFor line a := by
  have hip := parseEntry_eq_ip.1 h
  rw [← contains_eq_true]
  unfold IsTypedFor
  cases haddress : ipAddress line with
  | some b =>
    rw [parseIpEntry_address haddress] at hip
    obtain rfl := Option.some.inj (Except.ok.inj hip)
    have hb : b.scope = none := by
      by_contra hb
      exact hscope (.inl ⟨b, haddress, hb⟩)
    rw [IpNetwork.contains_asNetwork, Ip.packed_of_scope ha, Ip.packed_of_scope hb]
    simp [eq_comm]
  | none =>
    obtain ⟨-, hparse, hmasked⟩ := (parseIpEntry_eq_some haddress).1 hip
    rw [← IpNetwork.covers_iff hmasked]
    simp [hparse]

/-- Fields that are not refused for another reason are accepted. -/
theorem exists_parse_of_not_isRefused (h : ¬ IsRefused permitted excluded) :
    ∃ s, parseNameConstraints permitted excluded = .ok s := by
  have hside : ∀ text ∈ [permitted, excluded], ∃ side, parseSide text = .ok side := by
    intro text htext
    refine exists_parseSide_iff.2 ⟨?_, fun line hline => ?_⟩
    · by_contra hlen
      exact h ⟨text, htext, .inl (not_le.1 hlen)⟩
    · by_contra hnot
      rw [not_or] at hnot
      exact h ⟨text, htext, .inr ⟨line, hline, hnot⟩⟩
  exact exists_parseNameConstraints_iff.2 ⟨hside _ List.mem_cons_self,
    hside _ (List.mem_cons_of_mem _ List.mem_cons_self)⟩

theorem not_parse_of_isRefused (h : IsRefused permitted excluded) :
    ¬ ∃ s, parseNameConstraints permitted excluded = .ok s := by
  intro hparse
  obtain ⟨hp, he⟩ := exists_parseNameConstraints_iff.1 hparse
  obtain ⟨text, htext, hbad⟩ := h
  have hside : ∃ side, parseSide text = .ok side := by
    simp only [List.mem_cons, List.not_mem_nil, or_false] at htext
    rcases htext with rfl | rfl
    · exact hp
    · exact he
  obtain ⟨hlen, hlines⟩ := exists_parseSide_iff.1 hside
  rcases hbad with hbad | ⟨line, hline, hentry, hwild⟩
  · exact absurd hlen (not_le.2 hbad)
  · exact (hlines line hline).elim hentry hwild

theorem not_isField_of_isRefused (h : IsRefused permitted excluded) :
    ¬ (IsField permitted ∧ IsField excluded) := by
  rintro ⟨hp, he⟩
  obtain ⟨text, htext, hbad⟩ := h
  have hfield : IsField text := by
    simp only [List.mem_cons, List.not_mem_nil, or_false] at htext
    rcases htext with rfl | rfl
    · exact hp
    · exact he
  rcases hbad with hbad | ⟨line, hline, hentry, -⟩
  · exact absurd hfield.1 (not_le.2 hbad)
  · exact hentry (hfield.2 line hline)

/-- What the fields are parsed to comes from their lines. -/
theorem mem_of_parseNameConstraints (h : parseNameConstraints permitted excluded = .ok s) :
    (∀ name ∈ s.permittedDns ++ s.excludedDns,
      ∃ line ∈ entryLines permitted ++ entryLines excluded, parseEntry line = .ok (.dns name)) ∧
    ∀ n, n ∈ s.permittedIp ++ s.excludedIp ↔
      ∃ line ∈ entryLines permitted ++ entryLines excluded, parseEntry line = .ok (.ip n) := by
  obtain ⟨hp, he⟩ := parseNameConstraints_eq_ok.1 h
  obtain ⟨hpdns, hpip⟩ := mem_of_parseSide hp
  obtain ⟨hedns, heip⟩ := mem_of_parseSide he
  refine ⟨fun name hname => ?_, fun n => ?_⟩
  · rcases List.mem_append.1 hname with hname | hname
    · obtain ⟨line, hline, hentry⟩ := hpdns name hname
      exact ⟨line, List.mem_append_left _ hline, hentry⟩
    · obtain ⟨line, hline, hentry⟩ := hedns name hname
      exact ⟨line, List.mem_append_right _ hline, hentry⟩
  · simp only [List.mem_append, hpip, heip, or_and_right, exists_or]

theorem stripped_of_mem_append (h : line ∈ entryLines permitted ++ entryLines excluded) :
    Str.Stripped line :=
  (List.mem_append.1 h).elim stripped_of_mem_entryLines stripped_of_mem_entryLines

theorem mem_entryLines_append : line ∈ entryLines permitted ++ entryLines excluded ↔
    ∃ text ∈ [permitted, excluded], line ∈ entryLines text := by
  simp

/-- **Name constraints and the certificate.**  The fields are accepted as they should be, what is accepted
survives the certificate, and lines for addresses stand for those that are typed, if and only if the
fields are refused anyway or no line is a wildcard behind a full stop or has a scope. -/
theorem constraints_survive_iff (permitted excluded : Str) : AsPromised permitted excluded ↔
    IsRefused permitted excluded ∨
      ∀ line ∈ entryLines permitted ++ entryLines excluded, ¬ IsDottedWildcard line ∧ ¬ HasScope line := by
  constructor
  · intro h
    by_cases hrefused : IsRefused permitted excluded
    · exact .inl hrefused
    · obtain ⟨s, hs⟩ := exists_parse_of_not_isRefused hrefused
      obtain ⟨hp, he⟩ := h.accepted.1 ⟨s, hs⟩
      refine .inr fun line hline => ?_
      have hentry : IsEntry line := (List.mem_append.1 hline).elim (hp.2 line) (he.2 line)
      refine ⟨fun hwild => not_isEntry_of_isDottedWildcard hwild hentry, fun hscope => ?_⟩
      -- The network of the line is among the constraints, and these have no scopes.
      obtain ⟨e, hparse⟩ := (exists_parseEntry_iff (stripped_of_mem_append hline)).2 (.inl hentry)
      obtain ⟨n, rfl, hn⟩ := exists_ip_of_hasScope hparse hscope
      have hmem := ((mem_of_parseNameConstraints hs).2 n).2 ⟨line, hline, hparse⟩
      exact hn (scope_of_survives (h.survives s hs) n hmem)
  · rintro (hrefused | hlines)
    · have hno := not_parse_of_isRefused hrefused
      exact ⟨iff_of_false hno (not_isField_of_isRefused hrefused), fun s hs => absurd ⟨s, hs⟩ hno,
        fun s hs => absurd ⟨s, hs⟩ hno⟩
    · have hside : ∀ text ∈ [permitted, excluded], (∃ side, parseSide text = .ok side) ↔ IsField text := by
        intro text htext
        rw [exists_parseSide_iff]
        refine and_congr_right fun _ => forall_congr' fun line => forall_congr' fun hline => ?_
        exact or_iff_left (hlines line (mem_entryLines_append.2 ⟨text, htext, hline⟩)).1
      refine ⟨?_, fun s hs => ?_, fun s hs line hline n hn a ha =>
        has_iff_isTypedFor hn (hlines line hline).2 ha⟩
      · rw [exists_parseNameConstraints_iff, hside _ List.mem_cons_self,
          hside _ (List.mem_cons_of_mem _ List.mem_cons_self)]
      · obtain ⟨hdns, hip⟩ := mem_of_parseNameConstraints hs
        refine survives_of (fun name hname => ?_) fun n hn => ?_
        · obtain ⟨line, hline, hentry⟩ := hdns name hname
          exact dns_of_parseEntry (stripped_of_mem_append hline) (hlines line hline).1 hentry
        · obtain ⟨line, hline, hentry⟩ := (hip n).1 hn
          by_contra hscope
          exact (hlines line hline).2 ((scope_of_parseEntry hentry).1 hscope)

/-- A wildcard behind a full stop is accepted, and no extension can be made of it; an address with a scope
loses the scope. -/
theorem constraints_not_promised :
    (parseNameConstraints (Str.of ".*.example.com") [] = .ok { permittedDns := [Str.of "*.example.com"] } ∧
      ¬ AsPromised (Str.of ".*.example.com") []) ∧
    ∃ s, parseNameConstraints [] (Str.of "fe80::1%eth0") = .ok s ∧ ¬ Survives s := by
  have hwild : parseNameConstraints (Str.of ".*.example.com") [] =
      .ok { permittedDns := [Str.of "*.example.com"] } := by
    decide +kernel
  have hscope : parseNameConstraints [] (Str.of "fe80::1%eth0") =
      .ok { excludedIp := [⟨.v6 338288524927261089654018896841347694593 128, some (Str.of "eth0")⟩] } := by
    decide +kernel
  refine ⟨⟨hwild, fun h => ?_⟩, _, hscope, fun h => ?_⟩
  · obtain ⟨⟨-, hentries⟩, -⟩ := h.accepted.1 ⟨_, hwild⟩
    refine not_isEntry_of_isDottedWildcard ?_ (hentries (Str.of ".*.example.com") (by decide))
    exact ⟨Str.of "example.com", rfl, by decide⟩
  · have hnone := scope_of_survives h _ (List.mem_singleton_self _)
    cases hnone

end fields

end Leaf

end Cabin
