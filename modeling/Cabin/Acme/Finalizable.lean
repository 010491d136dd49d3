import Cabin.Acme.Spellings
import Cabin.Ca.Inputs
import Mathlib.Data.List.Perm.Subperm

/-!
# Orders that can be finalized

An order is accepted under one policy (`acme/service.py`, `parse_identifiers`), its request is compared
with it under another (`acme/csr.py`, `check_identifiers`), and the names and the subject of the
certificate pass a third (`ca/leaf.py`, `sign_csr`).  They should accept the same names.  An address with
a scope passes the first only: a request has its bytes, which hold no scope.

* `Finalizable`: a request can be made for the order, and its identifiers are in their final form;
* `order_finalizable_iff`: an accepted order can be finalized exactly if no address is asked for with a
  scope.
-/

namespace Cabin

namespace Acme

open X509 CertsUi

/-! ### What is expected -/

/-- The names of an order in a request, where an address is its bytes. -/
def orderNames (ids : List OrderIdentifier) : List GeneralName :=
  ids.filterMap fun i => i.generalName?.map GeneralName.encoded

/-- A request for the names of an order, without a subject. -/
structure RequestFor (ids : List OrderIdentifier) (csr : Leaf.Csr) : Prop where
  subject : csr.subject = []
  names : csr.subjectAlternativeName = some (orderNames ids)

/-- The names of the order and the subject chosen for it pass the policy: an issuer without constraints
that has not expired raises no `IssueError`, and one that can sign returns a certificate. -/
structure PassesPolicy (ids : List OrderIdentifier) (csr : Leaf.Csr) : Prop where
  refused : ∀ (E : Crypto) (d : Draw) (issuerCert : Cert) (issuerKey : PrivateKey)
    (profile : Leaf.Profile) (days : ℤ) (crlUrl caIssuersUrl : Option Str),
    issuerCert.extension? Extensions.nameConstraints = .ok none → d.now < issuerCert.notValidAfter →
    Leaf.validateDays days = .ok () →
    Raises (isIssueError · = false) (Leaf.signCsr E d issuerCert issuerKey (.ok csr) profile days
      (Pc.csrOptions ids) crlUrl caIssuersUrl)
  certified : ∀ (E : Crypto) (d : Draw) (issuerCert : Cert) (issuerKey : PrivateKey)
    (profile : Leaf.Profile) (days : ℤ) (crlUrl caIssuersUrl : Option Str),
    issuerCert.extension? Extensions.nameConstraints = .ok none → Leaf.Usable d issuerCert →
    Leaf.validateDays days = .ok () →
    ∃ issued, Leaf.signCsr E d issuerCert issuerKey (.ok csr) profile days (Pc.csrOptions ids) crlUrl
      caIssuersUrl = .ok issued

/-- An identifier as a client sends it. -/
def Identifier.payload (i : Identifier) : Json :=
  .obj [(Str.of "type", .str (match i.type with
      | .dns => Str.of "dns"
      | .ip => Str.of "ip")),
    (Str.of "value", .str i.value)]

/-- What accepting an order promises. -/
structure Finalizable (is : List Identifier) : Prop where
  /-- There is a request that is accepted and can be certified. -/
  request : ∃ csr, RequestFor (is.map Identifier.asJson) csr ∧
    checkIdentifiers csr (is.map Identifier.asJson) = .ok () ∧
    PassesPolicy (is.map Identifier.asJson) csr
  /-- Asked for as they are stored, the identifiers are the same. -/
  again : parseIdentifiers (some (.arr (is.map Identifier.payload))) = .ok is
  /-- No two have the same type and value. -/
  distinct : (is.map Identifier.asJson).Nodup

/-- The entries of the `identifiers` member. -/
def identifierEntries : Option Json → List Json
  | some (.arr entries) => entries
  | _ => []

/-- The entry asks for an address with a scope. -/
def AsksForScope (entry : Json) : Prop :=
  (entry.get? "type").bind Json.str? = some (Str.of "ip") ∧
    ∃ value, (entry.get? "value").bind Json.str? = some value ∧ 0x25 ∈ value

/-! ### The entries of an order -/

section entries

variable {raw : Option Json} {is : List Identifier} {i : Identifier}

theorem parseIdentifiers_eq_ok : parseIdentifiers raw = .ok is ↔
    identifierEntries raw ≠ [] ∧ (identifierEntries raw).length ≤ maxIdentifiers ∧
      ∃ parsed, (identifierEntries raw).mapM parseIdentifier = .ok parsed ∧ is = Str.unique parsed := by
  unfold parseIdentifiers identifierEntries
  split
  · simp only [bind_eq_ok, refuse_eq_ok, pure_eq_ok, not_lt]
    constructor
    · rintro ⟨-, hne, -, hlen, parsed, hparsed, rfl⟩
      exact ⟨hne, hlen, parsed, hparsed, rfl⟩
    · rintro ⟨hne, hlen, parsed, hparsed, rfl⟩
      exact ⟨(), hne, (), hlen, parsed, hparsed, rfl⟩
  · simp

theorem length_unique_le {α : Type} [DecidableEq α] (xs : List α) : (Str.unique xs).length ≤ xs.length :=
  (List.subperm_of_subset (Str.nodup_unique xs) fun _ hx => Str.mem_unique.1 hx).length_le

/-- An accepted order has no more identifiers than a certificate has names. -/
theorem length_le_of_parseIdentifiers (h : parseIdentifiers raw = .ok is) :
    is.length ≤ maxIdentifiers := by
  obtain ⟨-, hlen, parsed, hparsed, rfl⟩ := parseIdentifiers_eq_ok.1 h
  have hparsedLen := (forall₂_of_mapM_eq_ok hparsed).length_eq
  exact (length_unique_le parsed).trans (hparsedLen ▸ hlen)

/-- An address of an order is read from an entry for it. -/
theorem exists_entry_of_ip (h : parseIdentifiers raw = .ok is) (hi : i ∈ is) (htype : i.type = .ip) :
    ∃ entry ∈ identifierEntries raw, (entry.get? "type").bind Json.str? = some (Str.of "ip") ∧
      ∃ value a, (entry.get? "value").bind Json.str? = some value ∧ ipAddress value = some a ∧
        i.value = a.toStr := by
  obtain ⟨-, -, parsed, hparsed, rfl⟩ := parseIdentifiers_eq_ok.1 h
  obtain ⟨entry, hentry, hparse⟩ := (mem_of_mapM_eq_ok hparsed).1 i (Str.mem_unique.1 hi)
  refine ⟨entry, hentry, ?_⟩
  unfold parseIdentifier at hparse
  split at hparse
  · split at hparse
    · cases hparse
    · rename_i value hvalue
      split at hparse
      · rename_i kind hkind
        split_ifs at hparse with hdns hip
        · cases (isHostname_of_dnsIdentifier hparse).1.symm.trans htype
        · obtain ⟨a, ha, rfl⟩ := ipIdentifier_eq_ok.1 hparse
          exact ⟨by rw [hkind, hip], value, a, hvalue, ha, rfl⟩
      · cases hparse
  · cases hparse

/-- An entry for an address gives an address of the order. -/
theorem exists_ip_of_entry (h : parseIdentifiers raw = .ok is) {entry : Json} {value : Str}
    (hentry : entry ∈ identifierEntries raw)
    (htype : (entry.get? "type").bind Json.str? = some (Str.of "ip"))
    (hvalue : (entry.get? "value").bind Json.str? = some value) :
    ∃ i ∈ is, i.type = .ip ∧ ∃ a, ipAddress value = some a ∧ i.value = a.toStr := by
  obtain ⟨-, -, parsed, hparsed, rfl⟩ := parseIdentifiers_eq_ok.1 h
  obtain ⟨i, hi, hparse⟩ := (mem_of_mapM_eq_ok hparsed).2 entry hentry
  refine ⟨i, Str.mem_unique.2 hi, ?_⟩
  unfold parseIdentifier at hparse
  split at hparse
  · simp only [hvalue, htype] at hparse
    have hdns : Str.of "ip" ≠ Str.of "dns" := by decide
    simp only [hdns, if_false, if_true] at hparse
    obtain ⟨a, ha, rfl⟩ := ipIdentifier_eq_ok.1 hparse
    exact ⟨rfl, a, ha, rfl⟩
  · cases hparse

/-- No address is asked for with a scope if and only if none is stored with one. -/
theorem unscoped_iff (h : parseIdentifiers raw = .ok is) : Unscoped (is.map Identifier.asJson) ↔
    ∀ entry ∈ identifierEntries raw, ¬ AsksForScope entry := by
  constructor
  · rintro hids entry hentry ⟨htype, value, hvalue, hpercent⟩
    obtain ⟨i, hi, hip, a, ha, htext⟩ := exists_ip_of_entry h hentry htype hvalue
    obtain ⟨b, hb, htext'⟩ := hids _ (List.mem_map_of_mem hi) hip
    have hscope : a.scope = none := Ip.scope_of_percent_notMem
      ((htext.symm.trans htext') ▸ Ip.percent_notMem_toStr hb)
    exact Ip.percent_notMem_of_scope ha hscope hpercent
  · intro hentries j hj htype
    obtain ⟨i, hi, rfl⟩ := List.mem_map.1 hj
    obtain ⟨entry, hentry, hkind, value, a, hvalue, ha, htext⟩ := exists_entry_of_ip h hi htype
    exact ⟨a, Ip.scope_of_ipAddress ha fun hpercent => hentries entry hentry ⟨hkind, value, hvalue, hpercent⟩,
      htext⟩

end entries

/-! ### Identifiers again -/

theorem dnsIdentifier_value {raw : Str} {i : Identifier} (h : dnsIdentifier raw = .ok i) :
    dnsIdentifier i.value = .ok i := by
  obtain ⟨htype, hhost⟩ := isHostname_of_dnsIdentifier h
  have hspace := (dnsIdentifier_wellFormed h).dns htype
  have hlower : Str.lower i.value = i.value := (stored_of_dnsIdentifier h).lower htype
  simp only [dnsIdentifier, bind_eq_ok, refuse_eq_ok, pure_eq_ok] at h ⊢
  obtain ⟨-, -, -, hip, normalized, hnormalized, -, heq, rfl⟩ := h
  refine ⟨(), ?_, (), ?_, normalized, ?_, (), ?_, ?_⟩
  · rintro (hnil | hany)
    · rw [hnil] at hhost
      exact absurd hhost (by decide)
    · obtain ⟨c, hc, hcs⟩ := List.any_eq_true.1 hany
      rw [hspace c hc] at hcs
      cases hcs
  · rw [hlower]
    exact hip
  · rw [hlower]
    exact hnormalized
  · rw [hlower]
    exact heq
  · rw [hlower]

theorem ipIdentifier_value {value : Str} {i : Identifier} (h : ipIdentifier value = .ok i)
    (hscope : 0x25 ∉ i.value) : ipIdentifier i.value = .ok i := by
  obtain ⟨a, -, rfl⟩ := ipIdentifier_eq_ok.1 h
  exact ipIdentifier_eq_ok.2 ⟨a, Ip.ipAddress_toStr (Ip.scope_of_percent_notMem hscope), rfl⟩

theorem parseIdentifier_payload {raw : Option Json} {is : List Identifier} {i : Identifier}
    (h : parseIdentifiers raw = .ok is) (hids : Unscoped (is.map Identifier.asJson)) (hi : i ∈ is) :
    parseIdentifier i.payload = .ok i := by
  rcases (parseIdentifiers_spec h).2 i hi with ⟨raw, hraw⟩ | ⟨value, hvalue⟩
  · unfold Identifier.payload
    rw [(isHostname_of_dnsIdentifier hraw).1]
    exact dnsIdentifier_value hraw
  · have htype : i.type = .ip := by
      obtain ⟨a, -, rfl⟩ := ipIdentifier_eq_ok.1 hvalue
      rfl
    obtain ⟨a, ha, htext⟩ := hids _ (List.mem_map_of_mem hi) htype
    have hpercent : 0x25 ∉ i.value := by
      rw [show i.value = a.toStr from htext]
      exact Ip.percent_notMem_toStr ha
    unfold Identifier.payload
    rw [htype]
    exact ipIdentifier_value hvalue hpercent

/-! ### The request -/

section request

variable {ids : List OrderIdentifier} {i : OrderIdentifier} {v : Str}

theorem mem_orderNames {g : GeneralName} :
    g ∈ orderNames ids ↔ ∃ i ∈ ids, i.generalName?.map GeneralName.encoded = some g :=
  List.mem_filterMap

theorem dns_mem_orderNames : .dns v ∈ orderNames ids ↔ ⟨.dns, v⟩ ∈ ids := by
  rw [mem_orderNames]
  constructor
  · rintro ⟨⟨type, value⟩, hi, hname⟩
    cases type with
    | dns =>
      cases hname
      exact hi
    | ip =>
      simp only [OrderIdentifier.generalName?] at hname
      cases haddress : ipAddress value <;> rw [haddress] at hname <;> cases hname
  · exact fun hi => ⟨_, hi, rfl⟩

theorem ip_mem_orderNames (hids : Unscoped ids) (a : Ip) :
    .ip a ∈ orderNames ids ↔ ⟨.ip, a.toStr⟩ ∈ ids := by
  have hgeneral : ∀ b : Ip, b.scope = none →
      (OrderIdentifier.generalName? ⟨.ip, b.toStr⟩).map GeneralName.encoded = some (.ip b) := by
    intro b hb
    simp [OrderIdentifier.generalName?, Ip.ipAddress_toStr hb, GeneralName.encoded, Ip.packed_of_scope hb]
  rw [mem_orderNames]
  constructor
  · rintro ⟨⟨type, value⟩, hi, hname⟩
    cases type with
    | dns => cases hname
    | ip =>
      obtain ⟨b, hb, rfl⟩ := hids _ hi rfl
      rw [hgeneral b hb] at hname
      cases hname
      exact hi
  · intro hi
    obtain ⟨b, hb, hvalue⟩ := hids _ hi rfl
    have ha : a.scope = none := by
      refine Ip.scope_of_percent_notMem ?_
      rw [show a.toStr = b.toStr from hvalue]
      exact Ip.percent_notMem_toStr hb
    exact ⟨_, hi, hgeneral a ha⟩

/-- The request for an order. -/
def requestOf (ids : List OrderIdentifier) : Leaf.Csr where
  subject := []
  publicKey := ⟨[4, 9]⟩
  subjectAlternativeName := some (orderNames ids)
  decoded g hg := by
    obtain ⟨i, -, hname⟩ := mem_orderNames.1 hg
    obtain ⟨g', -, rfl⟩ := Option.map_eq_some_iff.1 hname
    cases g' <;> simp [GeneralName.encoded]

/-- A request for the names of an order is accepted. -/
theorem checkIdentifiers_requestOf (hstored : ∀ i ∈ ids, i.Stored) (hids : Unscoped ids) :
    checkIdentifiers (requestOf ids) ids = .ok () := by
  refine checkIdentifiers_of_names rfl hstored ⟨fun g hg => ?_, fun v => ?_, ip_mem_orderNames hids, nofun⟩
  · obtain ⟨⟨type, value⟩, -, hname⟩ := mem_orderNames.1 hg
    cases type with
    | dns =>
      cases hname
      exact .inl ⟨_, rfl⟩
    | ip =>
      simp only [OrderIdentifier.generalName?] at hname
      cases haddress : ipAddress value with
      | none => simp [haddress] at hname
      | some a =>
        rw [haddress] at hname
        cases hname
        exact .inr ⟨_, rfl⟩
  · -- A stored host name is in lower case, and so is its own reading.
    have hread : ∀ w, ⟨.dns, w⟩ ∈ ids → Str.kelvinLower w = w := by
      intro w hw
      obtain ⟨hascii, -, -⟩ := (hstored _ hw).dns rfl
      exact (Str.lower_eq_iff hascii).1 ((hstored _ hw).lower rfl)
    constructor
    · rintro ⟨w, hw, rfl⟩
      have hmem := dns_mem_orderNames.1 hw
      rw [hread w hmem]
      exact hmem
    · intro hv
      exact ⟨v, dns_mem_orderNames.2 hv, hread v hv⟩

end request

/-! ### The policy on its names -/

/-- The form of name of an identifier. -/
def IdentifierType.sanKind : IdentifierType → Leaf.SanKind
  | .dns => .dns
  | .ip => .ip

/-- What the policy asks of an identifier: its value is accepted for its form and can be printed. -/
structure OrderIdentifier.Certifiable (i : OrderIdentifier) : Prop where
  accepts : i.type.sanKind.Accepts i.value
  printable : ∀ c ∈ i.value, 0x20 < c ∧ c < 0x7F

section policy

variable {raw : Option Json} {is : List Identifier} {ids : List OrderIdentifier} {i : OrderIdentifier}

theorem san_eq (i : OrderIdentifier) : i.san = Leaf.canonical i.type.sanKind i.value := by
  obtain ⟨type, value⟩ := i
  cases type <;> rfl

/-- The identifiers of an accepted order pass the policy, if none has a scope. -/
theorem certifiable_of_parseIdentifiers (h : parseIdentifiers raw = .ok is)
    (hids : Unscoped (is.map Identifier.asJson)) : ∀ i ∈ is.map Identifier.asJson, i.Certifiable := by
  intro j hj
  obtain ⟨i, hi, rfl⟩ := List.mem_map.1 hj
  rcases (parseIdentifiers_spec h).2 i hi with ⟨raw, hraw⟩ | ⟨value, hvalue⟩
  · obtain ⟨htype, hhost⟩ := isHostname_of_dnsIdentifier hraw
    have hspace := (dnsIdentifier_wellFormed hraw).dns htype
    refine ⟨?_, fun c hc => ?_⟩
    · rw [show i.asJson.type = .dns from htype]
      exact hhost
    · rcases Leaf.isHostChar_of_isHostname hhost c hc with hchar | rfl
      · exact Leaf.range_of_isHostChar hchar
      · cases hspace _ hc
  · have htype : i.type = .ip := by
      obtain ⟨a, -, rfl⟩ := ipIdentifier_eq_ok.1 hvalue
      rfl
    obtain ⟨a, ha, htext⟩ := hids _ hj htype
    refine ⟨?_, fun c hc => Ip.range_of_isAddressChar (Ip.isAddressChar_toStr ha c (htext ▸ hc))⟩
    rw [show i.asJson.type = .ip from htype, htext]
    simp [IdentifierType.sanKind, Leaf.SanKind.Accepts, Leaf.isIp, Ip.ipAddress_toStr ha]

theorem OrderIdentifier.Certifiable.stripped (h : i.Certifiable) : Str.Stripped i.value :=
  Str.stripped_of_isSpace fun c hc => Str.isSpace_of_range (h.printable c hc)

theorem OrderIdentifier.Certifiable.ne_nil (h : i.Certifiable) : i.value ≠ [] := by
  obtain ⟨type, value⟩ := i
  rintro rfl
  cases type with
  | dns => exact absurd h.accepts (by decide)
  | ip => exact absurd h.accepts (by decide)

theorem normalizeSan_san (h : i.Certifiable) : Leaf.normalizeSan i.san = .ok i.san := by
  rw [san_eq]
  exact Leaf.normalizeSan_canonical h.stripped h.ne_nil h.accepts

/-- A name that fits is a common name. -/
theorem validateCn_value (h : i.Certifiable) (hlen : i.value.length ≤ Leaf.maxCnLength) :
    Leaf.validateCn i.value = .ok i.value := by
  refine Leaf.validateCn_eq_ok.2 ⟨(Str.strip_of_stripped h.stripped).symm, h.ne_nil, hlen, fun c hc hcontrol => ?_⟩
  have hrange := h.printable c hc
  omega

/-- The entries of the request are those of the order, and pass the policy too. -/
theorem exists_csrSans (hids : ∀ i ∈ ids, i.Certifiable) (hunscoped : Unscoped ids) :
    ∃ fromCsr, Leaf.csrSans (requestOf ids) = .ok fromCsr := by
  have hentries : ∀ san ∈ (requestOf ids).entries, Leaf.normalizeSan san = .ok san := by
    intro san hsan
    obtain ⟨g, hg, hentry⟩ := List.mem_filterMap.1 (Str.mem_unique.1 hsan)
    obtain ⟨⟨type, value⟩, hi, hname⟩ := mem_orderNames.1 hg
    cases type with
    | dns =>
      cases hname
      cases hentry
      exact normalizeSan_san (hids _ hi)
    | ip =>
      obtain ⟨a, ha, rfl⟩ := hunscoped _ hi rfl
      obtain rfl : .ip a = g := by
        simpa [OrderIdentifier.generalName?, Ip.ipAddress_toStr ha, GeneralName.encoded,
          Ip.packed_of_scope ha] using hname
      obtain rfl : OrderIdentifier.san ⟨.ip, a.toStr⟩ = san := Option.some.inj hentry
      exact normalizeSan_san (hids _ hi)
  exact ⟨_, (Leaf.csrSans_eq ⟨rfl, rfl⟩).trans (mapM_eq_ok_self hentries)⟩

theorem resolveSans_of_ne_nil {explicit fromCsr : List Str} {cn : Option Str} (hne : explicit ≠ [])
    (hlen : explicit.length ≤ Leaf.maxSans) :
    Leaf.resolveSans explicit fromCsr cn = .ok (Str.unique explicit) := by
  simp only [Leaf.resolveSans, Leaf.chooseSans, bind_eq_ok, refuse_eq_ok, pure_eq_ok, not_lt, if_pos hne]
  exact ⟨explicit, rfl, (), (length_unique_le explicit).trans hlen, rfl⟩

variable {E : Crypto} {d : Draw} {issuerCert : Cert} {issuerKey : PrivateKey} {profile : Leaf.Profile}
  {days : ℤ} {crlUrl caIssuersUrl : Option Str}

/-- Signing the request comes down to assembling a leaf for the names of the order. -/
theorem signCsr_requestOf (hids : ∀ i ∈ ids, i.Certifiable) (hunscoped : Unscoped ids) (hne : ids ≠ [])
    (hlen : ids.length ≤ Leaf.maxSans) (hdays : Leaf.validateDays days = .ok ()) :
    Leaf.signCsr E d issuerCert issuerKey (.ok (requestOf ids)) profile days (Pc.csrOptions ids) crlUrl
        caIssuersUrl =
      Leaf.buildLeaf E d issuerCert issuerKey (requestOf ids).publicKey (Pc.subjectCn ids)
        (Str.unique (ids.map OrderIdentifier.san)) profile days crlUrl caIssuersUrl := by
  have hsubject : Leaf.csrSubject (requestOf ids) (Pc.subjectCn ids) true = .ok (Pc.subjectCn ids) := by
    unfold Leaf.csrSubject
    rw [show ((requestOf ids).subject.attributesForOid commonNameOid).head? = none from rfl]
    simp only [Option.map_none]
    cases hcn : Pc.subjectCn ids with
    | none => rfl
    | some cn =>
      obtain ⟨i, hfind, rfl⟩ := Option.map_eq_some_iff.1 hcn
      have hfits : i.value.length ≤ Leaf.maxCnLength := by simpa using List.find?_some hfind
      simp only [validateCn_value (hids i (List.mem_of_find?_eq_some hfind)) hfits]
      rfl
  have hexplicit : (ids.map OrderIdentifier.san).mapM Leaf.normalizeSan =
      .ok (ids.map OrderIdentifier.san) := by
    refine mapM_eq_ok_self fun san hsan => ?_
    obtain ⟨i, hi, rfl⟩ := List.mem_map.1 hsan
    exact normalizeSan_san (hids i hi)
  obtain ⟨fromCsr, hfromCsr⟩ := exists_csrSans hids hunscoped
  have hresolved := @resolveSans_of_ne_nil (ids.map OrderIdentifier.san) fromCsr (Pc.subjectCn ids)
    (by simpa using hne) (by simpa using hlen)
  rw [Leaf.signCsr_eq ⟨rfl, rfl⟩]
  simp only [Pc.csrOptions, Leaf.CsrOptions.override, Option.getD_some, hdays, hsubject, hexplicit, hfromCsr,
    hresolved, bind, Except.bind]

/-- The entries of the certificate are names it can hold. -/
theorem isCanonical_of_san (hids : ∀ i ∈ ids, i.Certifiable) :
    ∀ san ∈ Str.unique (ids.map OrderIdentifier.san), Leaf.IsCanonical san := by
  intro san hsan
  obtain ⟨i, hi, rfl⟩ := List.mem_map.1 (Str.mem_unique.1 hsan)
  exact ⟨i.type.sanKind, i.value, san_eq i, (hids i hi).accepts⟩

theorem exists_leafSubject (hids : ∀ i ∈ ids, i.Certifiable) :
    ∃ subject, Leaf.leafSubject (Pc.subjectCn ids) = .ok subject := by
  cases hcn : Pc.subjectCn ids with
  | none => exact ⟨[], rfl⟩
  | some cn =>
    obtain ⟨i, hfind, rfl⟩ := Option.map_eq_some_iff.1 hcn
    have hi := hids i (List.mem_of_find?_eq_some hfind)
    have hfits : i.value.length ≤ Leaf.maxCnLength := by simpa using List.find?_some hfind
    have hascii : i.value.isAscii = true := List.all_eq_true.2 fun c hc =>
      decide_eq_true (lt_trans (hi.printable c hc).2 (by decide))
    exact (Leaf.leafSubject_eq_ok hi.ne_nil).2 ⟨_, Str.utf8Length?_of_isAscii hascii, hfits⟩

theorem raises_buildLeaf_of_unexpired {pk : PublicKey} {cn : Option Str} {sans : List Str}
    (hfree : issuerCert.extension? Extensions.nameConstraints = .ok none)
    (hunexpired : d.now < issuerCert.notValidAfter) (hdays : Leaf.validateDays days = .ok ())
    (hsans : ∀ san ∈ sans, Leaf.IsCanonical san) :
    Raises (isIssueError · = false)
      (Leaf.buildLeaf E d issuerCert issuerKey pk cn sans profile days crlUrl caIssuersUrl) := by
  have hmin : 1 ≤ days := by
    have hrange : 1 ≤ days ∧ days ≤ 3650 := by
      simpa [Leaf.validateDays, Leaf.minDays, Leaf.maxDays] using hdays
    exact hrange.1
  have hlibrary : ∀ e : Failure, e.kind = .value ∨ e.kind = .signing → isIssueError e = false := by
    rintro e (he | he) <;> simp [isIssueError, he]
  have hvalue : ∀ e : Failure, e.kind = .value → isIssueError e = false := fun e he => hlibrary e (.inl he)
  unfold Leaf.buildLeaf
  refine raises_bind (raises_bind ?_ fun requested hrequested => ?_) fun clamped _ =>
    raises_bind ?_ fun _ _ => raises_bind (raises_mono hvalue Leaf.raises_leafSubject) fun subject _ =>
    raises_bind (raises_mono hvalue Leaf.raises_authorityKeyIdentifier) fun aki _ =>
    raises_bind (raises_mapM fun san hsan => raises_mono hvalue (Leaf.raises_generalName (hsans san hsan)))
      fun names _ => raises_bind (raises_mono hlibrary Leaf.raises_build) fun cert _ => raises_pure
  · exact raises_bind (raises_refuse rfl) fun _ _ => raises_pure
  · -- The end asked for is after now, and so is the issuer's.
    obtain ⟨-, rfl⟩ := Leaf.addDays_eq_ok.1 hrequested
    refine raises_bind (raises_refuse_iff.2 fun hexpired => absurd hexpired (not_le.2 ?_)) fun _ _ => raises_pure
    refine lt_min ?_ hunexpired
    unfold Instant.days Instant.ofSeconds
    omega
  · rw [Leaf.checkNameConstraints, hfree]
    exact raises_ok

theorem exists_buildLeaf {pk : PublicKey} {cn : Option Str} {sans : List Str}
    (hfree : issuerCert.extension? Extensions.nameConstraints = .ok none) (hu : Leaf.Usable d issuerCert)
    (hdays : Leaf.validateDays days = .ok ()) (hcn : ∃ subject, Leaf.leafSubject cn = .ok subject)
    (hnames : ∃ names, sans.mapM (Leaf.generalName E) = .ok names) :
    ∃ issued,
      Leaf.buildLeaf E d issuerCert issuerKey pk cn sans profile days crlUrl caIssuersUrl = .ok issued := by
  obtain ⟨notAfter, capped, hclamp, hlater⟩ := Leaf.clampValidity_of_usable hu hdays
  obtain ⟨subject, hsubject⟩ := hcn
  obtain ⟨aki, haki⟩ := Leaf.exists_authorityKeyIdentifier E issuerKey hu.parses
  obtain ⟨names, hnames⟩ := hnames
  obtain ⟨cert, hcert⟩ := Leaf.build_of_usable E issuerKey issuerCert.subject subject pk
    (Leaf.leafExtensions E pk cn profile aki names crlUrl caIssuersUrl) hu hlater
  have hchecked : Leaf.checkNameConstraints issuerCert cn sans = .ok () := by
    rw [Leaf.checkNameConstraints, hfree]
    rfl
  simp only [Leaf.buildLeaf, bind_eq_ok]
  exact ⟨_, _, hclamp, (), hchecked, subject, hsubject, aki, haki, names, hnames, cert, hcert, rfl⟩

theorem passesPolicy_requestOf (hids : ∀ i ∈ ids, i.Certifiable) (hunscoped : Unscoped ids) (hne : ids ≠ [])
    (hlen : ids.length ≤ Leaf.maxSans) : PassesPolicy ids (requestOf ids) where
  refused E d issuerCert issuerKey profile days crlUrl caIssuersUrl hfree hunexpired hdays := by
    rw [signCsr_requestOf hids hunscoped hne hlen hdays]
    exact raises_buildLeaf_of_unexpired hfree hunexpired hdays (isCanonical_of_san hids)
  certified E d issuerCert issuerKey profile days crlUrl caIssuersUrl hfree hu hdays := by
    rw [signCsr_requestOf hids hunscoped hne hlen hdays]
    refine exists_buildLeaf hfree hu hdays (exists_leafSubject hids) ?_
    refine (Leaf.mapM_generalName_eq_ok (isCanonical_of_san hids)).2 fun value hvalue => ?_
    obtain ⟨i, -, hsan⟩ := List.mem_map.1 (Str.mem_unique.1 hvalue)
    rw [san_eq] at hsan
    obtain ⟨hkind, -⟩ := Leaf.canonical_injective hsan
    cases htype : i.type <;> rw [htype] at hkind <;> cases hkind

end policy

/-! ### Accepted orders -/

section orders

variable {raw : Option Json} {is : List Identifier}

/-- The type and the value of an identifier determine the rest. -/
theorem nodup_asJson (h : parseIdentifiers raw = .ok is) : (is.map Identifier.asJson).Nodup := by
  obtain ⟨-, hwf⟩ := parseIdentifiers_wellFormed h
  obtain ⟨-, -, parsed, -, rfl⟩ := parseIdentifiers_eq_ok.1 h
  refine List.Nodup.map_on (fun i hi j hj hij => ?_) (Str.nodup_unique parsed)
  have hwildcard : i.wildcard = j.wildcard := by rw [(hwf i hi).wildcard, (hwf j hj).wildcard, hij]
  have hbase : i.baseValue = j.baseValue := by rw [(hwf i hi).baseValue, (hwf j hj).baseValue, hij]
  obtain ⟨type, value, base, wildcard⟩ := i
  obtain ⟨type', value', base', wildcard'⟩ := j
  obtain ⟨rfl, rfl⟩ := OrderIdentifier.mk.inj hij
  obtain rfl : base = base' := hbase
  obtain rfl : wildcard = wildcard' := hwildcard
  rfl

theorem parseIdentifiers_payload (h : parseIdentifiers raw = .ok is)
    (hids : Unscoped (is.map Identifier.asJson)) :
    parseIdentifiers (some (.arr (is.map Identifier.payload))) = .ok is := by
  obtain ⟨hne, -⟩ := parseIdentifiers_spec h
  refine parseIdentifiers_eq_ok.2 ⟨by simpa [identifierEntries] using hne, ?_, is, ?_, ?_⟩
  · simpa [identifierEntries] using length_le_of_parseIdentifiers h
  · have hself : ∀ i ∈ is, (parseIdentifier ∘ Identifier.payload) i = .ok i := fun i hi =>
      parseIdentifier_payload h hids hi
    rw [identifierEntries, List.mapM_map]
    exact mapM_eq_ok_self hself
  · obtain ⟨-, -, parsed, -, rfl⟩ := parseIdentifiers_eq_ok.1 h
    exact (Str.unique_of_nodup (Str.nodup_unique parsed)).symm

/-- **Accepted orders.**  An order that is accepted can be finalized, and its identifiers are in their
final form, if and only if no address is asked for with a scope. -/
theorem order_finalizable_iff (h : parseIdentifiers raw = .ok is) :
    Finalizable is ↔ ∀ entry ∈ identifierEntries raw, ¬ AsksForScope entry := by
  have hstored := stored_of_parseIdentifiers h
  rw [← unscoped_iff h]
  constructor
  · intro hfinal
    obtain ⟨csr, -, hcheck, -⟩ := hfinal.request
    exact unscoped_of_checkIdentifiers hstored hcheck
  · intro hids
    obtain ⟨hne, -⟩ := parseIdentifiers_spec h
    have hcertifiable := certifiable_of_parseIdentifiers h hids
    refine ⟨⟨requestOf _, ⟨rfl, rfl⟩, checkIdentifiers_requestOf hstored hids, ?_⟩, ?_, nodup_asJson h⟩
    · refine passesPolicy_requestOf hcertifiable hids (by simpa using hne) ?_
      simpa [maxIdentifiers] using length_le_of_parseIdentifiers h
    · exact parseIdentifiers_payload h hids

/-- A wildcard and an address in another spelling, asked for twice. -/
theorem order_finalizable_sample : Finalizable
    [⟨.dns, Str.of "*.nas.lan", Str.of "nas.lan", true⟩,
      ⟨.ip, Str.of "2001:db8::1", Str.of "2001:db8::1", false⟩] := by
  have horder : parseIdentifiers (some (.arr [identifierEntry "dns" "*.NAS.lan",
      identifierEntry "ip" "2001:DB8:0::1", identifierEntry "dns" "*.nas.lan"])) =
      .ok [⟨.dns, Str.of "*.nas.lan", Str.of "nas.lan", true⟩,
        ⟨.ip, Str.of "2001:db8::1", Str.of "2001:db8::1", false⟩] := by
    decide +kernel
  refine (order_finalizable_iff horder).2 fun entry hentry => ?_
  rintro ⟨-, value, hvalue, hpercent⟩
  revert hpercent
  simp only [identifierEntries, List.mem_cons, List.not_mem_nil, or_false] at hentry
  rcases hentry with rfl | rfl | rfl <;> obtain rfl := Option.some.inj hvalue <;> decide

/-- An address with a scope is accepted, and no request for it ever is. -/
theorem scoped_order_stuck : ∃ is,
    parseIdentifiers (some (.arr [identifierEntry "ip" "fe80::1%eth0"])) = .ok is ∧ ¬ Finalizable is ∧
      ∀ csr, checkIdentifiers csr (is.map Identifier.asJson) ≠ .ok () := by
  have horder : parseIdentifiers (some (.arr [identifierEntry "ip" "fe80::1%eth0"])) =
      .ok [⟨.ip, Str.of "fe80::1%eth0", Str.of "fe80::1%eth0", false⟩] := by
    decide +kernel
  have hrefused : ∀ csr, checkIdentifiers csr
      [(⟨.ip, Str.of "fe80::1%eth0"⟩ : OrderIdentifier)] ≠ .ok () := by
    intro csr hcheck
    have hpercent := percent_notMem_of_checkIdentifiers hcheck (List.mem_singleton_self _) rfl
    exact hpercent (by decide)
  refine ⟨_, horder, fun hfinal => ?_, hrefused⟩
  obtain ⟨csr, -, hcheck, -⟩ := hfinal.request
  exact hrefused csr hcheck

end orders

end Acme

end Cabin
