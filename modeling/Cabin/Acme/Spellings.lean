import Cabin.Acme.Calls
import Cabin.Ca.Requests
import Cabin.Net.IpText

/-!
# Spellings of the names of an order

A request to finalize an order should name exactly what was ordered (`acme/csr.py`,
`check_identifiers`): host names up to the case of ASCII letters, addresses as addresses, and a common
name that spells one of them.  The tokens that are compared fold case beyond ASCII, and read the Kelvin
sign as a letter.

* `Names`: the request has exactly the names of the order;
* `csr_names_iff`: which requests are accepted if and only if they have.
-/

namespace Cabin

namespace Acme

open X509

/-! ### What is expected -/

/-- The text spells the identifier: as it is read, up to case, or as the same address. -/
def OrderIdentifier.SpelledBy (read : Str → Str) (i : OrderIdentifier) (text : Str) : Prop :=
  read text = Str.asciiLower i.value ∨
    i.type = .ip ∧ ∃ a, ipAddress text = some a ∧ i.value = a.toStr

/-- The names of a request. -/
def csrNames (csr : Leaf.Csr) : List GeneralName := csr.subjectAlternativeName.getD []

/-- A request has exactly the names of an order, as its texts are read. -/
structure Names (read : Str → Str) (csr : Leaf.Csr) (identifiers : List OrderIdentifier) : Prop where
  /-- There are host names and addresses only. -/
  kinds : ∀ g ∈ csrNames csr, (∃ v, g = .dns v) ∨ ∃ a, g = .ip a
  dns : ∀ v, (∃ w, .dns w ∈ csrNames csr ∧ read w = v) ↔ ⟨.dns, v⟩ ∈ identifiers
  ip : ∀ a : Ip, .ip a ∈ csrNames csr ↔ ⟨.ip, a.toStr⟩ ∈ identifiers
  /-- The common name, if there is one, is a text that spells an identifier. -/
  commonName : ∀ value, csr.commonName = some value →
    ∃ cn, value = .text cn ∧ ∃ i ∈ identifiers, i.SpelledBy read cn

/-- What the check of a request should say: it is accepted exactly if it has the names of the order, and
the common name of a certificate for it spells one of them. -/
structure NamedExactly (csr : Leaf.Csr) (identifiers : List OrderIdentifier) : Prop where
  accepted : checkIdentifiers csr identifiers = .ok () ↔ Names Str.asciiLower csr identifiers
  certified : checkIdentifiers csr identifiers = .ok () →
    ∀ (E : Crypto) (d : Draw) (issuerCert : Cert) (issuerKey : PrivateKey) (profile : Leaf.Profile)
      (days : ℤ) (crlUrl caIssuersUrl : Option Str) (cert : Cert) (capped : Option ℤ),
      Leaf.signCsr E d issuerCert issuerKey (.ok csr) profile days (Pc.csrOptions identifiers) crlUrl
        caIssuersUrl = .ok (cert, capped) →
      ∀ a ∈ cert.subject.attributesForOid commonNameOid,
        ∃ cn, a.value = .text cn ∧ ∃ i ∈ identifiers, i.SpelledBy Str.asciiLower cn

/-- A host name or the common name of the request has a Kelvin sign. -/
def HasKelvin (csr : Leaf.Csr) : Prop :=
  (∃ v, .dns v ∈ csrNames csr ∧ Str.kelvin ∈ v) ∨
    ∃ cn, csr.commonName = some (.text cn) ∧ Str.kelvin ∈ cn

/-- What is stored of an identifier: a host name in lower case, or the text of an address. -/
structure OrderIdentifier.Stored (i : OrderIdentifier) : Prop where
  dns : i.type = .dns → i.value.isAscii = true ∧ Str.asciiLower i.value = i.value ∧
    ∀ c ∈ i.value, Str.isSpace c = false
  ip : i.type = .ip → ∃ a : Ip, i.value = a.toStr

theorem stored_of_dnsIdentifier {raw : Str} {i : Identifier} (h : dnsIdentifier raw = .ok i) :
    i.asJson.Stored := by
  obtain ⟨htype, hhost⟩ := isHostname_of_dnsIdentifier h
  have hspace := (dnsIdentifier_wellFormed h).dns htype
  refine ⟨fun _ => ⟨Leaf.isAscii_of_isHostname hhost, ?_, hspace⟩, fun hip => nomatch htype.symm.trans hip⟩
  simp only [dnsIdentifier, bind_eq_ok, pure_eq_ok] at h
  obtain ⟨-, -, -, -, _, -, -, -, rfl⟩ := h
  exact Str.asciiLower_lower raw

theorem stored_of_parseIdentifiers {raw : Option Json} {is : List Identifier}
    (h : parseIdentifiers raw = .ok is) : ∀ i ∈ is.map Identifier.asJson, i.Stored := by
  intro j hj
  obtain ⟨i, hi, rfl⟩ := List.mem_map.1 hj
  rcases (parseIdentifiers_spec h).2 i hi with ⟨raw, hraw⟩ | ⟨value, hvalue⟩
  · exact stored_of_dnsIdentifier hraw
  · obtain ⟨a, -, rfl⟩ := ipIdentifier_eq_ok.1 hvalue
    exact ⟨nofun, fun _ => ⟨a, rfl⟩⟩

/-! ### Tokens -/

section tokens

variable {csr : Leaf.Csr} {ids : List OrderIdentifier} {i : OrderIdentifier} {a : Ip} {v : Str}

theorem isAscii_toStr (ha : a.scope = none) : a.toStr.isAscii = true := by
  refine List.all_eq_true.2 fun c hc => decide_eq_true ?_
  exact (Ip.range_of_isAddressChar (Ip.isAddressChar_toStr ha c hc)).2.trans (by decide)

/-- A text has the token of an address if it is a text of the address. -/
theorem ipText_eq_iff (ha : a.scope = none) : ipText v = a.toStr ↔ ipAddress v = some a := by
  constructor
  · intro h
    cases hv : ipAddress v with
    | some b =>
      have hb : b.toStr = a.toStr := by rwa [ipText, hv] at h
      have hscope : b.scope = none := Ip.scope_of_percent_notMem (hb ▸ Ip.percent_notMem_toStr ha)
      rw [Ip.toStr_injective hscope ha hb]
    | none =>
      have hlower : Str.lower v = a.toStr := by rwa [ipText, hv] at h
      have hkelvin : v.map Str.kelvinLowerChar = a.toStr := (Str.lower_eq_iff (isAscii_toStr ha)).1 hlower
      have hpercent : 0x25 ∉ v := by
        rw [← Str.mem_map_iff (Str.sameDigits_kelvinLowerChar.separator 0x25 (by decide)), hkelvin]
        exact Ip.percent_notMem_toStr ha
      rw [← hv, ← Ip.ipAddress_map Str.sameDigits_kelvinLowerChar hpercent, hkelvin, Ip.ipAddress_toStr ha]
  · intro h
    rw [ipText, h]

theorem ipText_toStr (ha : a.scope = none) : ipText a.toStr = a.toStr :=
  (ipText_eq_iff ha).2 (Ip.ipAddress_toStr ha)

theorem OrderIdentifier.Stored.lower (h : i.Stored) (htype : i.type = .dns) :
    Str.lower i.value = i.value := by
  obtain ⟨hascii, hcase, -⟩ := h.dns htype
  have hkelvin : Str.kelvin ∉ i.value := by
    intro hmem
    rw [← hcase, Str.isAscii_asciiLower hmem] at hascii
    cases hascii
  rw [Str.lower_eq_iff hascii, Str.kelvinLower_of_notMem hkelvin, hcase]

theorem mem_identifierTokens {k : Str} :
    k ∈ (identifierTokens ids).map Prod.fst ↔ ∃ i ∈ ids, normalizeToken i.type i.value = k := by
  simp [identifierTokens]

theorem normalizeToken_dns_eq {type : IdentifierType} {w : Str} :
    normalizeToken type w = normalizeToken .dns v ↔ type = .dns ∧ Str.lower w = Str.lower v := by
  cases type with
  | dns => simp [normalizeToken]
  | ip =>
    refine iff_of_false (fun h => ?_) (nomatch ·.1)
    have hhead := congrArg List.head? h
    cases hhead

theorem normalizeToken_ip_eq {type : IdentifierType} {w : Str} :
    normalizeToken type w = normalizeToken .ip v ↔ type = .ip ∧ ipText w = ipText v := by
  cases type with
  | ip => simp [normalizeToken]
  | dns =>
    refine iff_of_false (fun h => ?_) (nomatch ·.1)
    have hhead := congrArg List.head? h
    cases hhead

/-- The token of a host name is that of the identifier it is as it is read. -/
theorem dnsToken_mem (hstored : ∀ i ∈ ids, i.Stored) :
    normalizeToken .dns v ∈ (identifierTokens ids).map Prod.fst ↔ ⟨.dns, Str.kelvinLower v⟩ ∈ ids := by
  simp only [mem_identifierTokens, normalizeToken_dns_eq]
  constructor
  · rintro ⟨i, hi, htype, hlower⟩
    rw [(hstored i hi).lower htype, eq_comm, Str.lower_eq_iff ((hstored i hi).dns htype).1] at hlower
    rw [hlower, ← htype]
    exact hi
  · intro hi
    refine ⟨_, hi, rfl, ?_⟩
    rw [(hstored _ hi).lower rfl, eq_comm, Str.lower_eq_iff ((hstored _ hi).dns rfl).1]

/-- The identifiers that are addresses have no scopes. -/
def Unscoped (ids : List OrderIdentifier) : Prop :=
  ∀ i ∈ ids, i.type = .ip → ∃ a : Ip, a.scope = none ∧ i.value = a.toStr

theorem ipToken_mem (hids : Unscoped ids) :
    normalizeToken .ip v ∈ (identifierTokens ids).map Prod.fst ↔
      ∃ a : Ip, a.scope = none ∧ ⟨.ip, a.toStr⟩ ∈ ids ∧ ipAddress v = some a := by
  simp only [mem_identifierTokens, normalizeToken_ip_eq]
  constructor
  · rintro ⟨i, hi, htype, htext⟩
    obtain ⟨a, ha, hvalue⟩ := hids i hi htype
    refine ⟨a, ha, ?_, ?_⟩
    · rw [← hvalue, ← htype]
      exact hi
    · rw [← ipText_eq_iff ha, ← htext, hvalue, ipText_toStr ha]
  · rintro ⟨a, ha, hi, hv⟩
    exact ⟨_, hi, rfl, by rw [ipText_toStr ha, (ipText_eq_iff ha).2 hv]⟩

/-- The common name is compared with the tokens of both kinds, and so with all identifiers. -/
theorem commonName_mem (hstored : ∀ i ∈ ids, i.Stored) (hids : Unscoped ids) :
    (normalizeToken .dns v ∈ (identifierTokens ids).map Prod.fst ∨
      normalizeToken .ip v ∈ (identifierTokens ids).map Prod.fst) ↔
      ∃ i ∈ ids, i.SpelledBy Str.kelvinLower v := by
  rw [dnsToken_mem hstored, ipToken_mem hids]
  constructor
  · rintro (hi | ⟨a, -, hi, hv⟩)
    · exact ⟨_, hi, .inl ((hstored _ hi).dns rfl).2.1.symm⟩
    · exact ⟨_, hi, .inr ⟨rfl, a, hv, rfl⟩⟩
  · rintro ⟨⟨type, value⟩, hi, hspelled⟩
    cases type with
    | dns =>
      rcases hspelled with hread | ⟨⟨⟩, -⟩
      rw [((hstored _ hi).dns rfl).2.1] at hread
      exact .inl (hread ▸ hi)
    | ip =>
      obtain ⟨a, ha, rfl⟩ := hids _ hi rfl
      refine .inr ⟨a, ha, hi, ?_⟩
      rcases hspelled with hread | ⟨-, b, hv, hb⟩
      · have hpercent : 0x25 ∉ a.toStr := Ip.percent_notMem_toStr ha
        have hkelvin := Str.sameDigits_kelvinLowerChar
        have hcase := Str.sameDigits_asciiLowerChar
        have hmem : 0x25 ∉ v := by
          rw [← Str.mem_map_iff (hkelvin.separator 0x25 (by decide)),
            show v.map Str.kelvinLowerChar = _ from hread]
          exact mt (Str.mem_map_iff (hcase.separator 0x25 (by decide))).1 hpercent
        rw [← Ip.ipAddress_map hkelvin hmem, show v.map Str.kelvinLowerChar = _ from hread]
        exact (Ip.ipAddress_map hcase hpercent).trans (Ip.ipAddress_toStr ha)
      · have hscope : b.scope = none := Ip.scope_of_percent_notMem (hb ▸ Ip.percent_notMem_toStr ha)
        rw [hv, Ip.toStr_injective ha hscope hb]

/-! ### The check -/

theorem without_eq_nil {t u : Tokens} :
    t.without u = [] ↔ ∀ k ∈ t.map Prod.fst, k ∈ u.map Prod.fst := by
  simp only [List.eq_nil_iff_forall_not_mem, mem_without, not_and, not_not]

theorem csrCommonName_eq_ok {cn : Option Str} :
    csrCommonName csr = .ok cn ↔ csr.commonName = cn.map .text := by
  unfold csrCommonName
  generalize hvalue : (csr.subject.attributesForOid commonNameOid).head?.map NameAttribute.value = value
  have hcommon : csr.commonName = value := hvalue
  rw [hcommon]
  match value, cn with
  | none, none | none, some _ | some (.text _), none | some (.bits _), none | some (.bits _), some _ => simp
  | some (.text _), some _ => simp

theorem checkCommonName_eq_ok {ordered : Tokens} {cn : Str} : checkCommonName ordered cn = .ok () ↔
    normalizeToken .dns cn ∈ ordered.map Prod.fst ∨ normalizeToken .ip cn ∈ ordered.map Prod.fst := by
  rw [checkCommonName, refuse_eq_ok, not_and_or, not_not, not_not]

/-- A request is accepted if its tokens are those of the order, and so is one of its common name. -/
theorem checkIdentifiers_eq_ok : checkIdentifiers csr ids = .ok () ↔
    ∃ requested, sanTokens csr = .ok requested ∧
      (∀ k, k ∈ requested.map Prod.fst ↔ k ∈ (identifierTokens ids).map Prod.fst) ∧
      ∀ value, csr.commonName = some value → ∃ cn, value = .text cn ∧
        (normalizeToken .dns cn ∈ (identifierTokens ids).map Prod.fst ∨
          normalizeToken .ip cn ∈ (identifierTokens ids).map Prod.fst) := by
  simp only [checkIdentifiers, bind_eq_ok, refuse_eq_ok, not_not, without_eq_nil, csrCommonName_eq_ok]
  constructor
  · rintro ⟨requested, hreq, -, hextra, -, hmissing, cn, hcn, hcheck⟩
    refine ⟨requested, hreq, fun k => ⟨hextra k, hmissing k⟩, fun value hvalue => ?_⟩
    rw [hcn] at hvalue
    cases cn with
    | none => cases hvalue
    | some cn => exact ⟨cn, (Option.some.inj hvalue).symm, checkCommonName_eq_ok.1 hcheck⟩
  · rintro ⟨requested, hreq, hkeys, hname⟩
    refine ⟨requested, hreq, (), fun k => (hkeys k).1, (), fun k => (hkeys k).2, ?_⟩
    cases hcommon : csr.commonName with
    | none => exact ⟨none, rfl, rfl⟩
    | some value =>
      obtain ⟨cn, rfl, hmem⟩ := hname value hcommon
      exact ⟨some cn, rfl, checkCommonName_eq_ok.2 hmem⟩

theorem sanTokens_eq (hparses : csr.malformed = false) : sanTokens csr = (csrNames csr).mapM sanToken := by
  simp [sanTokens, refuse, hparses, csrNames, bind, Except.bind]

theorem scope_of_mem (h : .ip a ∈ csrNames csr) : a.scope = none := by
  have hpacked : a.packed = a := by simpa [GeneralName.encoded] using csr.decoded _ h
  rw [← hpacked, Ip.scope_packed]

/-- The tokens of an accepted request: none is that of a network, since no address is written as one. -/
theorem sanToken_cases {g : GeneralName} {t : Str × Str} (hstored : ∀ i ∈ ids, i.Stored)
    (hids : Unscoped ids) (hg : g ∈ csrNames csr) (h : sanToken g = .ok t)
    (ht : t.1 ∈ (identifierTokens ids).map Prod.fst) :
    (∃ v, g = .dns v ∧ ⟨.dns, Str.kelvinLower v⟩ ∈ ids) ∨
      ∃ a : Ip, g = .ip a ∧ ⟨.ip, a.toStr⟩ ∈ ids := by
  cases g with
  | dns v =>
    cases h
    exact .inl ⟨v, rfl, (dnsToken_mem hstored).1 ht⟩
  | ip a =>
    cases h
    obtain ⟨b, hb, hmem, hread⟩ := (ipToken_mem hids).1 ht
    obtain rfl := Option.some.inj ((Ip.ipAddress_toStr (scope_of_mem hg)).symm.trans hread)
    exact .inr ⟨a, rfl, hmem⟩
  | network n =>
    cases h
    obtain ⟨b, -, -, hread⟩ := (ipToken_mem hids).1 ht
    have hslash : 0x2F ∈ n.toStr := by cases n <;> simp [IpNetwork.toStr]
    rw [ipAddress, if_pos hslash] at hread
    cases hread
  | rfc822 v => cases h
  | other tag v => cases h

theorem unscoped_of_checkIdentifiers (hstored : ∀ i ∈ ids, i.Stored)
    (h : checkIdentifiers csr ids = .ok ()) : Unscoped ids := by
  intro i hi htype
  obtain ⟨a, ha⟩ := (hstored i hi).ip htype
  exact ⟨a, Ip.scope_of_percent_notMem (ha ▸ percent_notMem_of_checkIdentifiers h hi htype), ha⟩

theorem unscoped_of_names {read : Str → Str} (hstored : ∀ i ∈ ids, i.Stored) (h : Names read csr ids) :
    Unscoped ids := by
  rintro ⟨type, value⟩ hi rfl
  obtain ⟨a, rfl⟩ := (hstored _ hi).ip rfl
  exact ⟨a, scope_of_mem ((h.ip a).2 hi), rfl⟩

theorem names_of_checkIdentifiers (hparses : csr.malformed = false) (hstored : ∀ i ∈ ids, i.Stored)
    (h : checkIdentifiers csr ids = .ok ()) : Names Str.kelvinLower csr ids := by
  have hids := unscoped_of_checkIdentifiers hstored h
  obtain ⟨requested, hreq, hkeys, hname⟩ := checkIdentifiers_eq_ok.1 h
  rw [sanTokens_eq hparses] at hreq
  obtain ⟨hback, hforth⟩ := mem_of_mapM_eq_ok hreq
  have hrequested : ∀ g ∈ csrNames csr, (∃ v, g = .dns v ∧ ⟨.dns, Str.kelvinLower v⟩ ∈ ids) ∨
      ∃ a : Ip, g = .ip a ∧ ⟨.ip, a.toStr⟩ ∈ ids := by
    intro g hg
    obtain ⟨t, ht, htoken⟩ := hforth g hg
    exact sanToken_cases hstored hids hg htoken ((hkeys _).1 (List.mem_map_of_mem ht))
  have hordered : ∀ i ∈ ids, ∃ g ∈ csrNames csr, ∃ t, sanToken g = .ok t ∧
      t.1 = normalizeToken i.type i.value := by
    intro i hi
    obtain ⟨t, ht, heq⟩ := List.mem_map.1 ((hkeys _).2 (mem_identifierTokens.2 ⟨i, hi, rfl⟩))
    obtain ⟨g, hg, htoken⟩ := hback t ht
    exact ⟨g, hg, t, htoken, heq⟩
  constructor
  · intro g hg
    rcases hrequested g hg with ⟨v, rfl, -⟩ | ⟨a, rfl, -⟩
    · exact .inl ⟨v, rfl⟩
    · exact .inr ⟨a, rfl⟩
  · intro v
    constructor
    · rintro ⟨w, hw, rfl⟩
      rcases hrequested _ hw with ⟨v, hv, hmem⟩ | ⟨a, ha, -⟩
      · cases hv
        exact hmem
      · cases ha
    · intro hv
      obtain ⟨g, hg, t, htoken, heq⟩ := hordered _ hv
      rcases hrequested g hg with ⟨w, rfl, -⟩ | ⟨a, rfl, -⟩
      · cases htoken
        refine ⟨w, hg, ?_⟩
        have hlower := (normalizeToken_dns_eq.1 heq.symm).2
        rwa [(hstored _ hv).lower rfl, eq_comm, Str.lower_eq_iff ((hstored _ hv).dns rfl).1] at hlower
      · cases htoken
        cases (normalizeToken_ip_eq.1 heq.symm).1
  · intro a
    constructor
    · intro ha
      rcases hrequested _ ha with ⟨v, hv, -⟩ | ⟨b, hb, hmem⟩
      · cases hv
      · cases hb
        exact hmem
    · intro ha
      obtain ⟨b, hb, hvalue⟩ := hids _ ha rfl
      have hscope : a.scope = none := by
        refine Ip.scope_of_percent_notMem ?_
        rw [show a.toStr = b.toStr from hvalue]
        exact Ip.percent_notMem_toStr hb
      obtain ⟨g, hg, t, htoken, heq⟩ := hordered _ ha
      rcases hrequested g hg with ⟨w, rfl, -⟩ | ⟨c, rfl, -⟩
      · cases htoken
        cases (normalizeToken_dns_eq.1 heq.symm).1
      · cases htoken
        have htext := (normalizeToken_ip_eq.1 heq.symm).2
        rw [ipText_toStr hscope, ipText_toStr (scope_of_mem hg)] at htext
        rwa [Ip.toStr_injective hscope (scope_of_mem hg) htext]
  · intro value hvalue
    obtain ⟨cn, rfl, hmem⟩ := hname value hvalue
    exact ⟨cn, rfl, (commonName_mem hstored hids).1 hmem⟩

theorem checkIdentifiers_of_names (hparses : csr.malformed = false) (hstored : ∀ i ∈ ids, i.Stored)
    (h : Names Str.kelvinLower csr ids) : checkIdentifiers csr ids = .ok () := by
  have hids := unscoped_of_names hstored h
  have hall : ∀ g ∈ csrNames csr, ∃ t, sanToken g = .ok t := by
    intro g hg
    rcases h.kinds g hg with ⟨v, rfl⟩ | ⟨a, rfl⟩
    · exact ⟨_, rfl⟩
    · exact ⟨_, rfl⟩
  obtain ⟨requested, hreq⟩ := exists_mapM_eq_ok_iff.2 hall
  obtain ⟨hback, hforth⟩ := mem_of_mapM_eq_ok hreq
  refine checkIdentifiers_eq_ok.2 ⟨requested, (sanTokens_eq hparses).trans hreq, fun k => ?_, ?_⟩
  · constructor
    · intro hk
      obtain ⟨t, ht, rfl⟩ := List.mem_map.1 hk
      obtain ⟨g, hg, htoken⟩ := hback t ht
      rcases h.kinds g hg with ⟨v, rfl⟩ | ⟨a, rfl⟩
      · cases htoken
        exact (dnsToken_mem hstored).2 ((h.dns _).1 ⟨v, hg, rfl⟩)
      · cases htoken
        exact mem_identifierTokens.2 ⟨_, (h.ip a).1 hg, rfl⟩
    · intro hk
      obtain ⟨⟨type, value⟩, hi, rfl⟩ := mem_identifierTokens.1 hk
      cases type with
      | dns =>
        obtain ⟨w, hw, rfl⟩ := (h.dns value).2 hi
        obtain ⟨t, ht, htoken⟩ := hforth _ hw
        cases htoken
        refine List.mem_map.2 ⟨_, ht, (normalizeToken_dns_eq.2 ⟨rfl, ?_⟩).symm⟩
        rw [(hstored _ hi).lower rfl, eq_comm, Str.lower_eq_iff ((hstored _ hi).dns rfl).1]
      | ip =>
        obtain ⟨a, ha, rfl⟩ := hids _ hi rfl
        obtain ⟨t, ht, htoken⟩ := hforth _ ((h.ip a).2 hi)
        cases htoken
        exact List.mem_map.2 ⟨_, ht, rfl⟩
  · intro value hvalue
    obtain ⟨cn, rfl, hspelled⟩ := h.commonName value hvalue
    exact ⟨cn, rfl, (commonName_mem hstored hids).2 hspelled⟩

/-- **What is accepted**: a request with the names of the order, its Kelvin signs read as letters. -/
theorem checkIdentifiers_iff (hparses : csr.malformed = false) (hstored : ∀ i ∈ ids, i.Stored) :
    checkIdentifiers csr ids = .ok () ↔ Names Str.kelvinLower csr ids :=
  ⟨names_of_checkIdentifiers hparses hstored, checkIdentifiers_of_names hparses hstored⟩

/-! ### Kelvin signs -/

theorem names_congr {read read' : Str → Str} (hdns : ∀ v, .dns v ∈ csrNames csr → read v = read' v)
    (hcn : ∀ cn, csr.commonName = some (.text cn) → read cn = read' cn) (h : Names read csr ids) :
    Names read' csr ids where
  kinds := h.kinds
  dns v := by
    rw [← h.dns v]
    constructor
    · rintro ⟨w, hw, rfl⟩
      exact ⟨w, hw, hdns w hw⟩
    · rintro ⟨w, hw, rfl⟩
      exact ⟨w, hw, (hdns w hw).symm⟩
  ip := h.ip
  commonName value hvalue := by
    obtain ⟨cn, rfl, i, hi, hspelled⟩ := h.commonName value hvalue
    exact ⟨cn, rfl, i, hi, hspelled.imp_left fun hread => (hcn cn hvalue).symm.trans hread⟩

theorem names_iff_of_not_hasKelvin (h : ¬ HasKelvin csr) :
    Names Str.kelvinLower csr ids ↔ Names Str.asciiLower csr ids := by
  have hdns : ∀ v, .dns v ∈ csrNames csr → Str.kelvinLower v = Str.asciiLower v := fun v hv =>
    Str.kelvinLower_of_notMem fun hmem => h (.inl ⟨v, hv, hmem⟩)
  have hcn : ∀ cn, csr.commonName = some (.text cn) → Str.kelvinLower cn = Str.asciiLower cn :=
    fun cn hcn => Str.kelvinLower_of_notMem fun hmem => h (.inr ⟨cn, hcn, hmem⟩)
  exact ⟨names_congr hdns hcn,
    names_congr (fun v hv => (hdns v hv).symm) fun cn h => (hcn cn h).symm⟩

theorem isAscii_value (hstored : ∀ i ∈ ids, i.Stored) (hids : Unscoped ids) (hi : i ∈ ids) :
    i.value.isAscii = true := by
  cases htype : i.type with
  | dns => exact ((hstored i hi).dns htype).1
  | ip =>
    obtain ⟨a, ha, hvalue⟩ := hids i hi htype
    rw [hvalue]
    exact isAscii_toStr ha

/-- No identifier is spelled with a Kelvin sign. -/
theorem not_hasKelvin_of_names (hstored : ∀ i ∈ ids, i.Stored) (h : Names Str.asciiLower csr ids) :
    ¬ HasKelvin csr := by
  have hids := unscoped_of_names hstored h
  rintro (⟨v, hv, hkelvin⟩ | ⟨cn, hcn, hkelvin⟩)
  · have hascii := isAscii_value hstored hids ((h.dns _).1 ⟨v, hv, rfl⟩)
    rw [show (OrderIdentifier.mk .dns (Str.asciiLower v)).value = Str.asciiLower v from rfl,
      Str.isAscii_asciiLower hkelvin] at hascii
    cases hascii
  · obtain ⟨cn', hcn', i, hi, hspelled⟩ := h.commonName _ hcn
    cases hcn'
    rcases hspelled with hread | ⟨htype, a, haddress, hvalue⟩
    · have hascii := Str.asciiLower_isAscii (isAscii_value hstored hids hi)
      rw [← hread, Str.isAscii_asciiLower hkelvin] at hascii
      cases hascii
    · obtain ⟨b, hb, hb'⟩ := hids i hi htype
      have hscope : a.scope = none :=
        Ip.scope_of_percent_notMem ((hvalue.symm.trans hb') ▸ Ip.percent_notMem_toStr hb)
      have hdigit := Ip.isSome_of_ipAddress haddress hscope hkelvin (by decide) (by decide)
      cases hdigit

/-! ### The certificate -/

theorem isSpace_asciiLowerChar (c : ℕ) : Str.isSpace (Str.asciiLowerChar c) = Str.isSpace c := by
  unfold Str.asciiLowerChar
  split_ifs with h
  · have hupper : Str.isSpace c = false := by
      simp [Str.isSpace]
      omega
    have hlower : Str.isSpace (c + 0x20) = false := by
      simp [Str.isSpace]
      omega
    rw [hupper, hlower]
  · rfl

theorem isSpace_of_hexValue {c : ℕ} (h : (Str.hexValue? c).isSome = true) : Str.isSpace c = false := by
  have hrange : 0x30 ≤ c ∧ c ≤ 0x66 := by
    simp only [Str.hexValue?, Str.isDigit, Bool.and_eq_true, decide_eq_true_eq] at h
    split_ifs at h
    · omega
    · omega
    · omega
    · cases h
  simp [Str.isSpace]
  omega

/-- A spelling has no white space, as its identifier has none. -/
theorem strip_of_spelledBy (hstored : ∀ i ∈ ids, i.Stored) (hids : Unscoped ids) (hi : i ∈ ids)
    (h : i.SpelledBy Str.asciiLower v) : Str.strip v = v := by
  have hvalue : ∀ c ∈ i.value, Str.isSpace c = false := by
    cases htype : i.type with
    | dns => exact ((hstored i hi).dns htype).2.2
    | ip =>
      obtain ⟨a, ha, hvalue⟩ := hids i hi htype
      rw [hvalue]
      exact Ip.isSpace_toStr ha
  refine Str.strip_of_isSpace fun c hc => ?_
  rcases h with hread | ⟨htype, a, haddress, htext⟩
  · have hmem : Str.asciiLowerChar c ∈ Str.asciiLower i.value := hread ▸ List.mem_map_of_mem hc
    obtain ⟨x, hx, hcx⟩ := List.mem_map.1 hmem
    rw [← isSpace_asciiLowerChar, ← hcx, isSpace_asciiLowerChar]
    exact hvalue x hx
  · obtain ⟨b, hb, hb'⟩ := hids i hi htype
    have hscope : a.scope = none :=
      Ip.scope_of_percent_notMem ((htext.symm.trans hb') ▸ Ip.percent_notMem_toStr hb)
    by_contra hspace
    have hcolon : c ≠ 0x3A := by
      rintro rfl
      exact hspace (by decide)
    have hdot : c ≠ 0x2E := by
      rintro rfl
      exact hspace (by decide)
    have hdigit := Ip.isSome_of_ipAddress haddress hscope hc hcolon hdot
    rw [isSpace_of_hexValue hdigit] at hspace
    exact hspace rfl

/-- The subject of a certificate is the common name of the request or the fallback, stripped. -/
theorem strip_of_csrSubject {fallback : Option Str} {empty : Bool} {cn : Option Str}
    (h : Leaf.csrSubject csr fallback empty = .ok cn) :
    ∀ t ∈ cn, ∃ s, (csr.commonName = some (.text s) ∨ fallback = some s) ∧ t = Str.strip s := by
  have hvalid : ∀ {s : Str}, (Leaf.validateCn s).map some = .ok cn → ∀ t ∈ cn, t = Str.strip s := by
    intro s hs t ht
    cases hcn : Leaf.validateCn s with
    | error e =>
      rw [hcn] at hs
      cases hs
    | ok cn' =>
      rw [hcn] at hs
      obtain rfl := Except.ok.inj hs
      obtain rfl := Option.some.inj ht
      exact (Leaf.validateCn_eq_ok.1 hcn).1
  intro t ht
  unfold Leaf.csrSubject at h
  split at h
  · rename_i s hs
    exact ⟨s, .inl hs, hvalid h t ht⟩
  · cases h
  · split at h
    · rename_i s
      exact ⟨s, .inr rfl, hvalid h t ht⟩
    · split_ifs at h
      · cases h
        cases ht
      · cases h

theorem spelled_of_signCsr {E : Crypto} {d : Draw} {issuerCert cert : Cert} {issuerKey : PrivateKey}
    {profile : Leaf.Profile} {days : ℤ} {crlUrl caIssuersUrl : Option Str} {capped : Option ℤ}
    (hstored : ∀ i ∈ ids, i.Stored) (hnames : Names Str.asciiLower csr ids)
    (h : Leaf.signCsr E d issuerCert issuerKey (.ok csr) profile days (Pc.csrOptions ids) crlUrl
      caIssuersUrl = .ok (cert, capped)) :
    ∀ a ∈ cert.subject.attributesForOid commonNameOid,
      ∃ cn, a.value = .text cn ∧ ∃ i ∈ ids, i.SpelledBy Str.asciiLower cn := by
  have hids := unscoped_of_names hstored hnames
  simp only [Leaf.signCsr, Leaf.loadCsr, bind_eq_ok, Except.ok.injEq] at h
  obtain ⟨-, -, _, rfl, -, -, cn, hcn, explicit, -, fromCsr, -, resolved, -, hb⟩ := h
  simp only [Leaf.buildLeaf, bind_eq_ok, pure_eq_ok, Prod.mk.injEq] at hb
  obtain ⟨⟨notAfter, capped'⟩, -, v, -, subject, hsubject, aki, -, names, -, c, hc, rfl, -⟩ := hb
  obtain ⟨-, htbs, -⟩ := build_eq_ok hc
  have hcert : c.subject = subject := by simp [Cert.subject, htbs, encodeTbs]
  rw [hcert]
  intro a ha
  cases cn with
  | none =>
    obtain rfl := Except.ok.inj hsubject
    cases ha
  | some t =>
    obtain rfl := eq_of_nameOfCommonName hsubject
    obtain rfl : a = ⟨commonNameOid, .utf8, .text t⟩ := by
      simpa [Name.attributesForOid] using ha
    obtain ⟨s, hs, rfl⟩ := strip_of_csrSubject hcn t rfl
    obtain ⟨i, hi, hspelled⟩ : ∃ i ∈ ids, i.SpelledBy Str.asciiLower s := by
      rcases hs with hs | hs
      · obtain ⟨_, hcn', hspelled⟩ := hnames.commonName _ hs
        cases hcn'
        exact hspelled
      · obtain ⟨i, hi, rfl⟩ := Option.map_eq_some_iff.1 hs
        exact ⟨i, List.mem_of_find?_eq_some hi, .inl rfl⟩
    refine ⟨Str.strip s, rfl, i, hi, ?_⟩
    rw [strip_of_spelledBy hstored hids hi hspelled]
    exact hspelled

end tokens

/-- **The names of a request.**  A request whose extensions parse is accepted exactly if it has the names
of the order, and the common name of its certificate spells one of them, if and only if no host name and
not the common name has a Kelvin sign or the names are not those of the order even with `k` in its
place. -/
theorem csr_names_iff {raw : Option Json} {is : List Identifier} {csr : Leaf.Csr}
    (horder : parseIdentifiers raw = .ok is) (hparses : csr.malformed = false) :
    NamedExactly csr (is.map Identifier.asJson) ↔
      (HasKelvin csr → ¬ Names Str.kelvinLower csr (is.map Identifier.asJson)) := by
  have hstored := stored_of_parseIdentifiers horder
  have haccepted := checkIdentifiers_iff hparses hstored
  constructor
  · intro h hkelvin hnames
    exact not_hasKelvin_of_names hstored (h.accepted.1 (haccepted.2 hnames)) hkelvin
  · intro h
    have hiff : checkIdentifiers csr (is.map Identifier.asJson) = .ok () ↔
        Names Str.asciiLower csr (is.map Identifier.asJson) := by
      rw [haccepted]
      constructor
      · intro hnames
        exact (names_iff_of_not_hasKelvin fun hkelvin => h hkelvin hnames).1 hnames
      · intro hnames
        exact (names_iff_of_not_hasKelvin (not_hasKelvin_of_names hstored hnames)).2 hnames
    exact ⟨hiff, fun hok _ _ _ _ _ _ _ _ _ _ hcert =>
      spelled_of_signCsr hstored (hiff.1 hok) hcert⟩

/-! ### A common name with a Kelvin sign -/

/-- A request for names, with a common name. -/
def csrFor (cn : Str) (names : List GeneralName)
    (decoded : ∀ g ∈ names, g.encoded = g := by decide) : Leaf.Csr :=
  { subject := [[⟨commonNameOid, .utf8, .text cn⟩]], publicKey := ⟨[4, 9]⟩
    subjectAlternativeName := some names, decoded }

/-- An entry of a new order. -/
def identifierEntry (type value : String) : Json :=
  .obj [(Str.of "type", .str (Str.of type)), (Str.of "value", .str (Str.of value))]

/-- A request in another case, for a host name and an address. -/
theorem csr_names_otherCase :
    NamedExactly
        (csrFor (Str.of "nas.LAN") [.dns (Str.of "NAS.lan"), .ip (.v4 3221225985)])
        [⟨.dns, Str.of "nas.lan"⟩, ⟨.ip, Str.of "192.0.2.1"⟩] ∧
      checkIdentifiers (csrFor (Str.of "nas.LAN") [.dns (Str.of "NAS.lan"), .ip (.v4 3221225985)])
        [⟨.dns, Str.of "nas.lan"⟩, ⟨.ip, Str.of "192.0.2.1"⟩] = .ok () := by
  have horder : parseIdentifiers (some (.arr
      [identifierEntry "dns" "Nas.lan", identifierEntry "ip" "192.0.2.1"])) =
      .ok [⟨.dns, Str.of "nas.lan", Str.of "nas.lan", false⟩,
        ⟨.ip, Str.of "192.0.2.1", Str.of "192.0.2.1", false⟩] := by
    decide +kernel
  refine ⟨(csr_names_iff horder rfl).2 ?_, by decide +kernel⟩
  rintro (⟨v, hv, hkelvin⟩ | ⟨cn, hcn, hkelvin⟩)
  · have hname : v = Str.of "NAS.lan" := by simpa [csrNames, csrFor] using hv
    rw [hname] at hkelvin
    exact absurd hkelvin (by decide)
  · have hname : Str.of "nas.LAN" = cn := by
      simpa [Leaf.Csr.commonName, csrFor, Name.attributesForOid] using hcn
    rw [← hname] at hkelvin
    exact absurd hkelvin (by decide)

/-- The Kelvin sign is accepted in place of the letter that was ordered. -/
theorem kelvin_accepted :
    parseIdentifiers (some (.arr [identifierEntry "dns" "k.lan"])) =
        .ok [⟨.dns, Str.of "k.lan", Str.of "k.lan", false⟩] ∧
      ¬ NamedExactly (csrFor (Str.of "K.lan") [.dns (Str.of "k.lan")]) [⟨.dns, Str.of "k.lan"⟩] := by
  have horder : parseIdentifiers (some (.arr [identifierEntry "dns" "k.lan"])) =
      .ok [⟨.dns, Str.of "k.lan", Str.of "k.lan", false⟩] := by
    decide +kernel
  refine ⟨horder, fun h => ?_⟩
  have hnames := h.accepted.1 (by decide +kernel)
  exact not_hasKelvin_of_names (stored_of_parseIdentifiers horder) hnames
    (.inr ⟨Str.of "K.lan", rfl, by decide⟩)

end Acme

end Cabin
