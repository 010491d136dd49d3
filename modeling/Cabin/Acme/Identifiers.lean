import Cabin.Acme.Store
import Cabin.Ca.Names

/-!
# Identifiers

The identifier policy of `acme/service.py` and the check of a certificate signing request against
the identifiers of an order (`acme/csr.py`).

* `parseIdentifiers_wellFormed`: what an order names is well formed;
* `percent_notMem_of_checkIdentifiers`: an order with a scoped address has no matching request, since a
  request has addresses without a scope;
* `names_of_order`: a certificate for an order has exactly its names.
-/

namespace Cabin

namespace Acme

open X509

/-! ### The policy -/

/-- One requested name. -/
structure Identifier where
  /-- Its type. -/
  type : IdentifierType
  /-- The name, with the star of a wildcard. -/
  value : Str
  /-- What the authorization names: for a wildcard the domain below the star. -/
  baseValue : Str
  /-- The name is a wildcard. -/
  wildcard : Bool
  deriving DecidableEq, Repr

/-- What is stored of a name. -/
def Identifier.asJson (i : Identifier) : OrderIdentifier := ⟨i.type, i.value⟩

/-- The stored name is a wildcard. -/
def OrderIdentifier.wildcard (i : OrderIdentifier) : Bool :=
  i.type == .dns && (Str.of "*.").isPrefixOf i.value

/-- What the authorization of the stored name names. -/
def OrderIdentifier.baseValue (i : OrderIdentifier) : Str :=
  if i.wildcard then i.value.drop 2 else i.value

/-- The name as a general name. -/
def OrderIdentifier.generalName? (i : OrderIdentifier) : Option GeneralName :=
  match i.type with
  | .dns => some (.dns i.value)
  | .ip => (ipAddress i.value).map .ip

/-- At most this many identifiers in one order. -/
def maxIdentifiers : ℕ := Leaf.maxSans

/-- One rejection, one sentence. -/
def reject (message : String) : AcmeError :=
  { kind := .rejectedIdentifier, detail := cut 200 message }

/-- A failure of the name policy is a rejected identifier. -/
def rejected {α : Type} : Except Failure α → Except AcmeError α
  | .ok a => .ok a
  | .error e => .error (reject e.message)

/-- A DNS name, under the policy on subject alternative names.  Without white space it is one line
of their input. -/
def dnsIdentifier (raw : Str) : Except AcmeError Identifier := do
  refuse (raw = [] ∨ raw.any Str.isSpace) (reject s!"not a valid hostname: {raw.repr}")
  let value := Str.lower raw
  refuse (Leaf.isIp value)
    (reject s!"an IP address must be requested as an ip identifier: {value.repr}")
  let wildcard := (Str.of "*.").isPrefixOf value
  let normalized ← rejected (Leaf.normalizeSan (Str.of "dns:" ++ value))
  refuse (normalized ≠ Leaf.canonical .dns value) (reject s!"not a valid hostname: {value.repr}")
  pure ⟨.dns, value, if wildcard then value.drop 2 else value, wildcard⟩

/-- An address, in its canonical form. -/
def ipIdentifier (value : Str) : Except AcmeError Identifier :=
  match ipAddress value with
  | none => .error (reject s!"not a valid IP address: {value.repr}")
  | some address => .ok ⟨.ip, address.toStr, address.toStr, false⟩

/-- One entry of the `identifiers` member. -/
def parseIdentifier (entry : Json) : Except AcmeError Identifier :=
  match entry with
  | .obj _ =>
    match (entry.get? "value").bind Json.str? with
    | none => .error { kind := .malformed, detail := "each identifier needs a string value" }
    | some value =>
      match (entry.get? "type").bind Json.str? with
      | some kind =>
        if kind = Str.of "dns" then dnsIdentifier value
        else if kind = Str.of "ip" then ipIdentifier value
        else .error { kind := .unsupportedIdentifier
                      detail := cut 200
                        s!"cabin issues for dns and ip identifiers only, not {kind.repr}" }
      | none =>
        .error { kind := .unsupportedIdentifier
                 detail := cut 200 ("cabin issues for dns and ip identifiers only, not " ++
                   Json.reprOption (entry.get? "type")) }
  | _ => .error { kind := .malformed, detail := "each identifier must be a JSON object" }

/-- The `identifiers` member of a new order. -/
def parseIdentifiers (raw : Option Json) : Except AcmeError (List Identifier) :=
  match raw with
  | some (.arr entries) => do
    refuse (entries = [])
      { kind := .malformed, detail := "an order needs a non-empty identifiers array" }
    refuse (maxIdentifiers < entries.length)
      { kind := .malformed, detail := s!"an order may name at most {maxIdentifiers} identifiers" }
    let parsed ← entries.mapM parseIdentifier
    pure (Str.unique parsed)
  | _ => .error { kind := .malformed, detail := "an order needs a non-empty identifiers array" }

/-- How control of an identifier may be proven: there is nowhere to serve a file for a wildcard, and
no name to put a TXT record on for an address. -/
def challengeTypesFor (type : IdentifierType) (wildcard : Bool) : List ChallengeType :=
  if wildcard then [.dns01]
  else match type with
    | .ip => [.http01, .tlsAlpn01]
    | .dns => [.http01, .dns01, .tlsAlpn01]

/-! ### Requests -/

/-- A certificate signing request in DER. -/
structure CsrDer where
  /-- Its length in bytes. -/
  size : ℕ
  /-- What it parses to. -/
  parsed : CaX509.Parsed Leaf.Csr
  /-- Checking its signature raises this. -/
  signatureError : Option String := none

/-- The request is refused. -/
def badCsr (detail : String) : AcmeError := { kind := .badCsr, detail := cut 400 detail }

/-- What a message repeats of a name. -/
def echo (value : Str) : String :=
  if value.length ≤ 100 then value.text else Str.text (value.take 100) ++ "..."

def maxCsrBytes : ℕ := 64 * 1024

def minRsaBits : ℕ := 2048

/-- The key of the request is of a kind and size that is certified. -/
def checkPublicKey (E : Crypto) (csr : Leaf.Csr) : Except AcmeError Unit :=
  match E.publicKeyKind csr.publicKey with
  | .rsa bits =>
    refuse (bits < minRsaBits)
      (badCsr s!"an RSA key must be at least {minRsaBits} bits, not {bits}")
  | .ec (.other name) =>
    .error (badCsr (s!"cabin does not issue certificates on the {name.text} curve: " ++
      "use P-256 or P-384"))
  | .ec .p256 | .ec .p384 => .ok ()
  | .ed25519 => .ok ()
  | .other _ => .error (badCsr "cabin issues certificates for RSA, P-256, P-384 and Ed25519 keys only")

/-- Parse a request. -/
def parseCsr (der : CsrDer) : Except AcmeError Leaf.Csr :=
  match der.parsed with
  | .ok csr => .ok csr
  | .error exc => .error (badCsr s!"the CSR is not a valid DER PKCS#10 request: {exc}")

/-- The request is signed by its own key. -/
def checkSignature (der : CsrDer) (csr : Leaf.Csr) : Except AcmeError Unit :=
  match der.signatureError with
  | some exc => .error (badCsr s!"the CSR's signature could not be checked: {exc}")
  | none =>
    refuse (csr.isSignatureValid = false)
      (badCsr "the CSR's signature does not verify against its own public key")

/-- Parse a request, and check that it has signed itself and has such a key. -/
def loadCsr (E : Crypto) (der : CsrDer) : Except AcmeError Leaf.Csr := do
  refuse (maxCsrBytes < der.size) (badCsr "the CSR is too large")
  let csr ← parseCsr der
  checkSignature der csr
  checkPublicKey E csr
  pure csr

/-- An address in its canonical form; a text that is none in lower case. -/
def ipText (value : Str) : Str :=
  match ipAddress value with
  | some a => a.toStr
  | none => Str.lower value

/-- One comparable token per name; the type is part of it. -/
def normalizeToken (type : IdentifierType) (value : Str) : Str :=
  match type with
  | .dns => Str.of "dns:" ++ Str.lower value
  | .ip => Str.of "ip:" ++ ipText value

/-- A dictionary from tokens to names; a later entry replaces an earlier one. -/
abbrev Tokens := List (Str × Str)

/-- The name of a token. -/
def Tokens.name (t : Tokens) (token : Str) : Str := (t.reverse.lookup token).getD []

/-- The tokens of `t` that are not among those of `u`, sorted. -/
def Tokens.without (t u : Tokens) : List Str :=
  (Str.unique ((t.map Prod.fst).filter fun k => k ∉ u.map Prod.fst)).mergeSort

/-- The tokens of an order. -/
def identifierTokens (identifiers : List OrderIdentifier) : Tokens :=
  identifiers.map fun i => (normalizeToken i.type i.value, i.value)

/-- The token of a name of a request. -/
def sanToken : GeneralName → Except AcmeError (Str × Str)
  | .dns v => .ok (normalizeToken .dns v, v)
  | .ip a => .ok (normalizeToken .ip a.toStr, a.toStr)
  | .network n => .ok (normalizeToken .ip n.toStr, n.toStr)
  | _ => .error (badCsr "the CSR carries a subjectAltName cabin does not issue")

/-- The tokens of a request. -/
def sanTokens (csr : Leaf.Csr) : Except AcmeError Tokens := do
  refuse csr.malformed (badCsr "the CSR's extensions could not be read")
  (csr.subjectAlternativeName.getD []).mapM sanToken

/-- The common name of a request. -/
def csrCommonName (csr : Leaf.Csr) : Except AcmeError (Option Str) :=
  match (csr.subject.attributesForOid commonNameOid).head?.map NameAttribute.value with
  | none => .ok none
  | some (.text cn) => .ok (some cn)
  | some (.bits _) => .error (badCsr "the CSR's subject common name is not a text value")

/-- The common name is one of the identifiers. -/
def checkCommonName (ordered : Tokens) (cn : Str) : Except AcmeError Unit :=
  refuse (normalizeToken .dns cn ∉ ordered.map Prod.fst ∧ normalizeToken .ip cn ∉ ordered.map Prod.fst)
    (badCsr (s!"the CSR's subject common name is not one of the order's identifiers: " ++ echo cn))

/-- The names of the request are exactly those of the order. -/
def checkIdentifiers (csr : Leaf.Csr) (identifiers : List OrderIdentifier) :
    Except AcmeError Unit := do
  let ordered := identifierTokens identifiers
  let requested ← sanTokens csr
  let extra := requested.without ordered
  refuse (extra ≠ []) (badCsr ("the CSR asks for names this order did not authorize: " ++
    String.intercalate ", " (extra.map fun t => echo (requested.name t))))
  let missing := ordered.without requested
  refuse (missing ≠ []) (badCsr ("the CSR is missing names this order asked for: " ++
    String.intercalate ", " (missing.map fun t => echo (ordered.name t))))
  match ← csrCommonName csr with
  | none => pure ()
  | some cn => checkCommonName ordered cn

/-! ### What is accepted -/

/-- What the policy promises of a name. -/
structure Identifier.WellFormed (i : Identifier) : Prop where
  /-- A DNS name is without white space. -/
  dns : i.type = .dns → ∀ c ∈ i.value, Str.isSpace c = false
  /-- An address is in canonical form. -/
  ip : i.type = .ip → ∃ a : Ip, i.value = a.toStr
  /-- The wildcard flag is that of the stored name. -/
  wildcard : i.wildcard = i.asJson.wildcard
  /-- So is the base value. -/
  baseValue : i.baseValue = i.asJson.baseValue

variable {i : Identifier}

theorem dnsIdentifier_wellFormed {raw : Str} (h : dnsIdentifier raw = .ok i) : i.WellFormed := by
  simp only [dnsIdentifier, bind_eq_ok, refuse_eq_ok, pure_eq_ok, not_or] at h
  obtain ⟨-, ⟨-, hspace⟩, -, -, normalized, -, -, -, rfl⟩ := h
  constructor
  · intro _
    have hraw : ∀ c ∈ raw, Str.isSpace c = false := by simpa using hspace
    exact Str.isSpace_lower hraw
  · intro h
    cases h
  · simp [OrderIdentifier.wildcard, Identifier.asJson]
  · simp [OrderIdentifier.baseValue, OrderIdentifier.wildcard, Identifier.asJson]

theorem ipIdentifier_eq_ok {value : Str} : ipIdentifier value = .ok i ↔
    ∃ a, ipAddress value = some a ∧ i = ⟨.ip, a.toStr, a.toStr, false⟩ := by
  unfold ipIdentifier
  cases ipAddress value with
  | none => simp
  | some a => simp [eq_comm]

theorem ipIdentifier_wellFormed {value : Str} (h : ipIdentifier value = .ok i) : i.WellFormed := by
  obtain ⟨a, -, rfl⟩ := ipIdentifier_eq_ok.1 h
  exact ⟨(nomatch ·), fun _ => ⟨a, rfl⟩, rfl, rfl⟩

/-- What is accepted as a DNS name is a host name. -/
theorem isHostname_of_dnsIdentifier {raw : Str} (h : dnsIdentifier raw = .ok i) :
    i.type = .dns ∧ Leaf.isHostname i.value = true := by
  simp only [dnsIdentifier, bind_eq_ok, refuse_eq_ok, pure_eq_ok, not_not] at h
  obtain ⟨-, -, -, -, normalized, hnormalized, -, rfl, rfl⟩ := h
  cases hsan : Leaf.normalizeSan (Str.of "dns:" ++ Str.lower raw) with
  | error e =>
    rw [hsan] at hnormalized
    cases hnormalized
  | ok san =>
    rw [hsan] at hnormalized
    obtain rfl := Except.ok.inj hnormalized
    obtain ⟨kind, value, hcanonical, haccepts⟩ := Leaf.isCanonical_of_normalizeSan hsan
    obtain ⟨rfl, rfl⟩ := Leaf.canonical_injective hcanonical
    exact ⟨rfl, haccepts⟩

/-- An entry that is accepted is a DNS name or an address. -/
theorem parseIdentifier_cases {entry : Json} (h : parseIdentifier entry = .ok i) :
    (∃ raw, dnsIdentifier raw = .ok i) ∨ ∃ value, ipIdentifier value = .ok i := by
  unfold parseIdentifier at h
  split at h
  · split at h
    · cases h
    · split at h
      · split_ifs at h
        · exact .inl ⟨_, h⟩
        · exact .inr ⟨_, h⟩
      · cases h
  · cases h

theorem parseIdentifiers_spec {raw : Option Json} {is : List Identifier}
    (h : parseIdentifiers raw = .ok is) :
    is ≠ [] ∧ ∀ i ∈ is, (∃ raw, dnsIdentifier raw = .ok i) ∨ ∃ value, ipIdentifier value = .ok i := by
  unfold parseIdentifiers at h
  split at h
  · rename_i entries
    simp only [bind_eq_ok, refuse_eq_ok, pure_eq_ok] at h
    obtain ⟨-, hne, -, -, parsed, hparsed, rfl⟩ := h
    obtain ⟨hback, hforth⟩ := mem_of_mapM_eq_ok hparsed
    constructor
    · obtain ⟨entry, hentry⟩ := List.exists_mem_of_ne_nil entries hne
      obtain ⟨i, hi, -⟩ := hforth entry hentry
      exact List.ne_nil_of_mem (Str.mem_unique.2 hi)
    · intro i hi
      obtain ⟨entry, -, he⟩ := hback i (Str.mem_unique.1 hi)
      exact parseIdentifier_cases he
  · cases h

/-- What an order names is well formed, and it names something. -/
theorem parseIdentifiers_wellFormed {raw : Option Json} {is : List Identifier}
    (h : parseIdentifiers raw = .ok is) : is ≠ [] ∧ ∀ i ∈ is, i.WellFormed := by
  obtain ⟨hne, hcases⟩ := parseIdentifiers_spec h
  refine ⟨hne, fun i hi => ?_⟩
  rcases hcases i hi with ⟨raw, hraw⟩ | ⟨value, hvalue⟩
  · exact dnsIdentifier_wellFormed hraw
  · exact ipIdentifier_wellFormed hvalue

/-! ### Matching requests -/

theorem mem_without {t u : Tokens} {k : Str} :
    k ∈ t.without u ↔ k ∈ t.map Prod.fst ∧ k ∉ u.map Prod.fst := by
  rw [Tokens.without, List.mem_mergeSort, Str.mem_unique, List.mem_filter, decide_eq_true_iff]

/-- Every name of the order is a name of a request that matches it. -/
theorem mem_sanTokens_of_checkIdentifiers {csr : Leaf.Csr} {is : List OrderIdentifier}
    (h : checkIdentifiers csr is = .ok ()) {i : OrderIdentifier} (hi : i ∈ is) :
    ∃ tokens, sanTokens csr = .ok tokens ∧ normalizeToken i.type i.value ∈ tokens.map Prod.fst := by
  simp only [checkIdentifiers, bind_eq_ok, refuse_eq_ok, not_not] at h
  obtain ⟨requested, hreq, -, -, -, hmissing, -⟩ := h
  refine ⟨requested, hreq, ?_⟩
  by_contra hnot
  have hmem : normalizeToken i.type i.value ∈ (identifierTokens is).without requested :=
    mem_without.2 ⟨by simpa [identifierTokens] using ⟨i, hi, rfl⟩, hnot⟩
  rw [hmissing] at hmem
  cases hmem

theorem percent_notMem_ipText {v : Str} (h : 0x25 ∉ v) : 0x25 ∉ ipText v := by
  unfold ipText
  split
  · rename_i a ha
    exact Ip.percent_notMem_toStr (Ip.scope_of_ipAddress ha h)
  · intro hc
    obtain ⟨c, hc, hx⟩ := Str.mem_lower.1 hc
    rcases Str.eq_or_of_mem_lowerChar hx with rfl | hx | hx
    · exact h hc
    · omega
    · omega

/-- The address of a token of a request has no scope. -/
theorem percent_notMem_of_sanToken {g : GeneralName} (hg : g.encoded = g) {t : Str × Str}
    (h : sanToken g = .ok t) {x : Str} (hx : t.1 = Str.of "ip:" ++ x) : 0x25 ∉ x := by
  cases g with
  | dns v =>
    cases h
    have hhead : (Str.of "dns:" ++ Str.lower v).head? = (Str.of "ip:" ++ x).head? := by rw [← hx]; rfl
    cases hhead
  | ip a =>
    cases h
    obtain rfl : ipText a.toStr = x := List.append_cancel_left hx
    have hscope : a.scope = none := by
      have hpacked : a.packed = a := by simpa [GeneralName.encoded] using hg
      rw [← hpacked, Ip.scope_packed]
    exact percent_notMem_ipText (Ip.percent_notMem_toStr hscope)
  | network n =>
    cases h
    obtain rfl : ipText n.toStr = x := List.append_cancel_left hx
    exact percent_notMem_ipText n.percent_notMem_toStr
  | rfc822 v => cases h
  | other tag v => cases h

theorem percent_notMem_of_ipText {v : Str} (h : 0x25 ∉ ipText v) : 0x25 ∉ v := by
  unfold ipText at h
  split at h
  · rename_i a ha
    exact Ip.percent_notMem_of_scope ha (Ip.scope_of_percent_notMem h)
  · exact fun hv => h (Str.mem_lower.2 ⟨_, hv, by decide⟩)

/-- An order with a scoped address has no matching request: an address in a request has no scope. -/
theorem percent_notMem_of_checkIdentifiers {csr : Leaf.Csr} {is : List OrderIdentifier}
    (h : checkIdentifiers csr is = .ok ()) {i : OrderIdentifier} (hi : i ∈ is)
    (htype : i.type = .ip) : 0x25 ∉ i.value := by
  obtain ⟨tokens, htokens, hmem⟩ := mem_sanTokens_of_checkIdentifiers h hi
  simp only [sanTokens, bind_eq_ok] at htokens
  obtain ⟨-, -, htokens⟩ := htokens
  obtain ⟨t, ht, heq⟩ := List.mem_map.1 hmem
  obtain ⟨g, hg, htok⟩ := (mem_of_mapM_eq_ok htokens).1 t ht
  have htoken : t.1 = Str.of "ip:" ++ ipText i.value := by
    rw [heq, htype]
    rfl
  exact percent_notMem_of_ipText (percent_notMem_of_sanToken (csr.decoded g hg) htok htoken)

/-! ### Names of the certificate -/

/-- The entry of an identifier in the list of names to certify. -/
def OrderIdentifier.san (i : OrderIdentifier) : Str :=
  match i.type with
  | .ip => Leaf.canonical .ip i.value
  | .dns => Leaf.canonical .dns i.value

/-- The general name of an identifier of an order that a request matches. -/
theorem generalName_san {E : Crypto} {v : Str} {type : IdentifierType} {g : GeneralName}
    (hv : type = .ip → 0x25 ∉ v)
    (h : Leaf.generalName E (OrderIdentifier.san ⟨type, v⟩) = .ok g) :
    (⟨type, v⟩ : OrderIdentifier).generalName? = some g.encoded := by
  cases type with
  | dns =>
    simp only [OrderIdentifier.san, Leaf.generalName, Leaf.partition_canonical, Leaf.ofUpper_upper,
      Option.getD_some] at h
    split_ifs at h
    · cases h
      rfl
    · cases h
  | ip =>
    simp only [OrderIdentifier.san, Leaf.generalName, Leaf.partition_canonical, Leaf.ofUpper_upper,
      Option.getD_some] at h
    split at h
    · rename_i a ha
      cases h
      have hscope := Ip.scope_of_ipAddress ha (hv rfl)
      simp [OrderIdentifier.generalName?, ha, GeneralName.encoded, Ip.packed_of_scope hscope]
    · cases h

/-- A certificate with the names of an order, which a request has matched, has exactly these
names. -/
theorem names_of_order {E : Crypto} {is : List Identifier} {csr : Leaf.Csr}
    {explicit fromCsr resolved : List Str} {cn : Option Str} {names : List GeneralName}
    (hne : is ≠ []) (hwf : ∀ i ∈ is, i.WellFormed)
    (hcsr : checkIdentifiers csr (is.map Identifier.asJson) = .ok ())
    (he : ((is.map Identifier.asJson).map OrderIdentifier.san).mapM Leaf.normalizeSan = .ok explicit)
    (hr : Leaf.resolveSans explicit fromCsr cn = .ok resolved)
    (hn : resolved.mapM (Leaf.generalName E) = .ok names) :
    (∀ g, g ∈ names.map GeneralName.encoded ↔
      ∃ i ∈ is.map Identifier.asJson, i.generalName? = some g) ∧
    ∀ i ∈ is.map Identifier.asJson, ∃ g ∈ names.map GeneralName.encoded, i.generalName? = some g := by
  have hpercent : ∀ i ∈ is.map Identifier.asJson, i.type = .ip → 0x25 ∉ i.value :=
    fun i hi htype => percent_notMem_of_checkIdentifiers hcsr hi htype
  have hsan : ∀ i ∈ is.map Identifier.asJson, ∀ s, Leaf.normalizeSan i.san = .ok s → s = i.san := by
    intro i hi s hs
    obtain ⟨x, hx, rfl⟩ := List.mem_map.1 hi
    cases htype : x.type with
    | dns =>
      simp only [OrderIdentifier.san, Identifier.asJson, htype] at hs ⊢
      exact Leaf.eq_of_normalizeSan_canonical (Str.stripped_of_isSpace ((hwf x hx).dns htype)) hs
    | ip =>
      obtain ⟨a, ha⟩ := (hwf x hx).ip htype
      have hscope : a.scope = none :=
        Ip.scope_of_percent_notMem (ha ▸ hpercent _ hi htype)
      simp only [OrderIdentifier.san, Identifier.asJson, htype, ha] at hs ⊢
      exact Leaf.eq_of_normalizeSan_canonical (Str.stripped_of_isSpace (Ip.isSpace_toStr hscope)) hs
  obtain ⟨heback, heforth⟩ := mem_of_mapM_eq_ok he
  -- The names to certify are the entries of the order.
  have hresolved : ∀ s, s ∈ resolved ↔ ∃ i ∈ is.map Identifier.asJson, s = i.san := by
    have hexplicit : ∀ s, s ∈ explicit ↔ ∃ i ∈ is.map Identifier.asJson, s = i.san := by
      intro s
      constructor
      · intro hs
        obtain ⟨t, ht, hts⟩ := heback s hs
        obtain ⟨i, hi, rfl⟩ := List.mem_map.1 ht
        exact ⟨i, hi, hsan i hi s hts⟩
      · rintro ⟨i, hi, rfl⟩
        obtain ⟨s, hs, his⟩ := heforth i.san (List.mem_map_of_mem hi)
        exact hsan i hi s his ▸ hs
    have hexne : explicit ≠ [] := by
      obtain ⟨i, hi⟩ := List.exists_mem_of_ne_nil is hne
      exact List.ne_nil_of_mem ((hexplicit _).2 ⟨_, List.mem_map_of_mem hi, rfl⟩)
    simp only [Leaf.resolveSans, Leaf.chooseSans, hexne, ne_eq, not_false_eq_true, if_true,
      bind_eq_ok, pure_eq_ok, Except.ok.injEq] at hr
    obtain ⟨_, rfl, -, -, rfl⟩ := hr
    intro s
    rw [Str.mem_unique, hexplicit]
  obtain ⟨hnback, hnforth⟩ := mem_of_mapM_eq_ok hn
  have hname : ∀ i ∈ is.map Identifier.asJson, ∃ g ∈ names.map GeneralName.encoded,
      i.generalName? = some g := by
    intro i hi
    obtain ⟨g, hg, his⟩ := hnforth i.san ((hresolved _).2 ⟨i, hi, rfl⟩)
    exact ⟨g.encoded, List.mem_map_of_mem hg, generalName_san (hpercent i hi) his⟩
  refine ⟨fun g => ⟨fun hg => ?_, ?_⟩, hname⟩
  · obtain ⟨g₀, hg₀, rfl⟩ := List.mem_map.1 hg
    obtain ⟨s, hs, hsg⟩ := hnback g₀ hg₀
    obtain ⟨i, hi, rfl⟩ := (hresolved s).1 hs
    exact ⟨i, hi, generalName_san (hpercent i hi) hsg⟩
  · rintro ⟨i, hi, hig⟩
    obtain ⟨g', hg', hig'⟩ := hname i hi
    rw [hig] at hig'
    exact Option.some.inj hig' ▸ hg'

end Acme

end Cabin
