import Cabin.Ca.StoredNames
import Cabin.Tls.Manager

/-!
# The certificate of the instance settles

What `ensureCurrent` issues it compares with what is wanted at the next call.  It leaves a certificate alone
only if each name is read back from it as it was asked for, and if its issuer is not taken for itself:
`ReadsBack` is that condition on a state.

* `Made` is what a new certificate looks like, self-signed or not;
* `Inv` is the invariant, with `Holds` for the files and the newest event of the audit log;
* `ensure_current_settles` is the result over every run.
-/

namespace Cabin

namespace Tls

open X509 Leaf

/-! ### Names that are read back -/

/-- An entry that is read back from a certificate as it was asked for. -/
inductive Legible : Str → Prop
  | dns {value : Str} : Str.Stripped value → Legible (canonical .dns value)
  | ip {value : Str} {a : Ip} : Str.Stripped value → ipAddress value = some a → a.packed.toStr = value →
      Legible (canonical .ip value)

variable {E : Crypto} {U : Unicode} {hostname : Str} {d : Draw} {sans : List Str} {cn : Str}

theorem eq_of_legible {san san' : Str} (h : Legible san) (hs : normalizeSan san = .ok san') : san' = san := by
  cases h with
  | dns hvalue => exact eq_of_normalizeSan_canonical hvalue hs
  | ip hvalue => exact eq_of_normalizeSan_canonical hvalue hs

theorem explicit_of_legible {explicit : List Str} (h : ∀ san ∈ sans, Legible san)
    (he : sans.mapM normalizeSan = .ok explicit) : explicit = sans := by
  have hall := forall₂_of_mapM_eq_ok he
  clear he
  induction hall with
  | nil => rfl
  | cons hsan _ ih =>
    rw [eq_of_legible (h _ List.mem_cons_self) hsan, ih fun san hs => h san (List.mem_cons_of_mem _ hs)]

theorem sanString_of_legible {san : Str} {g : GeneralName} (h : Legible san)
    (hg : generalName E san = .ok g) : sanString g.encoded = some san := by
  cases h with
  | dns =>
    obtain ⟨-, rfl⟩ := generalName_eq_ok.1 hg
    rfl
  | ip _ ha htext =>
    obtain ⟨a', ha', rfl⟩ := generalName_eq_ok.1 hg
    obtain rfl := Option.some.inj (ha.symm.trans ha')
    simp only [GeneralName.encoded, sanString, htext]

/-- **Legible names are read back as a set.** -/
theorem sameNames_of_legible {explicit resolved : List Str} {names : List GeneralName}
    (h : ∀ san ∈ sans, Legible san) (hne : sans ≠ []) (he : sans.mapM normalizeSan = .ok explicit)
    (hr : resolveSans explicit [] (some cn) = .ok resolved) (hn : resolved.mapM (generalName E) = .ok names) :
    sameNames (sanStrings (names.map GeneralName.encoded)) sans = true := by
  obtain rfl := explicit_of_legible h he
  obtain ⟨chosen, hchosen, rfl⟩ := resolveSans_eq_ok hr
  rw [chooseSans, if_pos hne] at hchosen
  obtain rfl := Except.ok.inj hchosen
  have hread : (names.map GeneralName.encoded).filterMap sanString = Str.unique explicit := by
    have hlegible : ∀ san ∈ Str.unique explicit, Legible san := fun san hsan => h san (Str.mem_unique.1 hsan)
    have hall := forall₂_of_mapM_eq_ok hn
    clear hn hr
    generalize Str.unique explicit = resolved at hall hlegible
    induction hall with
    | nil => rfl
    | cons hg _ ih =>
      rw [List.map_cons, List.filterMap_cons_some (sanString_of_legible (hlegible _ List.mem_cons_self) hg),
        ih fun san hs => hlegible san (List.mem_cons_of_mem _ hs)]
  simp only [sameNames, sanStrings, hread, Bool.and_eq_true, List.all_eq_true, decide_eq_true_eq,
    Str.mem_unique]
  exact ⟨fun _ hs => hs, fun _ hs => hs⟩

/-! ### What is issued -/

/-- What a new certificate looks like: it is for this common name and these names, in the name of its
issuer, with this key. -/
structure Made (E : Crypto) (issuer : Option Cert) (cn : Str) (sans : List Str) (cert : Cert)
    (key : PrivateKey) : Prop where
  subject : cert.subject = [[⟨commonNameOid, .utf8, .text (Str.strip cn)⟩]]
  issuer : cert.issuer = (issuer.elim cert.subject Cert.subject)
  key : E.publicKey key = cert.publicKey
  malformed : cert.tbs.extensions.malformed = false
  names : ∃ explicit resolved names critical, sans.mapM normalizeSan = .ok explicit ∧
    resolveSans explicit [] (some (Str.strip cn)) = .ok resolved ∧
    resolved.mapM (generalName E) = .ok names ∧
    cert.tbs.extensions.subjectAlternativeName = some ⟨names.map GeneralName.encoded, critical⟩

theorem made_of_selfSigned {keyType : String} {days : ℤ} {cert : Cert} {key : PrivateKey}
    (h : selfSignedServerCertificate E d cn sans keyType days = .ok (cert, key)) :
    Made E none cn sans cert key := by
  simp only [selfSignedServerCertificate, bind_eq_ok, pure_eq_ok, Prod.mk.injEq] at h
  obtain ⟨cn', hcn, explicit, he, resolved, hr, k, -, name, hname, notAfter, -, names, hnames, c, hc, rfl, rfl⟩ := h
  obtain rfl := (validateCn_eq_ok.1 hcn).1
  obtain ⟨-, htbs, -⟩ := build_eq_ok hc
  have hsubject := eq_of_nameOfCommonName hname
  refine ⟨?_, ?_, ?_, ?_, explicit, resolved, names, false, he, hr, hnames, ?_⟩ <;>
    simp [Cert.subject, Cert.issuer, Cert.publicKey, htbs, encodeTbs, hsubject]

/-- What `buildLeaf` writes beside what `IsLeaf` says. -/
theorem buildLeaf_tbs {issuerCert cert : Cert} {issuerKey : PrivateKey} {pk : PublicKey} {cn : Option Str}
    {profile : Profile} {days : ℤ} {crlUrl caIssuersUrl : Option Str} {capped : Option ℤ}
    (h : buildLeaf E d issuerCert issuerKey pk cn sans profile days crlUrl caIssuersUrl = .ok (cert, capped)) :
    leafSubject cn = .ok cert.subject ∧ ∃ notAfter capped', clampValidity issuerCert days d.now =
      .ok (notAfter, capped') ∧ cert.tbs.notAfter = Instant.seconds notAfter := by
  simp only [buildLeaf, bind_eq_ok, pure_eq_ok, Prod.mk.injEq] at h
  obtain ⟨⟨notAfter, capped'⟩, hclamp, _, -, subject, hsubject, aki, -, names, -, c, hc, rfl, -⟩ := h
  obtain ⟨-, htbs, -⟩ := build_eq_ok hc
  refine ⟨?_, notAfter, capped', hclamp, ?_⟩
  · rw [hsubject, Cert.subject, htbs]
    rfl
  · rw [htbs]
    rfl

/-- What issuing for the instance stores. -/
theorem issueAndStore_made {db db' : Db} {id : ℕ} {issued : Certs.Issued}
    (h : Certs.issueAndStore E d db .system .server cn sans certDays "ecdsa-p256" (some id) .system =
      .ok (db', issued)) :
    ∃ issuer ∈ db.cas, issuer.id = id ∧ issued.row.issuerId = id ∧ db'.cas = db.cas ∧
      (∃ keySealed key, issuer.keySealed = some keySealed ∧ E.unsealKey keySealed = some key ∧
        E.verify (E.publicKey key) issued.row.cert.tbs issued.row.cert.signature = true) ∧
      (∃ leafKey, issued.row.keySealed = some (E.sealKey d.nonce leafKey) ∧
        Made E (some issuer.cert) cn sans issued.row.cert leafKey) ∧
      ∃ notAfter capped, clampValidity issuer.cert certDays d.now = .ok (notAfter, capped) ∧
        issued.row.cert.tbs.notAfter = Instant.seconds notAfter := by
  simp only [Certs.issueAndStore, bind_eq_ok, pure_eq_ok, Prod.mk.injEq] at h
  obtain ⟨issuer, hissuer, ⟨ic, ik⟩, hcred, ⟨c, k, cap⟩, hleaf, stored, -, keySealed, hsealed, ⟨db₁, row⟩, hstore,
    rfl, rfl⟩ := h
  obtain ⟨hmem, hid⟩ := resolveGrantedIssuer_mem hissuer
  obtain ⟨issuer', hmem', s, hid', rfl, hs, hkey⟩ := signingCredentials_eq_ok hcred
  obtain rfl : issuer' = issuer := Table.eq_of_key hmem' hmem hid'
  obtain ⟨cn', explicit, resolved, hcn, he, hr, hbuild⟩ := CertsUi.issueCertificate_steps hleaf
  obtain rfl := (validateCn_eq_ok.1 hcn).1
  obtain ⟨hspec, -, -⟩ := buildLeaf_spec hbuild
  obtain ⟨hsubject, hdates⟩ := buildLeaf_tbs hbuild
  obtain ⟨-, rfl, rfl⟩ := store_eq_ok hstore
  obtain ⟨-, rfl⟩ := sealKey_eq_ok.1 hsealed
  obtain ⟨names, critical, hnames, hext⟩ := hspec.names
  refine ⟨issuer', hmem, hid id rfl, hid id rfl, rfl, ⟨s, ik, hs, hkey, hspec.signed⟩, ⟨k, rfl, ?_⟩, hdates⟩
  exact ⟨eq_of_nameOfCommonName hsubject, hspec.issuer, hspec.publicKey.symm, hspec.malformed,
    explicit, resolved, names, critical, he, hr, hnames, hext⟩

/-! ### The condition -/

/-- The attribute with the name the certificate is for. -/
def nameAttribute (U : Unicode) (hostname baseUrl : Str) : NameAttribute :=
  ⟨commonNameOid, .utf8, .text (certName U hostname baseUrl)⟩

/-- The name is read back as it is asked for, and the issuer has another: the host name has no white space
around it, an address in the base URL is written as it is read, and the subject of the issuer is not that
name. -/
structure ReadsBack (U : Unicode) (hostname : Str) (s : State) : Prop where
  stripped : s.baseUrl = [] → Str.Stripped hostname
  address : s.baseUrl ≠ [] → ∀ a, ipAddress (hostOf U s.baseUrl) = some a →
    a.packed.toStr = hostOf U s.baseUrl
  issuer : ∀ row, (resolveTlsIssuer s).2 = some row →
    row.cert.subject.pyEq [[nameAttribute U hostname s.baseUrl]] = false

theorem mem_of_mem_hostinfo {netloc : Str} {c : ℕ} (h : c ∈ (Url.hostinfo netloc).1) : c ∈ netloc := by
  have hhost : ∀ {x : ℕ}, x ∈ Url.hostAndPort netloc → x ∈ netloc := fun hx =>
    (List.rtakeWhile_suffix _ _).subset hx
  unfold Url.hostinfo at h
  split at h
  · rename_i bracketed hpart
    obtain ⟨-, heq⟩ := Url.eq_of_partition hpart
    refine hhost (heq ▸ List.mem_append_right _ (List.mem_cons_of_mem _ (Url.mem_of_mem_partition_fst h)))
  · rename_i hpart
    obtain ⟨-, rfl⟩ := Url.eq_of_partition_none hpart
    exact hhost (Url.mem_of_mem_partition_fst h)

/-- There is no white space in the host of a base URL that has none. -/
theorem isSpace_hostOf (hU : U.Lawful) {baseUrl : Str} (h : ∀ c ∈ baseUrl, Str.isSpace c = false) :
    ∀ c ∈ hostOf U baseUrl, Str.isSpace c = false := by
  have hhost : ∀ c ∈ (Url.hostinfo (Url.parts baseUrl).netloc).1, Str.isSpace c = false := fun c hc =>
    h c ((Url.wellSplit_parts baseUrl).netloc_subset c (mem_of_mem_hostinfo hc))
  have hlower : ∀ {t : Str}, (∀ c ∈ t, Str.isSpace c = false) → ∀ c ∈ U.lower t, Str.isSpace c = false :=
    fun ht => (hU.lowered _).isSpace hU ht
  intro c hc
  unfold hostOf Url.SplitResult.hostname at hc
  split at hc
  · cases hc
  · split at hc
    · rename_i hpart
      obtain ⟨-, rfl⟩ := Url.eq_of_partition_none hpart
      exact hlower hhost c hc
    · rename_i host zone hpart
      obtain ⟨-, heq⟩ := Url.eq_of_partition hpart
      rw [heq] at hhost
      rcases List.mem_append.1 hc with hc | hc
      · exact hlower (fun x hx => hhost x (List.mem_append_left _ hx)) c hc
      · exact hhost c (List.mem_append_right _ hc)

/-- **What is wanted is legible** where the condition holds. -/
theorem legible_wantedNames (hU : U.Lawful) {s : State} (hspace : ∀ c ∈ s.baseUrl, Str.isSpace c = false)
    (h : ReadsBack U hostname s) (hw : wantedNames U hostname s.baseUrl = .ok (cn, sans)) :
    cn = certName U hostname s.baseUrl ∧ Str.Stripped cn ∧ sans ≠ [] ∧ ∀ san ∈ sans, Legible san := by
  unfold wantedNames at hw
  split_ifs at hw with hnil
  · split at hw
    · cases hw
    · rename_i split hsplit
      obtain ⟨-, rfl⟩ := Settings.urlsplit_eq_ok.1 hsplit
      obtain ⟨rfl, rfl⟩ := Prod.mk.inj (Except.ok.inj hw)
      have hstripped : Str.Stripped (hostOf U s.baseUrl) := Str.stripped_of_isSpace (isSpace_hostOf hU hspace)
      refine ⟨(if_pos hnil).symm, hstripped, List.cons_ne_nil _ _, fun san hsan => ?_⟩
      obtain rfl := List.mem_singleton.1 hsan
      split_ifs with hip
      · obtain ⟨a, ha⟩ := Option.isSome_iff_exists.1 hip
        exact .ip hstripped ha (h.address hnil a ha)
      · exact .dns hstripped
  · obtain ⟨rfl, rfl⟩ := Prod.mk.inj (Except.ok.inj hw)
    have hstripped := h.stripped (not_not.1 hnil)
    refine ⟨(if_neg hnil).symm, hstripped, fun hempty => ?_, fun san hsan => ?_⟩
    · have hmem : canonical .dns hostname ∈ ([] : List Str) := hempty ▸ Str.mem_unique.2 List.mem_cons_self
      cases hmem
    · rw [Str.mem_unique] at hsan
      simp only [List.mem_cons, List.not_mem_nil, or_false] at hsan
      rcases hsan with rfl | rfl | rfl | rfl
      · exact .dns hstripped
      · exact (show Str.of "DNS:localhost" = canonical .dns (Str.of "localhost") by decide) ▸
          .dns (Str.stripped_of_isSpace (by decide))
      · exact (show Str.of "IP:127.0.0.1" = canonical .ip (Str.of "127.0.0.1") by decide) ▸
          .ip (a := .v4 (Fin.ofNat _ (127 * 2 ^ 24 + 1))) (Str.stripped_of_isSpace (by decide))
            (by decide +kernel) (by decide +kernel)
      · exact (show Str.of "IP:::1" = canonical .ip (Str.of "::1") by decide) ▸
          .ip (a := .v6 1 none) (Str.stripped_of_isSpace (by decide)) (by decide +kernel) (by decide +kernel)

/-! ### What a call can do -/

/-- An issuance of a call. -/
structure Written (E : Crypto) (d : Draw) (cn : Str) (sans : List Str) (issuer : Option CaCertificate)
    (i : Issuance) : Prop where
  made : Made E (issuer.map CaCertificate.cert) cn sans i.cert i.key
  row : ∀ ca, issuer = some ca → ∃ row, i.row = some row ∧ row.issuerId = ca.id
  issued : ∀ ca, issuer = some ca → IssuedBy E i.cert ca.cert
  dates : ∀ ca, issuer = some ca → ∃ notAfter capped, clampValidity ca.cert certDays d.now =
    .ok (notAfter, capped) ∧ i.cert.tbs.notAfter = Instant.seconds notAfter

variable {db db' : Db} {issuer : Option CaCertificate} {i : Issuance} {s : State} {call : Call}

theorem issue_cas : (issue E d db cn sans issuer).1.cas = db.cas := by
  unfold issue
  split
  · rfl
  · split
    · rfl
    · obtain ⟨-, -, -, -, hcas, -⟩ := issueAndStore_made ‹_›
      exact hcas

theorem fromRow_eq_ok {id : ℕ} {issued : Certs.Issued} (h : fromRow E d db id issued = .ok i) :
    ∃ keySealed, issued.row.keySealed = some keySealed ∧ E.unsealKey keySealed = some i.key ∧
      i.cert = issued.row.cert ∧ i.row = some issued.row := by
  unfold fromRow at h
  split at h
  · cases h
  · rename_i keySealed hkey
    split at h
    · cases h
    · rename_i key hunseal
      split at h
      · cases h
      · simp only [bind_eq_ok, pure_eq_ok] at h
        obtain ⟨rows, -, rfl⟩ := h
        exact ⟨keySealed, hkey, hunseal, rfl, rfl⟩

/-- **What an issuance is**, where the table of issuers is sound. -/
theorem issue_spec (hsound : SoundTable E db.cas) (hmem : ∀ ca, issuer = some ca → ca ∈ db.cas)
    (h : issue E d db cn sans issuer = (db', .ok i)) : Written E d cn sans issuer i := by
  cases issuer with
  | none =>
    simp only [issue, Prod.mk.injEq] at h
    obtain ⟨-, h⟩ := h
    cases hself : selfSignedServerCertificate E d cn sans "ecdsa-p256" certDays with
    | error e =>
      rw [hself] at h
      cases h
    | ok made =>
      obtain ⟨cert, key⟩ := made
      rw [hself] at h
      obtain rfl := Except.ok.inj h
      refine ⟨made_of_selfSigned hself, ?_, ?_, ?_⟩ <;> exact fun ca hca => by cases hca
  | some ca =>
    simp only [issue] at h
    split at h
    · cases (Prod.mk.inj h).2
    · rename_i db₁ issued hissued
      obtain ⟨-, hread⟩ := Prod.mk.inj h
      obtain ⟨keySealed, hkey, hunseal, hcert, hrow⟩ := fromRow_eq_ok hread
      obtain ⟨ca', hmem', hid, hissuer, -, ⟨s, k, hs, hk, hverify⟩, ⟨leafKey, hleaf, hmade⟩, hdates⟩ :=
        issueAndStore_made hissued
      obtain rfl : ca' = ca := Table.eq_of_key hmem' (hmem ca rfl) hid
      obtain ⟨k', hk', hpublic⟩ := (hsound ca' hmem').key s hs
      obtain rfl := Option.some.inj (hk'.symm.trans hk)
      obtain rfl := Option.some.inj (hleaf.symm.trans hkey)
      obtain rfl := Option.some.inj ((E.unsealKey_sealKey _ _).symm.trans hunseal)
      refine ⟨hcert ▸ hmade, ?_, ?_, ?_⟩ <;> (intro ca hca; obtain rfl := Option.some.inj hca)
      · exact ⟨issued.row, hrow, hissuer⟩
      · rw [hcert]
        exact ⟨hmade.issuer, hpublic ▸ hverify⟩
      · rw [hcert]
        exact hdates

/-- A call that issued a certificate. -/
structure Wrote (E : Crypto) (U : Unicode) (hostname : Str) (call : Call) (s : State) (cn : Str)
    (sans : List Str) (i : Issuance) (s' : State) : Prop where
  wanted : wantedNames U hostname s.baseUrl = .ok (cn, sans)
  issuance : (issue E call.draw s.db cn sans (resolveTlsIssuer s).2).2 = .ok i
  current : ∃ current, loadCurrent E s.files = .ok current ∧
    ¬ ((resolveTlsIssuer s).2 = none ∧ current.map Material.mode = some .caIssued) ∧
    keepsCurrent E call.checkedAt current cn sans (resolveTlsIssuer s).2 = .ok false
  files : s'.files = some ⟨i.cert, i.chain, E.sealKey call.draw.nonce i.key⟩
  issued : s'.issued =
    ⟨targetMode (resolveTlsIssuer s).2, cn, sans, i.cert.notValidAfter, i.row, i.cappedFrom⟩ :: s.issued
  issuerId : s'.issuerId = (resolveTlsIssuer s).1

/-- **What a call can do**: it issues a certificate, or it leaves the files alone. -/
theorem ensureCurrent_cases :
    (ensureCurrent E U hostname call s).1.baseUrl = s.baseUrl ∧
    (ensureCurrent E U hostname call s).1.db.cas = s.db.cas ∧
    (((ensureCurrent E U hostname call s).2 ≠ .ok true ∧
      (ensureCurrent E U hostname call s).1.files = s.files ∧
      (ensureCurrent E U hostname call s).1.issued = s.issued) ∨
    ((ensureCurrent E U hostname call s).2 = .ok true ∧
      ∃ cn sans i, Wrote E U hostname call s cn sans i (ensureCurrent E U hostname call s).1)) := by
  unfold ensureCurrent
  split
  · exact ⟨rfl, rfl, .inl ⟨nofun, rfl, rfl⟩⟩
  · rename_i current hload
    dsimp only
    split
    · exact ⟨rfl, rfl, .inl ⟨nofun, rfl, rfl⟩⟩
    · rename_i cn sans hwanted
      split_ifs with hgiven
      · exact ⟨rfl, rfl, .inl ⟨nofun, rfl, rfl⟩⟩
      · split
        · exact ⟨rfl, rfl, .inl ⟨nofun, rfl, rfl⟩⟩
        · exact ⟨rfl, rfl, .inl ⟨nofun, rfl, rfl⟩⟩
        · rename_i hkeeps
          unfold replaceCurrent
          dsimp only
          split
          · rename_i db e hissue
            have hcas : db.cas = s.db.cas := (congrArg (fun r => r.1.cas) hissue).symm.trans issue_cas
            split_ifs <;> exact ⟨rfl, hcas, .inl ⟨nofun, rfl, rfl⟩⟩
          · rename_i db i hissue
            have hcas : db.cas = s.db.cas := (congrArg (fun r => r.1.cas) hissue).symm.trans issue_cas
            exact ⟨rfl, hcas, .inr ⟨rfl, cn, sans, i, hwanted, congrArg Prod.snd hissue,
              ⟨current, hload, hgiven, hkeeps⟩, rfl, rfl, rfl⟩⟩

/-! ### The invariant -/

/-- The files hold what this event is about. -/
structure Holds (E : Crypto) (cas : CaTable) (f : Files) (e : IssuedEvent) : Prop where
  key : ∃ key, E.unsealKey f.keySealed = some key ∧ E.publicKey key = f.cert.publicKey
  malformed : f.cert.tbs.extensions.malformed = false
  subjectCn : subjectCn E f.cert = e.subjectCn
  sans : ∃ ext, f.cert.tbs.extensions.subjectAlternativeName = some ext ∧
    sameNames (sanStrings ext.value) e.sans = true
  mode : modeOf f.cert = e.mode
  notAfter : e.notAfter = f.cert.notValidAfter
  issued : e.mode = .caIssued → ∃ row, e.row = some row ∧ ∃ ca ∈ cas, ca.id = row.issuerId ∧ IssuedBy E f.cert ca.cert

/-- An issued certificate is followed by issued certificates only. -/
def NeverGivenUp (issued : List IssuedEvent) : Prop :=
  issued.Pairwise fun newer older => older.mode = .caIssued → newer.mode = .caIssued

/-- **The invariant.** -/
structure Inv (E : Crypto) (s : State) : Prop where
  sound : SoundTable E s.db.cas
  space : ∀ c ∈ s.baseUrl, Str.isSpace c = false
  files : ∀ f, s.files = some f → ∃ e ∈ s.issued.head?, Holds E s.db.cas f e
  absent : s.files = none → s.issued = []
  kept : NeverGivenUp s.issued

theorem Holds.keep {cas cas' : CaTable} {f : Files} {e : IssuedEvent} (h : Holds E cas f e)
    (hk : Keeps cas cas') : Holds E cas' f e where
  key := h.key
  malformed := h.malformed
  subjectCn := h.subjectCn
  sans := h.sans
  mode := h.mode
  notAfter := h.notAfter
  issued := fun hmode => by
    obtain ⟨row, hrow, ca, hmem, hid, hissued⟩ := h.issued hmode
    obtain ⟨ca', hmem', hc⟩ := hk ca hmem
    exact ⟨row, hrow, ca', hmem', hc.id.trans hid, hissued.congr hc.cert.subject hc.cert.publicKey⟩

/-- What is read from files that hold what an event is about. -/
def Holds.material (f : Files) (key : PrivateKey) (sans : List Str) (e : IssuedEvent) : Material :=
  { cert := f.cert, key, mode := e.mode, subjectCn := e.subjectCn, sans, notAfter := f.cert.notValidAfter }

theorem Holds.load {cas : CaTable} {f : Files} {e : IssuedEvent} (h : Holds E cas f e) :
    ∃ key sans, loadCurrent E (some f) = .ok (some (material f key sans e)) ∧ sameNames sans e.sans = true := by
  obtain ⟨key, hunseal, hpublic⟩ := h.key
  obtain ⟨ext, hext, hsame⟩ := h.sans
  have hsan : f.cert.extension? Extensions.subjectAlternativeName = .ok (some ext) :=
    Cert.extension?_eq_ok.2 ⟨h.malformed, hext⟩
  refine ⟨key, sanStrings ext.value, ?_, hsame⟩
  simp only [loadCurrent, hunseal, hpublic, ne_eq, not_true_eq_false, if_false, hsan, h.mode, h.subjectCn]
  rfl

/-- A name equals itself. -/
theorem pyEq_refl (n : Name) : n.pyEq n = true := by
  simp only [Name.pyEq, beq_self_eq_true, Bool.true_and, List.all_eq_true, Bool.and_eq_true, List.any_eq_true]
  rintro ⟨r, r'⟩ hmem
  obtain rfl : r = r' := by
    induction n with
    | nil => cases hmem
    | cons r₀ n ih =>
      rcases List.mem_cons.1 (List.zip_cons_cons ▸ hmem) with heq | hmem
      · exact (Prod.mk.inj heq).1.trans (Prod.mk.inj heq).2.symm
      · exact ih hmem
  exact ⟨fun x hx => ⟨x, hx, by simp [NameAttribute.pyEq]⟩, fun x hx => ⟨x, hx, by simp [NameAttribute.pyEq]⟩⟩

/-- **What is written is read back.** -/
theorem holds_of_written {cas : CaTable} {capped : Option ℤ} (hU : U.Lawful)
    (hspace : ∀ c ∈ s.baseUrl, Str.isSpace c = false) (hread : ReadsBack U hostname s)
    (hmem : ∀ ca, (resolveTlsIssuer s).2 = some ca → ca ∈ cas)
    (hwanted : wantedNames U hostname s.baseUrl = .ok (cn, sans))
    (h : Written E d cn sans (resolveTlsIssuer s).2 i) :
    Holds E cas ⟨i.cert, i.chain, E.sealKey d.nonce i.key⟩
      ⟨targetMode (resolveTlsIssuer s).2, cn, sans, i.cert.notValidAfter, i.row, capped⟩ := by
  obtain ⟨hcn, hstripped, hne, hlegible⟩ := legible_wantedNames hU hspace hread hwanted
  have hsubject := h.made.subject
  rw [Str.strip_of_stripped hstripped] at hsubject
  obtain ⟨explicit, resolved, names, critical, he, hr, hn, hext⟩ := h.made.names
  refine
    { key := ⟨i.key, E.unsealKey_sealKey _ _, h.made.key⟩
      malformed := h.made.malformed
      subjectCn := ?_
      sans := ⟨_, hext, sameNames_of_legible hlegible hne he hr hn⟩
      mode := ?_
      notAfter := rfl
      issued := fun hmode => ?_ }
  · rw [subjectCn, hsubject]
    rfl
  · have hissuer := h.made.issuer
    have hother := hread.issuer
    cases hresolved : (resolveTlsIssuer s).2 with
    | none =>
      rw [hresolved] at hissuer
      exact if_pos (hissuer ▸ pyEq_refl i.cert.subject)
    | some ca =>
      have hne := hother ca hresolved
      rw [hresolved] at hissuer
      rw [nameAttribute, ← hcn, ← hsubject] at hne
      refine if_neg fun heq => ?_
      rw [hissuer] at heq
      exact Bool.false_ne_true (hne.symm.trans heq)
  · cases hresolved : (resolveTlsIssuer s).2 with
    | none =>
      rw [hresolved] at hmode
      cases hmode
    | some ca =>
      obtain ⟨row, hrow, hid⟩ := h.row ca hresolved
      exact ⟨row, hrow, ca, hmem ca hresolved, hid.symm, h.issued ca hresolved⟩

/-! ### Steps -/

theorem resolveTlsIssuer_mem {ca : CaCertificate} (h : (resolveTlsIssuer s).2 = some ca) :
    ca ∈ s.db.cas ∧ ca.kind = .intermediate ∧ ca.status = .active := by
  unfold resolveTlsIssuer at h
  split at h
  · obtain ⟨hget, hactive⟩ := Option.filter_eq_some_iff.1 h
    obtain ⟨id, -, hget⟩ := Option.bind_eq_some_iff.1 hget
    simp only [Bool.and_eq_true, beq_iff_eq] at hactive
    exact ⟨(Table.get?_eq_some.1 hget).1, hactive⟩
  · split at h
    · rename_i issuer hissuers
      obtain rfl := Option.some.inj h
      exact Service.mem_activeIssuers.1 (hissuers ▸ List.mem_singleton_self issuer)
    · cases h

/-- The issuer that is written down is the one that is found again. -/
theorem resolveTlsIssuer_stable {later : State} (hid : later.issuerId = (resolveTlsIssuer s).1)
    (hcas : later.db.cas = s.db.cas) : resolveTlsIssuer later = resolveTlsIssuer s := by
  cases hs : s.issuerId with
  | bound id =>
    have hfst : (resolveTlsIssuer s).1 = .bound id := by
      simp only [resolveTlsIssuer, hs]
    rw [hfst] at hid
    simp only [resolveTlsIssuer, hid, hs, hcas]
  | unset =>
    have hsame : ∀ t : State, t.issuerId = .unset → t.db.cas = s.db.cas → resolveTlsIssuer t = resolveTlsIssuer s := by
      intro t ht ht'
      simp only [resolveTlsIssuer, ht, ht', hs]
    by_cases hone : ∃ issuer, Service.activeIssuers s.db.cas = [issuer]
    · obtain ⟨issuer, hissuers⟩ := hone
      have hresolved : resolveTlsIssuer s = (.bound (some issuer.id), some issuer) := by
        simp only [resolveTlsIssuer, hs, hissuers]
      obtain ⟨hmem, hkind, hstatus⟩ :=
        Service.mem_activeIssuers.1 (hissuers ▸ List.mem_singleton_self issuer)
      have hget : s.db.cas.get? issuer.id = some issuer := Table.get?_key hmem
      rw [hresolved] at hid ⊢
      simp only [resolveTlsIssuer, hid, hcas, Option.bind_some, hget]
      simp [Option.filter, hkind, hstatus]
    · have hunset : (resolveTlsIssuer s).1 = .unset := by
        simp only [resolveTlsIssuer, hs]
        split
        · exact absurd ⟨_, ‹_›⟩ hone
        · rfl
      exact hsame later (hid.trans hunset) hcas

/-- The kind of certificate that is there, where the invariant holds. -/
theorem Inv.served (h : Inv E s) {current : Option Material} (hload : loadCurrent E s.files = .ok current) :
    current.map Material.mode = s.issued.head?.map IssuedEvent.mode := by
  cases hfiles : s.files with
  | none =>
    rw [hfiles] at hload
    obtain rfl := Except.ok.inj hload
    rw [h.absent hfiles]
    rfl
  | some f =>
    obtain ⟨e, he, hholds⟩ := h.files f hfiles
    obtain ⟨key, sans, hmaterial, -⟩ := hholds.load
    rw [hfiles, hmaterial] at hload
    obtain rfl := Except.ok.inj hload
    rw [Option.mem_def.1 he]
    rfl

/-- What is issued where the newest certificate is not given up. -/
theorem NeverGivenUp.cons {issued : List IssuedEvent} {e : IssuedEvent} (h : NeverGivenUp issued)
    (hnew : e.mode = .selfSigned → issued.head?.map IssuedEvent.mode ≠ some .caIssued) :
    NeverGivenUp (e :: issued) := by
  refine List.pairwise_cons.2 ⟨fun older holder hmode => ?_, h⟩
  cases hself : e.mode with
  | caIssued => rfl
  | selfSigned =>
    have hhead := hnew hself
    cases issued with
    | nil => cases holder
    | cons newest rest =>
      rcases List.mem_cons.1 holder with rfl | hrest
      · exact absurd (congrArg some hmode) hhead
      · exact absurd (congrArg some ((List.pairwise_cons.1 h).1 older hrest hmode)) hhead

/-- **A call keeps the invariant** where the condition holds. -/
theorem Inv.ensure (hU : U.Lawful) (h : Inv E s) (hread : ReadsBack U hostname s) :
    Inv E (ensureCurrent E U hostname call s).1 := by
  obtain ⟨hbase, hcas, ⟨-, hfiles, hissued⟩ | ⟨-, cn, sans, i, hwrote⟩⟩ :=
    @ensureCurrent_cases E U hostname s call
  · exact
      { sound := hcas ▸ h.sound
        space := hbase ▸ h.space
        files := by rw [hfiles, hissued, hcas]; exact h.files
        absent := by rw [hfiles, hissued]; exact h.absent
        kept := hissued ▸ h.kept }
  · have hmem : ∀ ca, (resolveTlsIssuer s).2 = some ca → ca ∈ s.db.cas := fun ca hca =>
      (resolveTlsIssuer_mem hca).1
    have hissue : issue E call.draw s.db cn sans (resolveTlsIssuer s).2 =
        ((issue E call.draw s.db cn sans (resolveTlsIssuer s).2).1, .ok i) := by
      rw [← hwrote.issuance]
    have hwritten := issue_spec h.sound hmem hissue
    obtain ⟨current, hload, hgiven, -⟩ := hwrote.current
    refine
      { sound := hcas ▸ h.sound
        space := hbase ▸ h.space
        files := fun f hf => ?_
        absent := fun hf => absurd (hwrote.files.symm.trans hf) (Option.some_ne_none _)
        kept := ?_ }
    · rw [hwrote.files] at hf
      obtain rfl := Option.some.inj hf
      rw [hwrote.issued, hcas]
      exact ⟨_, rfl, holds_of_written hU h.space hread hmem hwrote.wanted hwritten⟩
    · rw [hwrote.issued]
      refine h.kept.cons fun hself hhead => hgiven ⟨?_, (h.served hload).trans hhead⟩
      cases hissuer : (resolveTlsIssuer s).2 with
      | none => rfl
      | some ca =>
        rw [hissuer] at hself
        cases hself

/-- **Every step keeps the invariant**, each call where the condition holds. -/
theorem Inv.step (hU : U.Lawful) {a : Action} {s' : State} (h : Inv E s)
    (hc : ∀ call, a = .ensure call → ReadsBack U hostname s)
    (hstep : (machine E U hostname).step s a = some s') : Inv E s' := by
  obtain rfl := Option.some.inj hstep
  cases a with
  | ca op d =>
    have hwrite : Write E s.db (op.run E d s.db).1 := caMachine_step (a := (op, d)) rfl
    have hkeeps := keeps_of_write hwrite
    exact
      { sound := sound_of_write hwrite h.sound
        space := h.space
        files := fun f hf => by
          obtain ⟨e, he, hholds⟩ := h.files f hf
          exact ⟨e, he, hholds.keep hkeeps⟩
        absent := h.absent
        kept := h.kept }
  | saveBaseUrl raw =>
    simp only [Action.run]
    split
    · rename_i url hurl
      refine { sound := h.sound, space := ?_, files := h.files, absent := h.absent, kept := h.kept }
      rcases (Settings.validateBaseUrl_eq_ok hU).1 hurl with ⟨-, rfl⟩ | ⟨-, hparsed, rfl⟩
      · exact fun c hc => absurd hc List.not_mem_nil
      · exact hparsed.isSpace_shown hU
    · exact h
  | bindIssuer issuerId => exact ⟨h.sound, h.space, h.files, h.absent, h.kept⟩
  | restart => exact ⟨h.sound, h.space, h.files, h.absent, h.kept⟩
  | ensure call => exact h.ensure hU (hc call rfl)

theorem inv_start : Inv E .start where
  sound := fun _ hr => absurd hr Table.not_mem_empty
  space := fun _ hc => absurd hc List.not_mem_nil
  files := fun f hf => absurd hf.symm (Option.some_ne_none f)
  absent := fun _ => rfl
  kept := List.Pairwise.nil

/-- Runs whose calls all meet the condition. -/
def Careful (U : Unicode) (hostname : Str) (s : State) (a : Action) : Prop :=
  ∀ call, a = .ensure call → ReadsBack U hostname s

theorem inv_of_reach (hU : U.Lawful) (h : (machine E U hostname).Reach (Careful U hostname) .start s) :
    Inv E s :=
  h.invariant inv_start fun _ _ _ hi hc hstep => hi.step hU hc hstep

/-! ### Later calls -/

theorem isOk_of_issuedBy {cert : Cert} {ca : CaCertificate} (hknows : ∀ k, E.knowsKey (E.publicKey k) = true)
    (hsound : Sound E db.cas ca) (hkind : ca.kind = .intermediate) (h : IssuedBy E cert ca.cert) :
    (verifyDirectlyIssuedBy E cert ca.cert).isOk = true := by
  have hkey : E.knowsKey ca.cert.publicKey = true := by
    cases hsealed : ca.keySealed with
    | none =>
      cases hsound.shape with
      | intermediate _ _ _ _ _ keySealed => exact absurd hsealed keySealed
      | root kind => exact absurd (kind.symm.trans hkind) (by decide)
      | cross kind => exact absurd (kind.symm.trans hkind) (by decide)
    | some sealed =>
      obtain ⟨k, -, hpublic⟩ := hsound.key sealed hsealed
      rw [← hpublic]
      exact hknows k
  have hok : verifyDirectlyIssuedBy E cert ca.cert = .ok () := verifyDirectlyIssuedBy_eq_ok.2 ⟨h, hkey⟩
  rw [hok]
  rfl

/-- The certificate that is there is what is wanted. -/
theorem sameIssuer_of_holds {f : Files} {e : IssuedEvent} {key : PrivateKey} {names : List Str}
    (hknows : ∀ k, E.knowsKey (E.publicKey k) = true) (hsound : SoundTable E s.db.cas)
    (hholds : Holds E s.db.cas f e) (hmode : e.mode = targetMode (resolveTlsIssuer s).2)
    (hissuer : ∀ row ca, e.row = some row → (resolveTlsIssuer s).2 = some ca → row.issuerId = ca.id) :
    sameIssuer E (Holds.material f key names e) (resolveTlsIssuer s).2 = true := by
  cases hresolved : (resolveTlsIssuer s).2 with
  | none =>
    rw [hresolved] at hmode
    exact beq_iff_eq.2 hmode
  | some ca =>
    rw [hresolved] at hmode
    obtain ⟨row, hrow, ca', hmem', hid', hissued⟩ := hholds.issued hmode
    obtain ⟨hmem, hkind, -⟩ := resolveTlsIssuer_mem hresolved
    obtain rfl : ca' = ca := Table.eq_of_key hmem' hmem (hid'.trans (hissuer row ca hrow hresolved))
    exact Bool.and_eq_true_iff.2 ⟨beq_iff_eq.2 hmode, isOk_of_issuedBy hknows (hsound ca' hmem) hkind hissued⟩

/-- A call that finds what it wants leaves it alone until it is to be renewed. -/
theorem ensureCurrent_quiet {f : Files} {e : IssuedEvent} (hknows : ∀ k, E.knowsKey (E.publicKey k) = true)
    (hsound : SoundTable E s.db.cas) (hfiles : s.files = some f) (hholds : Holds E s.db.cas f e)
    (hwanted : wantedNames U hostname s.baseUrl = .ok (e.subjectCn, e.sans))
    (hmode : e.mode = targetMode (resolveTlsIssuer s).2) (hid : (resolveTlsIssuer s).1 = s.issuerId)
    (hissuer : ∀ row ca, e.row = some row → (resolveTlsIssuer s).2 = some ca → row.issuerId = ca.id)
    (hnow : call.checkedAt < f.cert.notValidAfter - renewBefore) :
    ensureCurrent E U hostname call s = ({ s with mode := some e.mode }, .ok false) := by
  obtain ⟨key, names, hload, hnames⟩ := hholds.load
  have hsame := @sameIssuer_of_holds E _ _ _ key names hknows hsound hholds hmode hissuer
  have hkeeps : keepsCurrent E call.checkedAt (some (Holds.material f key names e)) e.subjectCn e.sans
      (resolveTlsIssuer s).2 = .ok true := by
    simp only [keepsCurrent, hsame]
    rw [if_neg, if_pos]
    · exact hnow
    · simp [Holds.material, hnames]
  have hgiven : ¬ ((resolveTlsIssuer s).2 = none ∧ some e.mode = some .caIssued) := by
    rintro ⟨hnone, hca⟩
    rw [hnone] at hmode
    rw [hmode] at hca
    cases hca
  have hunmoded : ∀ mode, resolveTlsIssuer { s with mode } = resolveTlsIssuer s := fun _ => rfl
  rw [← hfiles] at hload
  simp only [ensureCurrent, hload, hwanted, Option.map_some, hunmoded]
  rw [show (Holds.material f key names e).mode = e.mode from rfl, if_neg hgiven, hkeeps, hid]

/-- A certificate that is replaced for its age only is replaced by one that is good for longer. -/
theorem gain_of_keepsCurrent {f : Files} {e : IssuedEvent} {key : PrivateKey} {names : List Str}
    {ca : CaCertificate} {cert : Cert} {notAfter : ℤ} {capped : Option ℤ}
    (hsame : sameIssuer E (Holds.material f key names e) (some ca) = true)
    (hnames : sameNames names e.sans = true) (hclock : call.checkedAt ≤ call.draw.now)
    (hkeeps : keepsCurrent E call.checkedAt (some (Holds.material f key names e)) e.subjectCn e.sans (some ca) =
      .ok false)
    (hclamp : clampValidity ca.cert certDays call.draw.now = .ok (notAfter, capped))
    (hcert : cert.tbs.notAfter = Instant.seconds notAfter) :
    f.cert.notValidAfter + minRenewalGain ≤ cert.notValidAfter := by
  obtain ⟨-, hnotAfter, -⟩ := Leaf.clampValidity_eq_ok.1 hclamp
  have hgain : minRenewalGain ≤
      min (call.checkedAt + Instant.days certDays) ca.cert.notValidAfter - f.cert.notValidAfter := by
    simp only [keepsCurrent, hsame] at hkeeps
    rw [if_neg (by simp [Holds.material, hnames])] at hkeeps
    split_ifs at hkeeps
    · cases hkeeps
    · simp only [bind_eq_ok, addDays_eq_ok, pure_eq_ok, decide_eq_false_iff_not, not_lt] at hkeeps
      obtain ⟨_, ⟨-, rfl⟩, hgain⟩ := hkeeps
      exact hgain
  have hlater : min (call.checkedAt + Instant.days certDays) ca.cert.notValidAfter ≤ notAfter := by
    rw [hnotAfter]
    exact min_le_min_right _ (Int.add_le_add_right hclock _)
  -- The end of a certificate and the gain are whole seconds.
  simp only [Cert.notValidAfter, hcert, minRenewalGain, Instant.ofSeconds, Instant.seconds, Instant.days] at *
  omega

/-! ### The result -/

/-- What holds of the calls from a state. -/
structure Settles (E : Crypto) (U : Unicode) (hostname : Str) (s : State) : Prop where
  /-- A call that issued a certificate is followed by calls that leave it alone, as long as the settings, the
  rows of the CA and the files are what they were after it. -/
  quiet : ∀ call f, ReadsBack U hostname s → (ensureCurrent E U hostname call s).2 = .ok true →
    (ensureCurrent E U hostname call s).1.files = some f → ∀ later : State,
    later.baseUrl = (ensureCurrent E U hostname call s).1.baseUrl →
    later.issuerId = (ensureCurrent E U hostname call s).1.issuerId →
    later.db.cas = (ensureCurrent E U hostname call s).1.db.cas → later.files = some f →
    ∀ call', call'.checkedAt < f.cert.notValidAfter - renewBefore →
      ∃ mode, ensureCurrent E U hostname call' later = ({ later with mode }, .ok false)
  /-- Where the names and the issuer are what they were, an issued certificate is only replaced by one that
  is good for longer. -/
  gain : ∀ call e f f' ca, s.issued.head? = some e → e.mode = .caIssued → s.files = some f →
    wantedNames U hostname s.baseUrl = .ok (e.subjectCn, e.sans) → (resolveTlsIssuer s).2 = some ca →
    (∀ row, e.row = some row → row.issuerId = ca.id) → call.checkedAt ≤ call.draw.now →
    (ensureCurrent E U hostname call s).2 = .ok true → (ensureCurrent E U hostname call s).1.files = some f' →
    f.cert.notValidAfter + minRenewalGain ≤ f'.cert.notValidAfter
  /-- What is in the files was issued last. -/
  newest : ∀ f, s.files = some f → ∃ e, s.issued.head? = some e ∧ modeOf f.cert = e.mode ∧
    e.notAfter = f.cert.notValidAfter
  /-- An issued certificate is never given up for a self-signed one. -/
  kept : NeverGivenUp s.issued

/-- **`ensure_current` settles**, in every run whose calls find a name that is read back as it is asked for
and an issuer that has another: a call that issued a certificate is followed by calls that leave it alone,
one that is replaced early is replaced for a gain, and an issued one is never given up.  The keys the library
holds are keys it knows. -/
theorem ensure_current_settles (E : Crypto) (U : Unicode) (hostname : Str) (hU : U.Lawful)
    (hknows : ∀ k, E.knowsKey (E.publicKey k) = true) (s : State)
    (h : (machine E U hostname).Reach (Careful U hostname) .start s) : Settles E U hostname s := by
  have hinv := inv_of_reach hU h
  have hmem : ∀ ca, (resolveTlsIssuer s).2 = some ca → ca ∈ s.db.cas := fun ca hca =>
    (resolveTlsIssuer_mem hca).1
  refine { quiet := ?_, gain := ?_, newest := ?_, kept := hinv.kept }
  · intro call f hread htrue hfiles later hbase hid hcas hlater call' hnow
    obtain ⟨hbase', hcas', ⟨hfalse, -⟩ | ⟨-, cn, sans, i, hwrote⟩⟩ :=
      @ensureCurrent_cases E U hostname s call
    · exact absurd htrue hfalse
    · have hwritten := issue_spec hinv.sound hmem (Prod.ext rfl hwrote.issuance)
      obtain rfl := Option.some.inj (hwrote.files.symm.trans hfiles)
      have hresolved : resolveTlsIssuer later = resolveTlsIssuer s :=
        resolveTlsIssuer_stable (hid.trans hwrote.issuerId) (hcas.trans hcas')
      have hholds := @holds_of_written E U hostname _ _ _ _ _ _ i.cappedFrom hU hinv.space hread hmem hwrote.wanted
        hwritten
      rw [← hcas', ← hcas] at hholds
      refine ⟨_, ensureCurrent_quiet hknows (hcas ▸ hcas' ▸ hinv.sound) hlater hholds ?_ ?_ ?_ ?_ hnow⟩
      · rw [hbase, hbase', hwrote.wanted]
      · rw [hresolved]
      · rw [hresolved, hid, hwrote.issuerId]
      · rintro row ca hrow hca
        obtain ⟨row', hrow', hid'⟩ := hwritten.row ca (hresolved ▸ hca)
        obtain rfl := Option.some.inj (hrow'.symm.trans hrow)
        exact hid'
  · intro call e f f' ca he hmode hfiles hwanted hca hissuer hclock htrue hfiles'
    obtain ⟨e', he', hholds⟩ := hinv.files f hfiles
    obtain rfl := Option.some.inj (he'.symm.trans he)
    obtain ⟨-, -, ⟨hfalse, -⟩ | ⟨-, cn, sans, i, hwrote⟩⟩ :=
      @ensureCurrent_cases E U hostname s call
    · exact absurd htrue hfalse
    · have hwritten := issue_spec hinv.sound hmem (Prod.ext rfl hwrote.issuance)
      obtain rfl := Option.some.inj (hwrote.files.symm.trans hfiles')
      obtain ⟨rfl, rfl⟩ := Prod.mk.inj (Except.ok.inj (hwrote.wanted.symm.trans hwanted))
      obtain ⟨key, names, hload, hnames⟩ := hholds.load
      obtain ⟨current, hcurrent, -, hkeeps⟩ := hwrote.current
      rw [hfiles, hload] at hcurrent
      obtain rfl := Except.ok.inj hcurrent
      have hsame := @sameIssuer_of_holds E _ _ _ key names hknows hinv.sound hholds
        (by rw [hca, hmode]; rfl) fun row ca' hrow hca' => by
          obtain rfl := Option.some.inj (hca'.symm.trans hca)
          exact hissuer row hrow
      rw [hca] at hsame hkeeps
      obtain ⟨notAfter, capped, hclamp, hcert⟩ := hwritten.dates ca hca
      exact gain_of_keepsCurrent hsame hnames hclock hkeeps hclamp hcert
  · intro f hf
    obtain ⟨e, he, hholds⟩ := hinv.files f hf
    exact ⟨e, he, hholds.mode, hholds.notAfter⟩

/-- A call on the day of the samples. -/
def sampleCall (seed : ℕ) : Call := ⟨Instant.days 20000, .sample seed⟩

/-- A base URL and a hierarchy with one issuer. -/
def setUp : List Action :=
  [.saveBaseUrl (Str.of "https://ca.lan"),
    .ca (.hierarchy (.createRoot (Str.of "Root") "ecdsa-p256" 20 1)) (.sample 1),
    .ca (.hierarchy (.createIntermediateUnder 1 (Str.of "Issuer") "ecdsa-p256" 10 none)) (.sample 2)]

/-- The instance with its first certificate, from the one issuer there is. -/
theorem ensure_current_settles_setUp :
    ((machine .transparent .ascii (Str.of "cabin")).final .start (setUp ++ [.ensure (sampleCall 3)])).issued.map
      IssuedEvent.mode = [.caIssued] ∧
    Settles .transparent .ascii (Str.of "cabin")
      ((machine .transparent .ascii (Str.of "cabin")).final .start (setUp ++ [.ensure (sampleCall 3)])) := by
  have hread : ReadsBack .ascii (Str.of "cabin")
      ((machine .transparent .ascii (Str.of "cabin")).final .start setUp) := by
    refine ⟨fun hnil => absurd hnil (by decide +kernel), fun _ a ha => ?_, fun row hrow => ?_⟩
    · have hnone : ipAddress (hostOf .ascii ((machine .transparent .ascii (Str.of "cabin")).final .start
          setUp).baseUrl) = none := by decide +kernel
      exact absurd (ha.symm.trans hnone) (Option.some_ne_none a)
    · have hall : ∀ row ∈ (resolveTlsIssuer ((machine .transparent .ascii (Str.of "cabin")).final .start
          setUp)).2, row.cert.subject.pyEq [[nameAttribute .ascii (Str.of "cabin")
            ((machine .transparent .ascii (Str.of "cabin")).final .start setUp).baseUrl]] = false := by
        decide +kernel
      exact hall row hrow
  refine ⟨by decide +kernel, ensure_current_settles _ _ _ Unicode.lawful_ascii (fun _ => rfl) _ ?_⟩
  exact Machine.reach_final _ _ ⟨nofun, nofun, nofun, fun _ _ => hread, trivial⟩

/-- **An address that is not written as it is read back is never found again**: every call issues a new
certificate. -/
theorem issues_again : ¬ ∀ (E : Crypto) (U : Unicode) (hostname : Str), U.Lawful →
    (∀ k, E.knowsKey (E.publicKey k) = true) → ∀ s, (machine E U hostname).Reachable .start s →
    ∀ call f, (ensureCurrent E U hostname call s).2 = .ok true →
      (ensureCurrent E U hostname call s).1.files = some f →
      ∀ call', call'.checkedAt < f.cert.notValidAfter - renewBefore →
        (ensureCurrent E U hostname call' (ensureCurrent E U hostname call s).1).2 = .ok false := by
  intro h
  have hrun := Machine.reachable_final (M := machine .transparent .ascii (Str.of "cabin")) .start
    [.saveBaseUrl (Str.of "https://[2001:db8:0::1]")]
  have hquiet := h .transparent .ascii (Str.of "cabin") Unicode.lawful_ascii (fun _ => rfl) _ hrun (sampleCall 1)
  have hsome : ∃ f ∈ (ensureCurrent .transparent .ascii (Str.of "cabin") (sampleCall 1)
      ((machine .transparent .ascii (Str.of "cabin")).final .start
        [.saveBaseUrl (Str.of "https://[2001:db8:0::1]")])).1.files,
      (sampleCall 2).checkedAt < f.cert.notValidAfter - renewBefore := by decide +kernel
  obtain ⟨f, hf, hnow⟩ := hsome
  exact absurd (hquiet f (by decide +kernel) hf (sampleCall 2) hnow) (by decide +kernel)

end Tls

end Cabin
