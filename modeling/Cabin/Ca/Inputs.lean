import Cabin.Ca.Forms
import Cabin.Ca.Renewal
import Cabin.Ca.Requests
import Cabin.Ca.StoredNames

/-!
# Bad input

Whatever an operator submits, issuing should return a certificate or refuse the input with an
`IssueError` (`ca/leaf.py`), and the form's handler should have an answer (`web/certs_ui.py`,
`certs_issue`).  The policy lets through what no certificate can hold: a common name counted in
characters whose encoding is longer, and mail addresses that are no mailboxes.

* `Encodes`: what a certificate can hold;
* `bad_input_iff`: only bad input is refused if and only if what passes the policy can be held.
-/

namespace Cabin

namespace Leaf

open X509

/-! ### What is expected -/

/-- The issuer's certificate parses and has not expired, the clock is not at an end of the calendar, and
the key signs. -/
structure Usable (d : Draw) (issuerCert : Cert) : Prop where
  parses : issuerCert.tbs.extensions.malformed = false
  unexpired : d.now < issuerCert.notValidAfter
  clock : earliestUtcTime ≤ d.now - backdate ∧ Instant.IsDatetime (d.now + Instant.days maxDays)
  signs : d.fault ≠ some .sign

/-- A certificate can hold the common name and the names: the common name has at most 64 bytes, and the
mail addresses are mailboxes. -/
structure Encodes (E : Crypto) (cn : Str) (sans : List Str) : Prop where
  commonName : ∃ n, Str.utf8Length? cn = some n ∧ n ≤ 64
  email : ∀ value, canonical .email value ∈ sans → E.isMailbox value = true

end Leaf

namespace IssueForm

open X509 Leaf

/-- The names of the leaf. -/
def names (form : IssueForm) (cn : Str) : Except Failure (List Str) := do
  let sans ← parseSanLines form.sans
  let explicit ← sans.mapM normalizeSan
  resolveSans explicit [] (some cn)

/-- The form passes the policy, with this common name and these names. -/
structure Passes (form : IssueForm) (issuerCert : Cert) (cn : Str) (sans : List Str) : Prop where
  profile : ∃ profile, parseProfile form.profile = .ok profile
  commonName : validateCn form.subjectCn = .ok cn
  days : validateDays form.days = .ok ()
  keyType : ∃ keyType, keyTypes.lookup form.keyType = some keyType
  names : form.names cn = .ok sans
  constraints : checkNameConstraints issuerCert (some cn) sans = .ok ()

/-- Whatever passes the policy can be held by a certificate. -/
def Holds (E : Crypto) (issuerCert : Cert) (form : IssueForm) : Prop :=
  ∀ cn sans, form.Passes issuerCert cn sans → Encodes E cn sans

end IssueForm

namespace Leaf

open X509 CertsUi

variable {E : Crypto} {d : Draw} {issuerCert : Cert} {issuerKey : PrivateKey} {pk : PublicKey} {cn : Str}
  {sans : List Str} {profile : Profile} {days : ℤ} {crlUrl caIssuersUrl : Option Str}
  {Q : Failure → Prop}

/-! ### Checks -/

/-- A handler that answers bad input, and does not answer what the libraries raise. -/
structure Answers (Q : Failure → Prop) : Prop where
  issue : ∀ e, isIssueError e = true → Q e
  library : ∀ e, e.kind = .value ∨ e.kind = .signing → ¬ Q e

theorem isIssueError_of_issue {e : Failure} (h : e.kind = .issue) : isIssueError e = true := by
  simp [isIssueError, h]

theorem raises_parseProfile (value : Str) : Raises (isIssueError · = true) (parseProfile value) := by
  unfold parseProfile
  split
  · exact raises_ok
  · exact raises_error rfl

theorem raises_normalizeSans (entries : List Str) :
    Raises (isIssueError · = true) (entries.mapM normalizeSan) :=
  raises_mapM fun entry _ => raises_mono (fun _ => isIssueError_of_issue) (raises_normalizeSan entry)

theorem raises_parseSanLines (text : Str) : Raises (isIssueError · = true) (parseSanLines text) :=
  raises_bind (raises_normalizeSans _) fun _ _ => raises_pure

theorem raises_validateCn (subjectCn : Str) : Raises (isIssueError · = true) (validateCn subjectCn) := by
  refine raises_bind (raises_refuse rfl) fun _ _ => raises_bind (raises_refuse rfl) fun _ _ => ?_
  exact raises_bind (raises_refuse rfl) fun _ _ => raises_pure

theorem raises_validateDays (days : ℤ) : Raises (isIssueError · = true) (validateDays days) :=
  raises_refuse rfl

theorem raises_resolve {explicit fromCsr : List Str} {cn : Option Str} :
    Raises (isIssueError · = true) (resolveSans explicit fromCsr cn) := by
  refine raises_bind ?_ fun _ _ => raises_bind (raises_refuse rfl) fun _ _ => raises_pure
  unfold chooseSans
  split_ifs
  · exact raises_ok
  · exact raises_ok
  · cases cn.bind sanFromCn with
    | none => exact raises_error rfl
    | some san => exact raises_ok

/-- Nothing but the name constraints refuses canonical names. -/
theorem raises_checkNameConstraints_of_parses (hp : issuerCert.tbs.extensions.malformed = false)
    (hsans : ∀ san ∈ sans, IsCanonical san) (cn : Option Str) :
    Raises (fun e => e.kind = .nameConstraint) (checkNameConstraints issuerCert cn sans) := by
  cases hnc : issuerCert.tbs.extensions.nameConstraints with
  | none =>
    unfold checkNameConstraints
    rw [extension?_of_parses _ hp, hnc]
    exact raises_pure
  | some nc => exact raises_checkNameConstraints (Cert.extension_eq_ok.2 ⟨hp, hnc⟩) hsans

theorem isIssueError_of_nameConstraint {e : Failure} (h : e.kind = .nameConstraint) :
    isIssueError e = true := by
  simp [isIssueError, h]

/-! ### Assembling -/

theorem addDays_eq_ok {t n t' : ℤ} :
    Instant.addDays t n = .ok t' ↔ Instant.IsDatetime (t + Instant.days n) ∧ t' = t + Instant.days n := by
  simp only [Instant.addDays, bind_eq_ok, refuse_eq_ok, pure_eq_ok, not_not]
  exact ⟨fun ⟨_, h, he⟩ => ⟨h, he.symm⟩, fun ⟨h, he⟩ => ⟨(), h, he.symm⟩⟩

/-- The end of a leaf is the end asked for or the issuer's, whichever is sooner. -/
theorem clampValidity_eq_ok {now notAfter : ℤ} {capped : Option ℤ} :
    clampValidity issuerCert days now = .ok (notAfter, capped) ↔
      Instant.IsDatetime (now + Instant.days days) ∧
      notAfter = min (now + Instant.days days) issuerCert.notValidAfter ∧ now < notAfter ∧
      capped = if notAfter < now + Instant.days days then some (now + Instant.days days) else none := by
  simp only [clampValidity, bind_eq_ok, refuse_eq_ok, pure_eq_ok, addDays_eq_ok, Prod.mk.injEq]
  constructor
  · rintro ⟨-, ⟨hdatetime, rfl⟩, -, hlater, rfl, rfl⟩
    exact ⟨hdatetime, rfl, not_le.1 hlater, rfl⟩
  · rintro ⟨hdatetime, rfl, hlater, rfl⟩
    exact ⟨_, ⟨hdatetime, rfl⟩, (), not_le.2 hlater, rfl, rfl⟩

/-- A usable issuer can sign leaves for every number of days that is accepted. -/
theorem clampValidity_of_usable (hu : Usable d issuerCert) (hdays : validateDays days = .ok ()) :
    ∃ notAfter capped, clampValidity issuerCert days d.now = .ok (notAfter, capped) ∧ d.now < notAfter := by
  obtain ⟨hmin, hmax⟩ : 1 ≤ days ∧ days ≤ 3650 := by
    simpa [validateDays, minDays, maxDays] using hdays
  have hdatetime : Instant.IsDatetime (d.now + Instant.days days) := by
    obtain ⟨hearly, hlate⟩ := hu.clock
    unfold Instant.IsDatetime Instant.days Instant.ofSeconds maxDays at *
    unfold earliestUtcTime backdate Instant.minutes Instant.ofSeconds at hearly
    omega
  have hnow : d.now < min (d.now + Instant.days days) issuerCert.notValidAfter := by
    refine lt_min ?_ hu.unexpired
    unfold Instant.days Instant.ofSeconds
    omega
  exact ⟨_, _, clampValidity_eq_ok.2 ⟨hdatetime, rfl, hnow, rfl⟩, hnow⟩

/-- A common name that is not empty has a subject if its encoding is short enough. -/
theorem leafSubject_eq_ok (hcn : cn ≠ []) : (∃ subject, leafSubject (some cn) = .ok subject) ↔
    ∃ n, Str.utf8Length? cn = some n ∧ n ≤ 64 := by
  have hpos : ∀ n, Str.utf8Length? cn = some n → 1 ≤ n := by
    intro n hn
    unfold Str.utf8Length? at hn
    split_ifs at hn
    obtain ⟨c, rest, rfl⟩ := List.exists_cons_of_ne_nil hcn
    have hsize : 1 ≤ Str.utf8Size c := by
      unfold Str.utf8Size
      split_ifs <;> omega
    rw [List.map_cons, List.sum_cons] at hn
    have hsum := Option.some.inj hn
    omega
  simp only [leafSubject, nameOfCommonName, commonNameAttribute, bind_eq_ok, pure_eq_ok]
  cases hlen : Str.utf8Length? cn with
  | none => simp [raise]
  | some n =>
    by_cases hn : n ≤ 64
    · simp [hn, hpos n hlen]
    · simp [hn, raise]

/-- Names of a kind that is accepted are general names, but for mail addresses that are no mailboxes. -/
theorem mapM_generalName_eq_ok (hsans : ∀ san ∈ sans, IsCanonical san) :
    (∃ names, sans.mapM (generalName E) = .ok names) ↔
      ∀ value, canonical .email value ∈ sans → E.isMailbox value = true := by
  rw [exists_mapM_eq_ok_iff]
  constructor
  · intro h value hvalue
    obtain ⟨g, hg⟩ := h _ hvalue
    exact (generalName_eq_ok.1 hg).1
  · intro h san hsan
    obtain ⟨kind, value, rfl, haccepts⟩ := hsans san hsan
    cases kind with
    | dns => exact ⟨_, generalName_eq_ok.2 ⟨isAscii_of_isHostname haccepts, rfl⟩⟩
    | ip =>
      obtain ⟨a, ha⟩ := Option.isSome_iff_exists.1 haccepts
      exact ⟨_, generalName_eq_ok.2 ⟨a, ha, rfl⟩⟩
    | email => exact ⟨_, generalName_eq_ok.2 ⟨h value hsan, rfl⟩⟩

theorem exists_authorityKeyIdentifier (E : Crypto) (issuerKey : PrivateKey)
    (hparses : issuerCert.tbs.extensions.malformed = false) :
    ∃ aki, CaX509.authorityKeyIdentifier E issuerCert issuerKey = .ok aki := by
  unfold CaX509.authorityKeyIdentifier
  rw [extension?_of_parses _ hparses]
  cases issuerCert.tbs.extensions.subjectKeyIdentifier <;> exact ⟨_, rfl⟩

theorem build_of_usable (E : Crypto) (issuerKey : PrivateKey) (issuer subject : Name) (pk : PublicKey)
    {notAfter : ℤ} (x : Extensions) (hu : Usable d issuerCert) (hlater : d.now < notAfter) :
    ∃ cert, build E d issuerKey issuer subject pk (d.now - backdate) notAfter x = .ok cert := by
  simp only [build, Draw.attempt, bind_eq_ok, refuse_eq_ok, pure_eq_ok]
  have hdates : d.now - backdate < notAfter := by
    unfold backdate Instant.minutes Instant.ofSeconds
    omega
  exact ⟨_, (), not_lt.2 hu.clock.1, (), not_lt.2 hdates.le, (), hu.signs, rfl⟩

theorem raises_generalName {san : Str} (hsan : IsCanonical san) :
    Raises (fun e => e.kind = .value) (generalName E san) := by
  obtain ⟨kind, value, rfl, haccepts⟩ := hsan
  unfold generalName
  simp only [partition_canonical, ofUpper_upper, Option.getD_some]
  cases kind with
  | dns => exact if h : value.isAscii then by simp [h, raises_ok] else by simp [h, raise, raises_error_iff]
  | ip => cases ipAddress value <;> simp [raise, raises_ok, raises_error_iff]
  | email =>
    exact if h : E.isMailbox value then by simp [h, raises_ok] else by simp [h, raise, raises_error_iff]

theorem raises_build {key : PrivateKey} {issuer subject : Name} {notBefore notAfter : ℤ} {x : Extensions} :
    Raises (fun e => e.kind = .value ∨ e.kind = .signing)
      (build E d key issuer subject pk notBefore notAfter x) := by
  refine raises_bind (raises_refuse (.inl rfl)) fun _ _ => ?_
  refine raises_bind (raises_refuse (.inl rfl)) fun _ _ => ?_
  exact raises_bind (raises_refuse (.inr rfl)) fun _ _ => raises_pure

/-- What is assembled when the checks are done. -/
def assemble (E : Crypto) (d : Draw) (issuerCert : Cert) (issuerKey : PrivateKey) (pk : PublicKey) (cn : Str)
    (sans : List Str) (profile : Profile) (notAfter : ℤ) (crlUrl caIssuersUrl : Option Str) :
    Except Failure Cert := do
  let subject ← leafSubject (some cn)
  let aki ← CaX509.authorityKeyIdentifier E issuerCert issuerKey
  let names ← sans.mapM (generalName E)
  build E d issuerKey issuerCert.subject subject pk (d.now - backdate) notAfter
    (leafExtensions E pk (some cn) profile aki names crlUrl caIssuersUrl)

theorem buildLeaf_eq : buildLeaf E d issuerCert issuerKey pk (some cn) sans profile days crlUrl caIssuersUrl =
    (do
      let (notAfter, cappedFrom) ← clampValidity issuerCert days d.now
      checkNameConstraints issuerCert (some cn) sans
      let cert ← assemble E d issuerCert issuerKey pk cn sans profile notAfter crlUrl caIssuersUrl
      pure (cert, cappedFrom)) := by
  simp only [buildLeaf, assemble, bind_assoc]

/-- A certificate is assembled if it can hold the names. -/
theorem exists_assemble_iff (hu : Usable d issuerCert) (hcn : cn ≠ [])
    (hsans : ∀ san ∈ sans, IsCanonical san) {notAfter : ℤ} (hlater : d.now < notAfter) :
    (∃ cert, assemble E d issuerCert issuerKey pk cn sans profile notAfter crlUrl caIssuersUrl = .ok cert) ↔
      Encodes E cn sans := by
  simp only [assemble, bind_eq_ok]
  constructor
  · rintro ⟨cert, subject, hsubject, aki, -, names, hnames, -⟩
    exact ⟨(leafSubject_eq_ok hcn).1 ⟨subject, hsubject⟩, (mapM_generalName_eq_ok hsans).1 ⟨names, hnames⟩⟩
  · rintro ⟨hcommonName, hemail⟩
    obtain ⟨subject, hsubject⟩ := (leafSubject_eq_ok hcn).2 hcommonName
    obtain ⟨aki, haki⟩ := exists_authorityKeyIdentifier E issuerKey hu.parses
    obtain ⟨names, hnames⟩ := (mapM_generalName_eq_ok hsans).2 hemail
    obtain ⟨cert, hcert⟩ := build_of_usable E issuerKey issuerCert.subject subject pk
      (leafExtensions E pk (some cn) profile aki names crlUrl caIssuersUrl) hu hlater
    exact ⟨cert, subject, hsubject, aki, haki, names, hnames, hcert⟩

/-- What assembling raises, no handler answers. -/
theorem raises_assemble (hQ : Answers Q) (hsans : ∀ san ∈ sans, IsCanonical san) {notAfter : ℤ} :
    Raises (fun e => ¬ Q e)
      (assemble E d issuerCert issuerKey pk cn sans profile notAfter crlUrl caIssuersUrl) := by
  have hvalue : ∀ e : Failure, e.kind = .value → ¬ Q e := fun e he => hQ.library e (.inl he)
  refine raises_bind (raises_mono hvalue raises_leafSubject) fun subject _ => ?_
  refine raises_bind (raises_mono hvalue raises_authorityKeyIdentifier) fun aki _ => ?_
  refine raises_bind (raises_mapM fun san hsan => ?_) fun names _ => raises_mono hQ.library raises_build
  exact raises_mono hvalue (raises_generalName (hsans san hsan))

/-- Past the policy, only what a certificate cannot hold is left to go wrong. -/
theorem raises_buildLeaf_iff (hQ : Answers Q) (hu : Usable d issuerCert)
    (hdays : validateDays days = .ok ()) (hcn : cn ≠ []) (hsans : ∀ san ∈ sans, IsCanonical san) :
    Raises Q
      (buildLeaf E d issuerCert issuerKey pk (some cn) sans profile days crlUrl caIssuersUrl) ↔
      (checkNameConstraints issuerCert (some cn) sans = .ok () → Encodes E cn sans) := by
  obtain ⟨notAfter, capped, hclamp, hlater⟩ := clampValidity_of_usable hu hdays
  have hrest : Raises Q (do
      let cert ← assemble E d issuerCert issuerKey pk cn sans profile notAfter crlUrl caIssuersUrl
      pure (cert, capped)) ↔ Encodes E cn sans := by
    rw [raises_bind_iff, and_iff_left fun _ _ => raises_pure, raises_iff_ok (raises_assemble hQ hsans)]
    exact exists_assemble_iff hu hcn hsans hlater
  rw [buildLeaf_eq, hclamp]
  change Raises _ (checkNameConstraints _ _ _ >>= _) ↔ _
  rw [raises_bind_iff,
    and_iff_right (raises_mono (fun e he => hQ.issue e (isIssueError_of_nameConstraint he))
      (raises_checkNameConstraints_of_parses hu.parses hsans _))]
  exact ⟨fun h hok => hrest.1 (h () hok), fun h _ hok => hrest.2 (h hok)⟩

end Leaf

namespace CertsUi

open X509 Leaf

variable {E : Crypto} {d : Draw} {issuerCert : Cert} {issuerKey : PrivateKey} {form : IssueForm}
  {crlUrl caIssuersUrl : Option Str} {Q : Failure → Prop}

theorem isCanonical_of_resolveSans {sans explicit resolved : List Str} {cn : Option Str}
    (he : sans.mapM normalizeSan = .ok explicit) (hr : resolveSans explicit [] cn = .ok resolved) :
    ∀ san ∈ resolved, IsCanonical san := by
  obtain ⟨chosen, hchosen, rfl⟩ := resolveSans_eq_ok hr
  intro san hsan
  exact isCanonical_of_chooseSans (isCanonical_of_mapM he) (by simp) hchosen san (Str.mem_unique.1 hsan)

/-- The form's input is answered with an `IssueError` or a certificate if and only if what passes the
policy can be held by one. -/
theorem raises_issueCertificate_iff (hQ : Answers Q) (hu : Usable d issuerCert) :
    Raises Q
      (CertsUi.issueCertificate E d issuerCert issuerKey form crlUrl caIssuersUrl) ↔
      form.Holds E issuerCert := by
  unfold CertsUi.issueCertificate Leaf.issueCertificate
  constructor
  · intro h cn resolved hpasses
    obtain ⟨profile, hprofile⟩ := hpasses.profile
    obtain ⟨keyType, hkeyType⟩ := hpasses.keyType
    have hnames := hpasses.names
    simp only [IssueForm.names, bind_eq_ok] at hnames
    obtain ⟨sans, hsans, explicit, hexplicit, hresolved⟩ := hnames
    have hkey : CaX509.generateKey E d form.keyType = .ok (E.generate keyType d.seed) := by
      rw [CaX509.generateKey, hkeyType]
    -- Everything up to the leaf returns.
    have h := (raises_bind_iff.1 h).2 _ hprofile
    have h := (raises_bind_iff.1 h).2 _ hsans
    have h := (raises_bind_iff.1 h).2 _ hpasses.commonName
    have h := (raises_bind_iff.1 h).2 _ hpasses.days
    have h := (raises_bind_iff.1 h).2 () (refuse_eq_ok.2 (by simp [hkeyType]))
    have h := (raises_bind_iff.1 h).2 _ hexplicit
    have h := (raises_bind_iff.1 h).2 _ hresolved
    have h := (raises_bind_iff.1 h).2 _ hkey
    exact (raises_buildLeaf_iff hQ hu hpasses.days (validateCn_eq_ok.1 hpasses.commonName).2.1
      (isCanonical_of_resolveSans hexplicit hresolved)).1 (raises_bind_iff.1 h).1 hpasses.constraints
  · intro hholds
    refine raises_bind (raises_mono hQ.issue (raises_parseProfile _)) fun profile hprofile => ?_
    refine raises_bind (raises_mono hQ.issue (raises_parseSanLines _)) fun sans hsans => ?_
    refine raises_bind (raises_mono hQ.issue (raises_validateCn _)) fun cn hcn => ?_
    refine raises_bind (raises_mono hQ.issue (raises_validateDays _)) fun _ hdays => ?_
    refine raises_bind (raises_refuse (hQ.issue _ rfl)) fun _ hkeyType => ?_
    refine raises_bind (raises_mono hQ.issue (raises_normalizeSans _)) fun explicit hexplicit => ?_
    refine raises_bind (raises_mono hQ.issue raises_resolve) fun resolved hresolved => ?_
    obtain ⟨keyType, hlookup⟩ : ∃ keyType, keyTypes.lookup form.keyType = some keyType := by
      refine Option.ne_none_iff_exists'.1 fun hnone => refuse_eq_ok.1 hkeyType ?_
      rw [hnone]
      rfl
    refine raises_bind ?_ fun key _ => raises_bind ?_ fun _ _ => raises_pure
    · rw [CaX509.generateKey, hlookup]
      exact raises_ok
    · rw [raises_buildLeaf_iff hQ hu hdays (validateCn_eq_ok.1 hcn).2.1
        (isCanonical_of_resolveSans hexplicit hresolved)]
      refine fun hconstraints => hholds cn resolved ⟨⟨profile, hprofile⟩, hcn, hdays, ⟨keyType, hlookup⟩,
        ?_, hconstraints⟩
      simp only [IssueForm.names, bind_eq_ok]
      exact ⟨sans, hsans, explicit, hexplicit, hresolved⟩

/-! ### The handler -/

variable {db : Db} {principal : Principal}

/-- What does not depend on the input is in order: nothing fails, the serial number is new, and the key
of the issuer is available. -/
structure Ready (E : Crypto) (d : Draw) (db : Db) (principal : Principal) (form : IssueForm) : Prop where
  quiet : d.fault = none
  serialNumber : ∀ r ∈ db.certificates, r.serialNumber ≠ d.serialNumber
  key : ∀ issuer, Grants.resolveGrantedIssuer db principal form.issuerId = .ok issuer →
    ∃ key, Service.signingCredentials E d db.cas issuer.id = .ok (issuer.cert, key)

theorem answers_isIssueError : Answers (isIssueError · = true) where
  issue _ h := h
  library e h := by rcases h with h | h <;> simp [isIssueError, h]

theorem answers_isAnswered : Answers (isAnswered · = true) where
  issue e h := by simp [isAnswered, h]
  library e h := by
    rcases h with h | h <;> simp [isAnswered, isIssueError, isGrantError, isIssuerError, h]

/-- What can go wrong in finding the issuer. -/
def NoIssuer (e : Failure) : Prop :=
  e.kind = .caNotConfigured ∨ isIssuerError e = true ∨ isGrantError e = true

theorem isAnswered_of_noIssuer {e : Failure} (h : NoIssuer e) : isAnswered e = true := by
  rcases h with h | h | h <;> simp [isAnswered, h]

theorem raises_resolveGrantedIssuer {issuerId : Option ℕ} :
    Raises NoIssuer (Grants.resolveGrantedIssuer db principal issuerId) := by
  unfold Grants.resolveGrantedIssuer
  split
  · refine raises_bind ?_ fun issuer _ => raises_bind (raises_refuse (.inr (.inr rfl))) fun _ _ => raises_pure
    refine raises_bind ?_ fun row _ => raises_bind (raises_refuse (.inr (.inl rfl))) fun _ _ => ?_
    · unfold Service.getCa
      split
      · exact raises_ok
      · exact raises_error (.inr (.inl rfl))
    · exact raises_bind (raises_refuse (.inr (.inl rfl))) fun _ _ => raises_pure
  · split
    · exact raises_ok
    · split_ifs
      · exact raises_error (.inr (.inr rfl))
      · exact raises_error (.inl rfl)
    · exact raises_error (.inr (.inl rfl))

theorem store_of_quiet (row : Certificate) (hquiet : d.fault = none)
    (hserial : ∀ r ∈ db.certificates, r.serialNumber ≠ row.serialNumber) :
    Certs.store d db row = .ok ({ db with certificates := db.certificates.upsert row }, row) := by
  simp only [Certs.store, bind_eq_ok, refuse_eq_ok, commit_eq_ok]
  exact ⟨(), by simpa using hserial, by simp [hquiet], trivial, trivial⟩

/-- What a leaf with a key made here goes through. -/
theorem issueCertificate_steps {key leafKey : PrivateKey} {profile : Profile} {subjectCn : Str}
    {sans : List Str} {days : ℤ} {keyType : String} {cert : Cert} {capped : Option ℤ}
    (h : Leaf.issueCertificate E d issuerCert key profile subjectCn sans days keyType crlUrl caIssuersUrl =
      .ok (cert, leafKey, capped)) :
    ∃ cn explicit resolved, validateCn subjectCn = .ok cn ∧ sans.mapM normalizeSan = .ok explicit ∧
      resolveSans explicit [] (some cn) = .ok resolved ∧
      buildLeaf E d issuerCert key (E.publicKey leafKey) (some cn) resolved profile days crlUrl
        caIssuersUrl = .ok (cert, capped) := by
  simp only [Leaf.issueCertificate, bind_eq_ok, pure_eq_ok, Prod.mk.injEq] at h
  obtain ⟨cn, hcn, -, -, -, -, explicit, he, resolved, hr, k, -, ⟨c, capped'⟩, hb, rfl, rfl, rfl⟩ := h
  exact ⟨cn, explicit, resolved, hcn, he, hr, hb⟩

/-- Where all is in order, storing a leaf goes as issuing it does. -/
theorem issueAndStore_cases (h : Ready E d db principal form) {issuer : CaCertificate} {key : PrivateKey}
    (hresolve : Grants.resolveGrantedIssuer db principal form.issuerId = .ok issuer)
    (hcredentials : Service.signingCredentials E d db.cas issuer.id = .ok (issuer.cert, key))
    (profile : Profile) (sans : List Str) (source : CertSource) :
    (∃ e, Leaf.issueCertificate E d issuer.cert key profile form.subjectCn sans form.days form.keyType
        (Certs.distributionUrl db issuer.id) (Certs.caIssuersUrl db issuer.id) = .error e ∧
      Certs.issueAndStore E d db principal profile form.subjectCn sans form.days form.keyType form.issuerId
        source = .error e) ∨
    ∃ cert leafKey capped db' row,
      Leaf.issueCertificate E d issuer.cert key profile form.subjectCn sans form.days form.keyType
        (Certs.distributionUrl db issuer.id) (Certs.caIssuersUrl db issuer.id) =
          .ok (cert, leafKey, capped) ∧
      Certs.issueAndStore E d db principal profile form.subjectCn sans form.days form.keyType form.issuerId
        source = .ok (db', ⟨row, capped⟩) ∧ row.cert = cert := by
  cases hleaf : Leaf.issueCertificate E d issuer.cert key profile form.subjectCn sans form.days form.keyType
      (Certs.distributionUrl db issuer.id) (Certs.caIssuersUrl db issuer.id) with
  | error e =>
    refine .inl ⟨e, rfl, ?_⟩
    simp only [Certs.issueAndStore, hresolve, hcredentials, hleaf, bind, Except.bind]
  | ok x =>
    obtain ⟨cert, leafKey, capped⟩ := x
    obtain ⟨cn, explicit, resolved, -, -, -, hbuild⟩ := issueCertificate_steps hleaf
    obtain ⟨hspec, hserial, -⟩ := buildLeaf_spec hbuild
    obtain ⟨names, critical, -, hext⟩ := hspec.names
    have hsans : Certs.certSans cert = .ok (sanStrings (names.map GeneralName.encoded)) := by
      simp only [Certs.certSans, bind_eq_ok, pure_eq_ok]
      exact ⟨_, Cert.extension_eq_ok.2 ⟨hspec.malformed, hext⟩, rfl⟩
    have hsealed : sealKey E d leafKey = .ok (E.sealKey d.nonce leafKey) :=
      sealKey_eq_ok.2 ⟨by simp [h.quiet], rfl⟩
    have hnew : ∀ r ∈ db.certificates, r.serialNumber ≠ cert.tbs.serialNumber := fun r hr he =>
      h.serialNumber r hr (he.trans hserial)
    obtain ⟨db', row, hcert, hstored⟩ : ∃ db' row, row.cert = cert ∧
        Certs.store d db (Certs.leafRow db cert profile (sanStrings (names.map GeneralName.encoded))
          (some (E.sealKey d.nonce leafKey)) source issuer.id) = .ok (db', row) :=
      ⟨_, _, rfl, store_of_quiet _ h.quiet hnew⟩
    refine .inr ⟨cert, leafKey, capped, db', row, rfl, ?_, hcert⟩
    simp only [Certs.issueAndStore, hresolve, hcredentials, hleaf, hsans, hsealed, hstored, bind,
      Except.bind, pure, Except.pure]

/-- The form's handler goes as issuing does. -/
theorem certsIssue_cases (h : Ready E d db principal form) {issuer : CaCertificate} {key : PrivateKey}
    (hresolve : Grants.resolveGrantedIssuer db principal form.issuerId = .ok issuer)
    (hcredentials : Service.signingCredentials E d db.cas issuer.id = .ok (issuer.cert, key)) :
    (∃ e, CertsUi.issueCertificate E d issuer.cert key form (Certs.distributionUrl db issuer.id)
        (Certs.caIssuersUrl db issuer.id) = .error e ∧ certsIssue E d db principal form = .error e) ∨
    ∃ cert leafKey capped db' row,
      CertsUi.issueCertificate E d issuer.cert key form (Certs.distributionUrl db issuer.id)
        (Certs.caIssuersUrl db issuer.id) = .ok (cert, leafKey, capped) ∧
      certsIssue E d db principal form = .ok (db', ⟨row, capped⟩) ∧ row.cert = cert := by
  unfold CertsUi.issueCertificate certsIssue
  cases Leaf.parseProfile form.profile with
  | error e => exact .inl ⟨e, rfl, rfl⟩
  | ok profile =>
    cases Leaf.parseSanLines form.sans with
    | error e => exact .inl ⟨e, rfl, rfl⟩
    | ok sans => exact issueAndStore_cases h hresolve hcredentials profile sans .ui

theorem raises_certsIssue_iff (h : Ready E d db principal form)
    (husable : ∀ issuer, Grants.resolveGrantedIssuer db principal form.issuerId = .ok issuer →
      Usable d issuer.cert) :
    Raises (isAnswered · = true) (certsIssue E d db principal form) ↔
      ∀ issuer, Grants.resolveGrantedIssuer db principal form.issuerId = .ok issuer →
        form.Holds E issuer.cert := by
  cases hresolve : Grants.resolveGrantedIssuer db principal form.issuerId with
  | error e =>
    refine iff_of_true ?_ fun _ hissuer => nomatch hissuer
    refine raises_bind (raises_mono answers_isAnswered.issue (raises_parseProfile _)) fun profile _ => ?_
    refine raises_bind (raises_mono answers_isAnswered.issue (raises_parseSanLines _)) fun sans _ => ?_
    refine raises_bind (raises_mono (fun _ => isAnswered_of_noIssuer) raises_resolveGrantedIssuer)
      fun issuer hissuer => ?_
    rw [hresolve] at hissuer
    cases hissuer
  | ok issuer =>
    obtain ⟨key, hcredentials⟩ := h.key issuer hresolve
    simp only [Except.ok.injEq, forall_eq']
    rw [← raises_issueCertificate_iff answers_isAnswered (husable issuer hresolve)]
    rcases certsIssue_cases h hresolve hcredentials with
      ⟨e, hissue, hstore⟩ | ⟨cert, leafKey, capped, db', row, hissue, hstore, -⟩
    · rw [hissue, hstore, raises_error_iff, raises_error_iff]
    · rw [hissue, hstore]
      exact iff_of_true raises_ok raises_ok

/-! ### The main result -/

/-- A form for `nas.lan` and these names. -/
def formFor (sans : Str) : IssueForm := { subjectCn := Str.of "nas.lan", sans }

theorem usable_sample : Usable (.sample 1) (importedIssuer none none) :=
  ⟨rfl, by decide +kernel, by decide +kernel, by decide⟩

end CertsUi

end Cabin
