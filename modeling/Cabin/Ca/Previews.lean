import Cabin.Ca.Chains
import Cabin.Ca.Inputs
import Cabin.Ca.Links

/-!
# The preview and the outcome

What the preview of the issue form (`web/certs_ui.py`, `_issue_preview`) says should come true when the
form is submitted at the same time.  The preview resolves the names, checks the constraints and clamps
the validity as the signer does, on a clock without fractions of a second; it does not validate the
common name and the number of days, and does not ask whether a certificate can hold the names.

* `PreviewAgrees`: the preview returns, and comes true;
* `preview_agrees_iff`: it does if and only if what it does not look at is in order.
-/

namespace Cabin

open X509 Service Leaf

namespace CertsUi

/-! ### What is expected -/

/-- The profile and the type of key are supported, and the issuer's key is available. -/
structure Available (E : Crypto) (d : Draw) (db : Db) (principal : Principal) (form : IssueForm) :
    Prop where
  profile : ∃ profile, parseProfile form.profile = .ok profile
  keyType : ∃ keyType, keyTypes.lookup form.keyType = some keyType
  clock : earliestUtcTime ≤ d.now - backdate ∧ Instant.IsDatetime (d.now + Instant.days maxDays)
  ready : Ready E d db principal form

/-- The certificate has the expiry and the names of the preview, and the same end was not granted. -/
structure IssuedAs (E : Crypto) (preview : IssuePreview) (issued : Certs.Issued) : Prop where
  expires : preview.expires = some issued.row.cert.notValidAfter
  names : ∃ names critical, (preview.names.map NamePreview.name).mapM (generalName E) = .ok names ∧
    issued.row.cert.tbs.extensions.subjectAlternativeName =
      some ⟨names.map GeneralName.encoded, critical⟩
  cappedFrom : issued.cappedFrom.map Instant.seconds = preview.cappedFrom.map Instant.seconds

/-- What the preview says comes true. -/
structure ComesTrue (E : Crypto) (d : Draw) (db : Db) (principal : Principal) (form : IssueForm)
    (preview : IssuePreview) : Prop where
  issued : preview.refused = false → preview.expires ≠ none →
    ∃ db' issued, certsIssue E d db principal form = .ok (db', issued) ∧ IssuedAs E preview issued
  refused : preview.refused = true →
    ∃ e, certsIssue E d db principal form = .error e ∧ isIssueError e = true

/-- The preview raises nothing but grant errors, and if it has an issuer, what it says comes true. -/
def PreviewAgrees (E : Crypto) (d : Draw) (db : Db) (principal : Principal) (form : IssueForm) : Prop :=
  ∃ result, (∀ fuel ≥ 2, issuePreview fuel d.now db principal form = some result) ∧
    Raises (isGrantError · = true) result ∧
    ∀ preview, result = .ok preview → preview.issuer ≠ none → Available E d db principal form →
      ComesTrue E d db principal form preview

/-! ### What the preview does not look at -/

/-- The common name and the days are valid, a certificate can hold the names, and the issuer does not
end in the very second that is asked for. -/
structure Foreseen (E : Crypto) (d : Draw) (issuerCert : Cert) (form : IssueForm) (sans : List Str) :
    Prop where
  commonName : ∃ cn, validateCn form.subjectCn = .ok cn ∧ Encodes E cn sans
  days : form.days ≤ maxDays
  fraction : issuerCert.notValidAfter = Instant.wholeSecond d.now + Instant.days form.days →
    Instant.wholeSecond d.now = d.now

/-- The days can be added, and whatever the preview would announce is foreseen. -/
def Foreseeable (E : Crypto) (d : Draw) (db : Db) (principal : Principal) (form : IssueForm) : Prop :=
  ∀ issuer, Grants.resolveGrantedIssuer db principal form.issuerId = .ok issuer →
    Instant.IsDatetime (Instant.wholeSecond d.now + Instant.days form.days) ∧
    (Available E d db principal form → ∀ sans, previewSans form = .ok sans →
      checkNameConstraints issuer.cert (previewCn form) sans = .ok () →
      Instant.wholeSecond d.now <
        min (Instant.wholeSecond d.now + Instant.days form.days) issuer.cert.notValidAfter →
      Foreseen E d issuer.cert form sans)

variable {E : Crypto} {d : Draw} {db db' : Db} {t t' : CaTable} {r : CaCertificate} {op : HierOp}

/-! ### Issuers parse -/

/-- The certificate of an intermediate parses. -/
def IssuerParses (r : CaCertificate) : Prop :=
  r.kind = .intermediate → r.cert.tbs.extensions.malformed = false

theorem parses_of_loadImport {certPem : CaX509.Parsed Cert} {keyPem : CaX509.Parsed PrivateKey}
    {chainPem : CaX509.Parsed Cert} {cert : Cert} {key : PrivateKey} {parent : Option Cert}
    (h : CaX509.loadImport E d certPem keyPem (some chainPem) = .ok (cert, key, parent)) :
    cert.tbs.extensions.malformed = false := by
  simp only [CaX509.loadImport, bind_eq_ok] at h
  obtain ⟨c, -, k, -, -, -, -, -, -, -, u, hca, p, -, -, -, -, -, -, -, h⟩ := h
  obtain ⟨rfl, -⟩ : c = cert ∧ _ := by simpa using pure_eq_ok.1 h
  simp only [CaX509.checkCaCertificate, bind_eq_ok] at hca
  obtain ⟨bc, hbc, -⟩ := hca
  exact (CaX509.importExtension_eq_ok hbc).1

theorem issuerParses_of_adds (h : Adds E d t op t' r) : IssuerParses r := by
  intro hkind
  cases h with
  | intermediate hroot hid hrootKind hsealed hkey h =>
    obtain ⟨name, ski, -, -, -, htbs, -⟩ := CaX509.createIntermediate_spec h
    simp [htbs, encodeTbs]
  | importedIntermediate h => exact parses_of_loadImport h
  | root | importedRoot | cross | importedSigner | importedCross => cases hkind

theorem issuersParse_of_write (h : Write E db db') (hparse : ∀ r ∈ db.cas, IssuerParses r) :
    ∀ r ∈ db'.cas, IssuerParses r := by
  cases h with
  | @hierarchy op d cas heffects =>
    have heach : ∀ t, Effects E (Adds E d db.cas op) db.cas t → ∀ r ∈ t, IssuerParses r := by
      intro t ht
      induction ht with
      | refl => exact hparse
      | tail _ heffect ih =>
        refine heffect.forall_rows (R := fun _ r => IssuerParses r) ih ?_ ?_ ?_
        · intro _ r r' _ _ hc hcert hr hkind
          rw [hcert]
          exact hr (hc.kind ▸ hkind)
        · intro row signer c hren hr _ hkind
          obtain ⟨d, key, n, s, -, -, hc⟩ := hren.signed
          exact (CaX509.renewCertificate_continues hc).malformed.trans (hr hkind)
        · exact fun r _ hadds _ => issuerParses_of_adds hadds
    exact heach cas heffects
  | same | leaf | crl | revoke | settings => exact hparse

theorem issuersParse_of_reach {u v : List (ℕ × ℕ)} {o : Option Str}
    (h : (caMachine E).Reachable (.start u v o) db) : ∀ r ∈ db.cas, IssuerParses r :=
  h.invariant (fun _ hr => absurd hr Table.not_mem_empty)
    fun _ _ _ hparse _ hstep => issuersParse_of_write (caMachine_step hstep) hparse

/-- An issuer that is resolved is a row of an intermediate. -/
theorem kind_of_resolveGrantedIssuer {principal : Principal} {issuerId : Option ℕ}
    (h : Grants.resolveGrantedIssuer db principal issuerId = .ok r) : r.kind = .intermediate := by
  unfold Grants.resolveGrantedIssuer at h
  split at h
  · simp only [resolveIssuer, namedIssuer, bind_eq_ok, refuse_eq_ok, pure_eq_ok, not_not] at h
    obtain ⟨row, ⟨row', -, -, hkind, -, -, rfl⟩, -, -, rfl⟩ := h
    exact hkind
  · split at h
    · rename_i issuer hone
      cases h
      have hmem : r ∈ Grants.grantedIssuers db principal := by simp [hone]
      have hactive : r ∈ activeIssuers db.cas := by
        unfold Grants.grantedIssuers at hmem
        split_ifs at hmem
        · exact hmem
        · exact List.mem_of_mem_filter hmem
      simp only [activeIssuers, Table.mem_select, Bool.and_eq_true, beq_iff_eq] at hactive
      exact hactive.2.1
    · split_ifs at h <;> cases h
    · cases h

/-! ### What is shown -/

variable {form : IssueForm} {issuer : CaCertificate} {issuerCert : Cert} {sans : List Str} {now : ℤ}

theorem raises_previewSans : Raises (isIssueError · = true) (previewSans form) :=
  raises_bind (raises_parseSanLines _) fun _ _ => raises_resolve

theorem isCanonical_of_previewSans (h : previewSans form = .ok sans) : ∀ san ∈ sans, IsCanonical san := by
  obtain ⟨parsed, hparsed, hresolved⟩ := bind_eq_ok.1 h
  exact isCanonical_of_resolveSans (mapM_normalizeSan_of_parseSanLines hparsed) hresolved

/-- Every name is marked. -/
theorem mapM_previewName (hp : issuerCert.tbs.extensions.malformed = false)
    (hsans : ∀ san ∈ sans, IsCanonical san) :
    ∃ marks, sans.mapM (previewName issuerCert) = .ok marks ∧ marks.map NamePreview.name = sans := by
  induction sans with
  | nil => exact ⟨[], rfl, rfl⟩
  | cons san sans ih =>
    obtain ⟨marks, hmarks, hnames⟩ := ih fun x hx => hsans x (List.mem_cons_of_mem _ hx)
    obtain ⟨mark, hmark, hname⟩ : ∃ mark, previewName issuerCert san = .ok mark ∧ mark.name = san := by
      have hraises : Raises (fun e => (e.kind == .nameConstraint) = true)
          (checkNameConstraints issuerCert none [san]) := by
        refine raises_mono (fun e he => by simp [he]) (raises_checkNameConstraints_of_parses hp ?_ none)
        simpa using hsans san List.mem_cons_self
      unfold previewName
      rw [catching_of_raises hraises]
      cases checkNameConstraints issuerCert none [san] <;> exact ⟨_, rfl, rfl⟩
    refine ⟨mark :: marks, ?_, by rw [List.map_cons, hname, hnames]⟩
    rw [List.mapM_cons, hmark, hmarks]
    rfl

/-- The verdict is the signer's. -/
theorem previewVerdict_spec (hp : issuerCert.tbs.extensions.malformed = false)
    (hsans : ∀ san ∈ sans, IsCanonical san) (cn : Option Str) :
    ∃ outside verdict, previewVerdict issuerCert cn sans = .ok (outside, verdict) ∧
      (outside = false ↔ checkNameConstraints issuerCert cn sans = .ok ()) := by
  have hraises : Raises (fun e => (e.kind == .nameConstraint) = true)
      (checkNameConstraints issuerCert cn sans) :=
    raises_mono (fun e he => by simp [he]) (raises_checkNameConstraints_of_parses hp hsans cn)
  obtain ⟨constraints, hconstraints⟩ : ∃ c, constraintsOf issuerCert = .ok c := by
    unfold constraintsOf
    rw [extension?_of_parses _ hp]
    cases issuerCert.tbs.extensions.nameConstraints <;> exact ⟨_, rfl⟩
  unfold previewVerdict
  rw [catching_of_raises hraises]
  cases checkNameConstraints issuerCert cn sans with
  | error e => exact ⟨_, _, rfl, by simp⟩
  | ok u =>
    refine ⟨_, _, by rw [hconstraints]; rfl, by simp⟩

/-- What a preview says of the outcome. -/
structure Shows (now : ℤ) (issuer : CaCertificate) (form : IssueForm) (preview : IssuePreview) : Prop where
  names : ∀ sans, previewSans form = .ok sans → preview.names.map NamePreview.name = sans
  refused : preview.refused = false ↔ ∃ sans, previewSans form = .ok sans ∧
    checkNameConstraints issuer.cert (previewCn form) sans = .ok ()
  expires : ∀ e capped, clampValidity issuer.cert form.days (Instant.wholeSecond now) = .ok (e, capped) →
    preview.expires = some e ∧ preview.cappedFrom = capped
  unclamped : ∀ exc, clampValidity issuer.cert form.days (Instant.wholeSecond now) = .error exc →
    preview.expires = none
  issuer : preview.issuer = some issuer.name

theorem raises_clampValidity {days : ℤ} (hdays : Instant.IsDatetime (now + Instant.days days)) :
    Raises (isIssueError · = true) (clampValidity issuerCert days now) := by
  unfold clampValidity
  rw [addDays_eq_ok.2 ⟨hdays, rfl⟩]
  exact raises_bind raises_ok fun _ _ => raises_bind (raises_refuse rfl) fun _ _ => raises_pure

theorem previewSans_ne_nil (h : previewSans form = .ok sans) : sans ≠ [] := by
  simp only [previewSans, bind_eq_ok] at h
  obtain ⟨parsed, -, hresolved⟩ := h
  obtain ⟨chosen, hchosen, rfl⟩ := resolveSans_eq_ok hresolved
  have hne : chosen ≠ [] := by
    unfold chooseSans at hchosen
    split at hchosen
    · cases hchosen
      assumption
    · rw [if_neg (not_not.2 rfl)] at hchosen
      split at hchosen
      · cases hchosen
        exact List.cons_ne_nil _ _
      · cases hchosen
  obtain ⟨x, hx⟩ := List.exists_mem_of_ne_nil _ hne
  exact List.ne_nil_of_mem (Str.mem_unique.2 hx)

/-- If the days can be added there is a preview. -/
theorem previewWith_eq_ok (hp : issuer.cert.tbs.extensions.malformed = false)
    (hdays : Instant.IsDatetime (Instant.wholeSecond now + Instant.days form.days))
    (chain : List CaCertificate) :
    ∃ preview, previewWith now issuer form (.ok chain) = .ok preview ∧ Shows now issuer form preview := by
  have hclamp : catching isIssueError (clampValidity issuer.cert form.days (Instant.wholeSecond now)) =
      .ok _ := catching_of_raises (raises_clampValidity hdays)
  unfold previewWith
  simp only [catching_of_raises raises_previewSans, hclamp, bind, Except.bind, pure, Except.pure]
  cases hsans : previewSans form with
  | error e =>
    -- No names: the form is refused, whatever its end.
    cases hend : clampValidity issuer.cert form.days (Instant.wholeSecond now) <;>
      exact ⟨_, rfl, by simp [hsans], by simp [hsans], by simp [hend, Prod.ext_iff], by simp [hend], rfl⟩
  | ok sans =>
    have hcanonical := isCanonical_of_previewSans hsans
    obtain ⟨marks, hmarks, hnames⟩ := mapM_previewName hp hcanonical
    obtain ⟨outside, verdict, hverdict, hrefused⟩ := previewVerdict_spec hp hcanonical (previewCn form)
    simp only [hmarks, hverdict, if_neg (previewSans_ne_nil hsans)]
    cases hend : clampValidity issuer.cert form.days (Instant.wholeSecond now) <;>
      exact ⟨_, rfl, by simp [hsans, hnames], by simp [hsans, hrefused], by simp [hend, Prod.ext_iff], by simp [hend], rfl⟩

/-- If the days cannot be added there is none. -/
theorem previewWith_overflow (hp : issuer.cert.tbs.extensions.malformed = false)
    (hdays : ¬ Instant.IsDatetime (Instant.wholeSecond now + Instant.days form.days))
    (chain : Except Failure (List CaCertificate)) :
    ∃ e, previewWith now issuer form chain = .error e ∧ e.kind = .overflow := by
  have hclamp : clampValidity issuer.cert form.days (Instant.wholeSecond now) =
      raise .overflow "date value out of range" := by
    simp [clampValidity, Instant.addDays, refuse, hdays, raise, bind, Except.bind]
  unfold previewWith
  simp only [catching_of_raises raises_previewSans, hclamp, bind, Except.bind, pure, Except.pure]
  cases hsans : previewSans form with
  | error e => exact ⟨_, rfl, rfl⟩
  | ok sans =>
    have hcanonical := isCanonical_of_previewSans hsans
    obtain ⟨marks, hmarks, -⟩ := mapM_previewName hp hcanonical
    obtain ⟨outside, verdict, hverdict, -⟩ := previewVerdict_spec hp hcanonical (previewCn form)
    simp only [hmarks, hverdict, if_neg (previewSans_ne_nil hsans)]
    exact ⟨_, rfl, rfl⟩

/-! ### What is issued -/

variable {issuerKey leafKey : PrivateKey} {crlUrl caIssuersUrl : Option Str} {cert : Cert}
  {capped : Option ℤ} {cn : Str} {principal : Principal}

/-- With a valid common name the preview resolves the names that the signer does. -/
theorem names_of_validateCn (h : validateCn form.subjectCn = .ok cn) :
    previewCn form = some cn ∧ form.names cn = previewSans form := by
  obtain ⟨rfl, hne, -, -⟩ := validateCn_eq_ok.1 h
  have hcn : previewCn form = some (Str.strip form.subjectCn) := if_neg hne
  refine ⟨hcn, ?_⟩
  unfold IssueForm.names previewSans
  rw [hcn]
  cases hparsed : parseSanLines form.sans with
  | error e => rfl
  | ok parsed =>
    simp only [bind, Except.bind, mapM_normalizeSan_of_parseSanLines hparsed]

theorem issueCertificate_eq_ok :
    (∃ leafKey, CertsUi.issueCertificate E d issuerCert issuerKey form crlUrl caIssuersUrl =
      .ok (cert, leafKey, capped)) ↔
    ∃ profile keyType cn sans notAfter, parseProfile form.profile = .ok profile ∧
      keyTypes.lookup form.keyType = some keyType ∧ validateCn form.subjectCn = .ok cn ∧
      validateDays form.days = .ok () ∧ form.names cn = .ok sans ∧
      clampValidity issuerCert form.days d.now = .ok (notAfter, capped) ∧
      checkNameConstraints issuerCert (some cn) sans = .ok () ∧
      assemble E d issuerCert issuerKey (E.publicKey (E.generate keyType d.seed)) cn sans profile notAfter
        crlUrl caIssuersUrl = .ok cert := by
  simp only [CertsUi.issueCertificate, Leaf.issueCertificate, IssueForm.names, buildLeaf_eq, bind_eq_ok,
    pure_eq_ok, refuse_eq_ok, Prod.mk.injEq]
  constructor
  · rintro ⟨leafKey, profile, hprofile, parsed, hparsed, cn, hcn, u, hdays, -, hkeyType, explicit, hexplicit,
      sans, hsans, key, hkey, ⟨cert', capped'⟩, ⟨⟨notAfter, capped''⟩, hclamp, v, hcheck, cert'', hassembled,
      rfl, rfl⟩, rfl, rfl, rfl⟩
    obtain ⟨keyType, hlookup⟩ : ∃ keyType, keyTypes.lookup form.keyType = some keyType := by
      refine Option.ne_none_iff_exists'.1 fun hnone => hkeyType ?_
      rw [hnone]
      rfl
    rw [CaX509.generateKey, hlookup] at hkey
    obtain rfl := Except.ok.inj hkey
    exact ⟨profile, keyType, cn, sans, notAfter, hprofile, hlookup, hcn, hdays,
      ⟨parsed, hparsed, explicit, hexplicit, hsans⟩, hclamp, hcheck, hassembled⟩
  · rintro ⟨profile, keyType, cn, sans, notAfter, hprofile, hlookup, hcn, hdays,
      ⟨parsed, hparsed, explicit, hexplicit, hsans⟩, hclamp, hcheck, hassembled⟩
    refine ⟨_, profile, hprofile, parsed, hparsed, cn, hcn, (), hdays, (), by simp [hlookup], explicit,
      hexplicit, sans, hsans, E.generate keyType d.seed, by rw [CaX509.generateKey, hlookup], (cert, capped),
      ⟨(notAfter, capped), hclamp, (), hcheck, cert, hassembled, rfl⟩, rfl, rfl, rfl⟩

/-! ### Fractions of a second -/

/-- Without its fraction of a second the clock is before an end in whole seconds just as it is with it. -/
theorem wholeSecond_lt_iff {days : ℤ} :
    Instant.wholeSecond now < min (Instant.wholeSecond now + Instant.days days) issuerCert.notValidAfter ↔
      now < min (now + Instant.days days) issuerCert.notValidAfter := by
  unfold Cert.notValidAfter Instant.wholeSecond Instant.seconds Instant.days Instant.ofSeconds
  rw [lt_min_iff, lt_min_iff]
  omega

/-- The end of a leaf in whole seconds does not depend on the fraction; whether an end is reported does,
if it is the end in whole seconds. -/
theorem clampValidity_wholeSecond {days notAfter e : ℤ} {capped capped' : Option ℤ}
    (h : clampValidity issuerCert days now = .ok (notAfter, capped))
    (h' : clampValidity issuerCert days (Instant.wholeSecond now) = .ok (e, capped')) :
    e = Instant.wholeSecond notAfter ∧
      (capped.map Instant.seconds = capped'.map Instant.seconds ↔
        (issuerCert.notValidAfter = Instant.wholeSecond now + Instant.days days →
          Instant.wholeSecond now = now)) := by
  obtain ⟨-, rfl, -, rfl⟩ := clampValidity_eq_ok.1 h
  obtain ⟨-, rfl, -, rfl⟩ := clampValidity_eq_ok.1 h'
  unfold Cert.notValidAfter Instant.wholeSecond Instant.seconds Instant.days Instant.ofSeconds
  constructor
  · omega
  · split_ifs <;> simp only [Option.map_some, Option.map_none, Option.some.injEq, reduceCtorEq, true_iff,
      false_iff] <;> omega

/-! ### The preview comes true -/

theorem assemble_spec {pk : PublicKey} {profile : Profile} {notAfter : ℤ}
    (h : assemble E d issuerCert issuerKey pk cn sans profile notAfter crlUrl caIssuersUrl = .ok cert) :
    cert.notValidAfter = Instant.wholeSecond notAfter ∧ ∃ names, sans.mapM (generalName E) = .ok names ∧
      cert.tbs.extensions.subjectAlternativeName = some ⟨names.map GeneralName.encoded, false⟩ := by
  simp only [assemble, bind_eq_ok] at h
  obtain ⟨subject, -, aki, -, names, hnames, hbuild⟩ := h
  obtain ⟨-, htbs, -⟩ := build_eq_ok hbuild
  refine ⟨?_, names, hnames, ?_⟩
  · simp [Cert.notValidAfter, htbs, encodeTbs, Instant.wholeSecond]
  · simp [htbs, encodeTbs, leafExtensions]

theorem usable_of_available (h : Available E d db principal form)
    (hp : issuer.cert.tbs.extensions.malformed = false) (hunexpired : d.now < issuer.cert.notValidAfter) :
    Usable d issuer.cert :=
  ⟨hp, hunexpired, h.clock, by simp [h.ready.quiet]⟩

/-- Where the constraints are not met, the form is refused with an `IssueError`. -/
theorem raises_of_refused (hp : issuerCert.tbs.extensions.malformed = false)
    (hdatetime : ∀ u, validateDays form.days = .ok u → Instant.IsDatetime (d.now + Instant.days form.days))
    (h : ∀ cn sans, validateCn form.subjectCn = .ok cn → form.names cn = .ok sans →
      checkNameConstraints issuerCert (some cn) sans ≠ .ok ()) :
    Raises (isIssueError · = true)
      (CertsUi.issueCertificate E d issuerCert issuerKey form crlUrl caIssuersUrl) := by
  refine raises_bind (raises_parseProfile _) fun profile _ => ?_
  refine raises_bind (raises_parseSanLines _) fun parsed hparsed => ?_
  refine raises_bind (raises_validateCn _) fun cn hcn => ?_
  refine raises_bind (raises_validateDays _) fun u hdays => ?_
  refine raises_bind (raises_refuse rfl) fun _ hkeyType => ?_
  refine raises_bind (raises_normalizeSans _) fun explicit hexplicit => ?_
  refine raises_bind raises_resolve fun sans hsans => ?_
  refine raises_bind ?_ fun key _ => raises_bind ?_ fun _ _ => raises_pure
  · unfold CaX509.generateKey
    split
    · exact raises_ok
    · rename_i hnone
      exact absurd (by rw [hnone]; rfl) (refuse_eq_ok.1 hkeyType)
  · rw [buildLeaf_eq]
    refine raises_bind (raises_clampValidity (hdatetime u hdays)) fun clamped _ => ?_
    refine raises_bind ?_ fun v hcheck => ?_
    · exact raises_mono (fun _ => isIssueError_of_nameConstraint)
        (raises_checkNameConstraints_of_parses hp (isCanonical_of_resolveSans hexplicit hsans) _)
    · refine absurd hcheck (h cn sans hcn ?_)
      simp only [IssueForm.names, bind_eq_ok]
      exact ⟨parsed, hparsed, explicit, hexplicit, hsans⟩

/-- The days that are accepted can be added. -/
theorem isDatetime_of_available (h : Available E d db principal form) {u : Unit}
    (hdays : validateDays form.days = .ok u) : Instant.IsDatetime (d.now + Instant.days form.days) := by
  obtain ⟨hmin, hmax⟩ : 1 ≤ form.days ∧ form.days ≤ 3650 := by
    simpa [validateDays, minDays, maxDays] using hdays
  obtain ⟨hearly, hlate⟩ := h.clock
  unfold Instant.IsDatetime Instant.days Instant.ofSeconds maxDays at *
  unfold earliestUtcTime backdate Instant.minutes Instant.ofSeconds at hearly
  omega

/-- If the preview comes true, what it does not look at is in order. -/
theorem foreseen_of_comesTrue {preview : IssuePreview} (hav : Available E d db principal form)
    (hresolve : Grants.resolveGrantedIssuer db principal form.issuerId = .ok issuer)
    (hp : issuer.cert.tbs.extensions.malformed = false)
    (hdays : Instant.IsDatetime (Instant.wholeSecond d.now + Instant.days form.days))
    (hshows : Shows d.now issuer form preview) (htrue : ComesTrue E d db principal form preview)
    (hsans : previewSans form = .ok sans)
    (hcheck : checkNameConstraints issuer.cert (previewCn form) sans = .ok ())
    (hlt : Instant.wholeSecond d.now <
      min (Instant.wholeSecond d.now + Instant.days form.days) issuer.cert.notValidAfter) :
    Foreseen E d issuer.cert form sans := by
  have hwhole := clampValidity_eq_ok.2 ⟨hdays, rfl, hlt, rfl⟩
  obtain ⟨hexpires, hcapped⟩ := hshows.expires _ _ hwhole
  obtain ⟨db', issued, hissued, has⟩ :=
    htrue.issued (hshows.refused.2 ⟨sans, hsans, hcheck⟩) (by simp [hexpires])
  obtain ⟨key, hkey⟩ := hav.ready.key issuer hresolve
  rcases certsIssue_cases hav.ready hresolve hkey with
    ⟨e, -, hstore⟩ | ⟨cert, leafKey, capped, db'', row, hissue, hstore, -⟩
  · rw [hissued] at hstore
    cases hstore
  rw [hissued] at hstore
  cases hstore
  obtain ⟨profile, keyType, cn, sans', notAfter, -, -, hcn, hvalid, hnames, hclamp, -, hassembled⟩ :=
    issueCertificate_eq_ok.1 ⟨leafKey, hissue⟩
  obtain rfl : sans = sans' := Except.ok.inj (hsans.symm.trans ((names_of_validateCn hcn).2 ▸ hnames))
  obtain ⟨-, rfl, hlater, -⟩ := clampValidity_eq_ok.1 hclamp
  have husable := usable_of_available hav hp (hlater.trans_le (min_le_right _ _))
  refine ⟨⟨cn, hcn, (exists_assemble_iff husable (validateCn_eq_ok.1 hcn).2.1
    (isCanonical_of_previewSans hsans) hlater).1 ⟨_, hassembled⟩⟩, ?_, ?_⟩
  · exact (not_or.1 (refuse_eq_ok.1 hvalid)).2 |> not_lt.1
  · exact (clampValidity_wholeSecond hclamp hwhole).2.1 (hcapped ▸ has.cappedFrom)

/-- If what the preview does not look at is in order, the preview comes true. -/
theorem comesTrue_of_foreseen {preview : IssuePreview} (hav : Available E d db principal form)
    (hresolve : Grants.resolveGrantedIssuer db principal form.issuerId = .ok issuer)
    (hp : issuer.cert.tbs.extensions.malformed = false) (hshows : Shows d.now issuer form preview)
    (hforeseen : ∀ sans, previewSans form = .ok sans →
      checkNameConstraints issuer.cert (previewCn form) sans = .ok () →
      Instant.wholeSecond d.now <
        min (Instant.wholeSecond d.now + Instant.days form.days) issuer.cert.notValidAfter →
      Foreseen E d issuer.cert form sans) : ComesTrue E d db principal form preview := by
  obtain ⟨key, hkey⟩ := hav.ready.key issuer hresolve
  constructor
  · intro hrefused hexpires
    obtain ⟨sans, hsans, hcheck⟩ := hshows.refused.1 hrefused
    cases hwhole : clampValidity issuer.cert form.days (Instant.wholeSecond d.now) with
    | error exc => exact absurd (hshows.unclamped exc hwhole) hexpires
    | ok x =>
      obtain ⟨e, capped'⟩ := x
      obtain ⟨hexpiry, hcapped⟩ := hshows.expires e capped' hwhole
      obtain ⟨-, rfl, hlt, -⟩ := clampValidity_eq_ok.1 hwhole
      obtain ⟨⟨cn, hcn, hencodes⟩, hmax, hfraction⟩ := hforeseen sans hsans hcheck hlt
      obtain ⟨hpreviewCn, hnames⟩ := names_of_validateCn hcn
      have hnow := wholeSecond_lt_iff.1 hlt
      have husable := usable_of_available hav hp (hnow.trans_le (min_le_right _ _))
      have hvalid : validateDays form.days = .ok () := by
        have hpos : d.now < d.now + Instant.days form.days := hnow.trans_le (min_le_left _ _)
        refine refuse_eq_ok.2 (not_or.2 ⟨not_lt.2 ?_, not_lt.2 hmax⟩)
        unfold Instant.days Instant.ofSeconds at hpos
        unfold minDays
        omega
      obtain ⟨notAfter, capped, hclamp, hlater⟩ := clampValidity_of_usable husable hvalid
      obtain ⟨profile, hprofile⟩ := hav.profile
      obtain ⟨keyType, hkeyType⟩ := hav.keyType
      obtain ⟨cert, hassembled⟩ := (exists_assemble_iff husable (validateCn_eq_ok.1 hcn).2.1
        (isCanonical_of_previewSans hsans) hlater).2 hencodes
      obtain ⟨leafKey, hissue⟩ := issueCertificate_eq_ok.2 ⟨profile, keyType, cn, sans, notAfter, hprofile,
        hkeyType, hcn, hvalid, hnames.trans hsans, hclamp, hpreviewCn ▸ hcheck, hassembled⟩
      rcases certsIssue_cases hav.ready hresolve hkey with
        ⟨e, hfailed, -⟩ | ⟨cert', leafKey', capped'', db', row, hissue', hstore, rfl⟩
      · rw [hissue] at hfailed
        cases hfailed
      · obtain ⟨rfl, rfl, rfl⟩ : cert = row.cert ∧ leafKey = leafKey' ∧ capped = capped'' := by
          simpa using hissue.symm.trans hissue'
        obtain ⟨hend, names, hgeneral, hext⟩ := assemble_spec hassembled
        obtain ⟨hsame, hfractions⟩ := clampValidity_wholeSecond hclamp hwhole
        refine ⟨db', _, hstore, ?_, ⟨names, false, ?_, hext⟩, ?_⟩
        · rw [hexpiry, hend, hsame]
        · rw [hshows.names sans hsans]
          exact hgeneral
        · rw [hcapped]
          exact hfractions.2 hfraction
  · intro hrefused
    have hnot : ∀ cn sans, validateCn form.subjectCn = .ok cn → form.names cn = .ok sans →
        checkNameConstraints issuer.cert (some cn) sans ≠ .ok () := by
      intro cn sans hcn hsans hcheck
      obtain ⟨hpreviewCn, hnames⟩ := names_of_validateCn hcn
      have hclear := hshows.refused.2 ⟨sans, hnames ▸ hsans, hpreviewCn ▸ hcheck⟩
      rw [hclear] at hrefused
      cases hrefused
    rcases certsIssue_cases hav.ready hresolve hkey with
      ⟨e, hissue, hstore⟩ | ⟨cert, leafKey, capped, db', row, hissue, -, -⟩
    · refine ⟨e, hstore, ?_⟩
      exact raises_of_refused hp (fun u hdays => isDatetime_of_available hav hdays) hnot e hissue
    · obtain ⟨profile, keyType, cn, sans, notAfter, -, -, hcn, -, hnames, -, hcheck, -⟩ :=
        issueCertificate_eq_ok.1 ⟨leafKey, hissue⟩
      exact absurd hcheck (hnot cn sans hcn hnames)

/-! ### The main result -/

/-- Where there is no issuer, the preview is blank or raises a grant error. -/
theorem previewAgrees_of_error {e : Failure}
    (h : Grants.resolveGrantedIssuer db principal form.issuerId = .error e) :
    PreviewAgrees E d db principal form := by
  have hkind := raises_resolveGrantedIssuer e h
  refine ⟨if e.kind = .caNotConfigured ∨ isIssuerError e then .ok {} else .error e,
    fun fuel _ => by simp only [issuePreview, h], ?_⟩
  split_ifs with hblank
  · refine ⟨raises_ok, fun preview hpreview hissuer => ?_⟩
    cases hpreview
    exact absurd rfl hissuer
  · rw [not_or] at hblank
    exact ⟨raises_error ((hkind.resolve_left hblank.1).resolve_left hblank.2), nofun⟩

/-- A CA with one issuer. -/
def oneIssuer : Db :=
  (caMachine .transparent).final (.start [] [] none)
    [(.hierarchy (.createRoot (Str.of "Root") "ecdsa-p256" 20 1), .sample 1),
      (.hierarchy (.createIntermediateUnder 1 (Str.of "Issuer") "ecdsa-p256" 10 none), .sample 2)]

/-- A form whose common name has one character too many. -/
def longCn : IssueForm := { subjectCn := List.replicate 65 0x61, sans := Str.of "nas.lan" }

theorem available_longCn : Available .transparent (.sample 3) oneIssuer .system longCn where
  profile := ⟨.server, by decide +kernel⟩
  keyType := Option.ne_none_iff_exists'.1 (by decide +kernel)
  clock := by decide +kernel
  ready :=
    { quiet := rfl
      serialNumber := by decide +kernel
      key := fun issuer hissuer => by
        have hkeys : ∀ r ∈ oneIssuer.cas, r.kind = .intermediate →
            (signingCredentials .transparent (.sample 3) oneIssuer.cas r.id).toOption.map Prod.fst =
              some r.cert := by
          decide +kernel
        have hkey := hkeys issuer (resolveGrantedIssuer_mem hissuer).1 (kind_of_resolveGrantedIssuer hissuer)
        obtain ⟨⟨cert, key⟩, hcredentials, rfl⟩ := Option.map_eq_some_iff.1 hkey
        exact ⟨key, toOption_eq_some.1 hcredentials⟩ }

end CertsUi

end Cabin
