import Cabin.X509.Transparent
import Cabin.Ca.Constraints

/-!
# What a request contributes

A certificate signing request is to contribute its key, its common name and, unless other names are
given, its names (`ca/leaf.py`, `sign_csr`).  Two requests that agree in these should have the same
outcome.  They do, up to a check that is made too often: the names of a request are put to the policy
even where they do not count.

* `leafOf_of_signCsr` : what every certificate that comes out looks like;
* `csr_contributes_iff` : when two requests have the same outcome.
-/

namespace Cabin

namespace Leaf

open X509

/-! ### What is expected -/

/-- The first common name of a request. -/
def Csr.commonName (csr : Csr) : Option AttributeValue :=
  (csr.subject.attributesForOid commonNameOid).head?.map NameAttribute.value

/-- The DNS, IP and mail entries of a request, as texts. -/
def Csr.entries (csr : Csr) : List Str := sanStrings (csr.subjectAlternativeName.getD [])

/-- The request is signed by its key, and its extensions parse. -/
structure Csr.IsValid (csr : Csr) : Prop where
  signed : csr.isSignatureValid = true
  parses : csr.malformed = false

/-- The same certificate up to the serial number, and the same report on its end. -/
def SameUpToSerial (x y : Cert × Option ℤ) : Prop :=
  { x.1.tbs with serialNumber := y.1.tbs.serialNumber } = y.1.tbs ∧ x.2 = y.2

/-- Two calls at the same time, in which the same fails. -/
structure SameMoment (d d' : Draw) : Prop where
  now : d.now = d'.now
  fault : d.fault = d'.fault

/-- The names given in place of those of the request. -/
def CsrOptions.override (opts : CsrOptions) : List Str := opts.sansOverride.getD []

/-- The rung of the ladder that decides on the names of a leaf. -/
inductive Rung (opts : CsrOptions) (csr : Csr) (cn : Option Str) : List Str → Prop
  | override {explicit : List Str} (given : opts.override ≠ [])
      (normalized : opts.override.mapM normalizeSan = .ok explicit) : Rung opts csr cn explicit
  | request {sans : List Str} (given : opts.override = []) (nonempty : sans ≠ [])
      (normalized : csrSans csr = .ok sans) : Rung opts csr cn sans
  | commonName {san : Str} (given : opts.override = []) (none : csrSans csr = .ok [])
      (fallback : cn.bind sanFromCn = some san) : Rung opts csr cn [san]

/-- What a certificate that comes out looks like. -/
structure LeafOf (E : Crypto) (d : Draw) (issuerCert : Cert) (csr : Csr) (profile : Profile) (days : ℤ)
    (opts : CsrOptions) (cert : Cert) (capped : Option ℤ) : Prop where
  basicConstraints : cert.tbs.extensions.basicConstraints = some ⟨⟨false, none⟩, true⟩
  eku : cert.tbs.extensions.extendedKeyUsage = some ⟨[profile.eku], false⟩
  /-- The names are those of the rung, each once, and the constraints of the issuer admit them. -/
  sans : ∃ cn chosen names, csrSubject csr opts.subjectCnFallback opts.allowEmptySubject = .ok cn ∧
    Rung opts csr cn chosen ∧ (Str.unique chosen).mapM (generalName E) = .ok names ∧
    cert.tbs.extensions.subjectAlternativeName = some ⟨names.map GeneralName.encoded, cn.isNone⟩ ∧
    checkNameConstraints issuerCert cn (Str.unique chosen) = .ok ()
  notAfter_le : cert.notValidAfter ≤ issuerCert.notValidAfter
  now_lt : d.now < cert.notValidAfter
  /-- The end asked for is reported exactly where it is later than the issuer's. -/
  capped_iff : ∀ x, capped = some x ↔ x = d.now + Instant.days days ∧ issuerCert.notValidAfter < x

/-- A request contributes its key, its common name and, where none are given, its names. -/
structure Contributes (E : Crypto) (d d' : Draw) (issuerCert : Cert) (issuerKey : PrivateKey)
    (profile : Profile) (days : ℤ) (opts : CsrOptions) (crlUrl caIssuersUrl : Option Str)
    (csr csr' : Csr) : Prop where
  overridden : opts.override ≠ [] → Agree SameUpToSerial
    (signCsr E d issuerCert issuerKey (.ok csr) profile days opts crlUrl caIssuersUrl)
    (signCsr E d' issuerCert issuerKey (.ok csr') profile days opts crlUrl caIssuersUrl)
  requested : opts.override = [] → csr.entries = csr'.entries → Agree SameUpToSerial
    (signCsr E d issuerCert issuerKey (.ok csr) profile days opts crlUrl caIssuersUrl)
    (signCsr E d' issuerCert issuerKey (.ok csr') profile days opts crlUrl caIssuersUrl)
  leaf : ∀ cert capped,
    signCsr E d issuerCert issuerKey (.ok csr) profile days opts crlUrl caIssuersUrl =
      .ok (cert, capped) → LeafOf E d issuerCert csr profile days opts cert capped

/-- The names of the requests make no difference where others are given: the call is refused before they
are looked at, or neither request has an entry that the policy refuses, or the first is the same. -/
def Unaffected (days : ℤ) (opts : CsrOptions) (csr csr' : Csr) : Prop :=
  (days < minDays ∨ maxDays < days) ∨
  (∃ e, csrSubject csr opts.subjectCnFallback opts.allowEmptySubject = .error e) ∨
  (∃ san ∈ opts.override, ∃ e, normalizeSan san = .error e) ∨
  Agree (fun _ _ => True) (csrSans csr) (csrSans csr')

variable {E : Crypto} {d d' : Draw} {issuerCert : Cert} {issuerKey : PrivateKey} {profile : Profile}
  {days : ℤ} {opts : CsrOptions} {crlUrl caIssuersUrl : Option Str} {csr csr' : Csr}

/-! ### The call on a valid request -/

theorem signCsr_eq (h : csr.IsValid) :
    signCsr E d issuerCert issuerKey (.ok csr) profile days opts crlUrl caIssuersUrl =
      (validateDays days >>= fun _ =>
        csrSubject csr opts.subjectCnFallback opts.allowEmptySubject >>= fun cn =>
        opts.override.mapM normalizeSan >>= fun explicit => csrSans csr >>= fun fromCsr =>
        resolveSans explicit fromCsr cn >>= fun resolved =>
        buildLeaf E d issuerCert issuerKey csr.publicKey cn resolved profile days crlUrl
          caIssuersUrl) := by
  have hsigned : refuse (csr.isSignatureValid = false)
      (⟨.issue, "the CSR's signature is not valid"⟩ : Failure) = .ok () := by
    simp [refuse, h.signed]
  refine congrArg (validateDays days >>= ·) (funext fun _ => ?_)
  change (refuse (csr.isSignatureValid = false) _ >>= fun _ => _) = _
  rw [hsigned]
  rfl

theorem csrSubject_congr (h : csr.commonName = csr'.commonName) (fallback : Option Str) (empty : Bool) :
    csrSubject csr fallback empty = csrSubject csr' fallback empty := by
  unfold csrSubject
  rw [show (csr.subject.attributesForOid commonNameOid).head?.map NameAttribute.value =
    (csr'.subject.attributesForOid commonNameOid).head?.map NameAttribute.value from h]

theorem csrSans_eq (h : csr.IsValid) : csrSans csr = csr.entries.mapM normalizeSan := by
  unfold csrSans Csr.entries
  rw [if_neg (by simp [h.parses])]
  cases csr.subjectAlternativeName <;> rfl

theorem agree_build (h : SameMoment d d') (key : PrivateKey) (issuer subject : Name) (pk : PublicKey)
    (notBefore notAfter : ℤ) (x : Extensions) :
    Agree (fun c c' => { c.tbs with serialNumber := c'.tbs.serialNumber } = c'.tbs)
      (build E d key issuer subject pk notBefore notAfter x)
      (build E d' key issuer subject pk notBefore notAfter x) := by
  unfold build Draw.attempt
  rw [h.fault]
  refine agree_bind_self fun _ _ => agree_bind_self fun _ _ => agree_bind_self fun _ _ => ?_
  rfl

/-- The names and the key decide on the leaf, up to the serial number. -/
theorem agree_buildLeaf (h : SameMoment d d') (pk : PublicKey) (cn : Option Str) (sans : List Str) :
    Agree SameUpToSerial
      (buildLeaf E d issuerCert issuerKey pk cn sans profile days crlUrl caIssuersUrl)
      (buildLeaf E d' issuerCert issuerKey pk cn sans profile days crlUrl caIssuersUrl) := by
  unfold buildLeaf
  rw [h.now]
  refine agree_bind_self fun clamped _ => agree_bind_self fun _ _ => ?_
  refine agree_bind_self fun subject _ => agree_bind_self fun aki _ => agree_bind_self fun names _ => ?_
  exact agree_bind (agree_build h ..) fun c c' _ _ hc => ⟨hc, rfl⟩

/-! ### What comes out -/

theorem mapM_normalizeSan_eq_nil {sans explicit : List Str} (h : sans.mapM normalizeSan = .ok explicit) :
    explicit = [] ↔ sans = [] := by
  obtain ⟨hback, hforth⟩ := mem_of_mapM_eq_ok h
  simp only [List.eq_nil_iff_forall_not_mem]
  constructor
  · intro hnone x hx
    obtain ⟨y, hy, -⟩ := hforth x hx
    exact hnone y hy
  · intro hnone y hy
    obtain ⟨x, hx, -⟩ := hback y hy
    exact hnone x hx

theorem rung_of_chooseSans {cn : Option Str} {explicit fromCsr chosen : List Str}
    (he : opts.override.mapM normalizeSan = .ok explicit) (hf : csrSans csr = .ok fromCsr)
    (h : chooseSans explicit fromCsr cn = .ok chosen) : Rung opts csr cn chosen := by
  have hnil := mapM_normalizeSan_eq_nil he
  unfold chooseSans at h
  split at h
  · rename_i hgiven
    cases h
    exact .override (hnil.not.1 hgiven) he
  · rename_i hnone
    have hover : opts.override = [] := hnil.1 (not_not.1 hnone)
    split at h
    · rename_i hgiven
      cases h
      exact .request hover hgiven hf
    · rename_i hempty
      rw [not_not] at hempty
      subst hempty
      split at h
      · rename_i san hsan
        cases h
        exact .commonName hover hf hsan
      · cases h

/-- The end of a leaf: a whole number of seconds cuts nothing off that matters. -/
theorem notAfter_of_clampValidity {now notAfter : ℤ} {capped : Option ℤ}
    (h : clampValidity issuerCert days now = .ok (notAfter, capped)) :
    Instant.ofSeconds (Instant.seconds notAfter) ≤ issuerCert.notValidAfter ∧
      now < Instant.ofSeconds (Instant.seconds notAfter) ∧
      ∀ x, capped = some x ↔ x = now + Instant.days days ∧ issuerCert.notValidAfter < x := by
  simp only [clampValidity, Instant.addDays, bind_eq_ok, refuse_eq_ok, pure_eq_ok, Prod.mk.injEq] at h
  obtain ⟨-, ⟨-, -, rfl⟩, -, hlater, rfl, rfl⟩ := h
  have hwhole : issuerCert.notValidAfter = Instant.ofSeconds issuerCert.tbs.notAfter := rfl
  refine ⟨?_, ?_, fun x => ?_⟩
  · unfold Instant.seconds Instant.ofSeconds
    rw [hwhole] at hlater ⊢
    unfold Instant.ofSeconds at hlater ⊢
    omega
  · rw [hwhole] at hlater ⊢
    unfold Instant.days Instant.ofSeconds at hlater
    unfold Instant.seconds Instant.days Instant.ofSeconds
    omega
  · rw [Option.ite_none_right_eq_some, Option.some_inj]
    constructor
    · rintro ⟨hlt, rfl⟩
      exact ⟨rfl, by omega⟩
    · rintro ⟨rfl, hlt⟩
      exact ⟨by omega, rfl⟩

theorem leafOf_of_signCsr {cert : Cert} {capped : Option ℤ} (hcsr : csr.IsValid)
    (h : signCsr E d issuerCert issuerKey (.ok csr) profile days opts crlUrl caIssuersUrl =
      .ok (cert, capped)) : LeafOf E d issuerCert csr profile days opts cert capped := by
  rw [signCsr_eq hcsr] at h
  simp only [bind_eq_ok] at h
  obtain ⟨u, hdays, cn, hcn, explicit, he, fromCsr, hf, resolved, hr, h⟩ := h
  simp only [resolveSans, bind_eq_ok, refuse_eq_ok, pure_eq_ok] at hr
  obtain ⟨chosen, hchosen, -, -, rfl⟩ := hr
  simp only [buildLeaf, bind_eq_ok, pure_eq_ok, Prod.mk.injEq] at h
  obtain ⟨⟨notAfter, capped'⟩, hclamp, v, hnc, subject, -, aki, haki, names, hnames, c, hc, rfl, rfl⟩ := h
  obtain ⟨-, htbs, -⟩ := build_eq_ok hc
  obtain ⟨hle, hlt, hcapped⟩ := notAfter_of_clampValidity hclamp
  refine ⟨?_, ?_, ⟨cn, chosen, names, hcn, rung_of_chooseSans he hf hchosen, hnames, ?_, hnc⟩, ?_, ?_,
    hcapped⟩
  · simp [htbs, encodeTbs, leafExtensions]
  · simp [htbs, encodeTbs, leafExtensions]
  · simp [htbs, encodeTbs, leafExtensions]
  · simpa [Cert.notValidAfter, htbs, encodeTbs] using hle
  · simpa [Cert.notValidAfter, htbs, encodeTbs] using hlt

/-! ### Two refusals -/

/-- The first character of a text. -/
def initial (s : String) : Option Char := s.toList.head?

/-- The refusal of an entry: its text begins as one of the policy does. -/
def RefusesEntry (e : Failure) : Prop :=
  e.kind = .issue ∧ (initial e.message = some 'e' ∨ initial e.message = some 'n')

theorem initial_append {s t : String} {c : Char} (h : initial s = some c) :
    initial (s ++ t) = some c := by
  unfold initial at *
  rw [String.toList_append, List.head?_append, h]
  rfl

theorem raises_normalizeSan_entry (entry : Str) : Raises RefusesEntry (normalizeSan entry) := by
  unfold normalizeSan
  refine raises_bind (raises_refuse ⟨rfl, .inl ?_⟩) fun _ _ => ?_
  · exact initial_append (by decide)
  refine raises_bind (raises_refuse ⟨rfl, .inr ?_⟩) fun _ _ => ?_
  · exact initial_append (by decide)
  refine raises_bind (raises_refuse ⟨rfl, .inr ?_⟩) fun _ _ => ?_
  · exact initial_append (by decide)
  refine raises_bind (raises_refuse ⟨rfl, .inr ?_⟩) fun _ _ => raises_pure
  exact initial_append (by decide)

theorem raises_csrSans (h : csr.IsValid) : Raises RefusesEntry (csrSans csr) := by
  rw [csrSans_eq h]
  exact raises_mapM fun entry _ => raises_normalizeSan_entry entry

theorem not_refusesEntry_of_kind {e : Failure} (h : e.kind ≠ .issue) : ¬ RefusesEntry e :=
  fun he => h he.1

theorem not_refusesEntry_of_initial {e : Failure} {c : Char} (h : initial e.message = some c)
    (he : c ≠ 'e') (hn : c ≠ 'n') : ¬ RefusesEntry e := by
  rintro ⟨-, hi | hi⟩ <;> rw [h] at hi
  · exact he (Option.some.inj hi)
  · exact hn (Option.some.inj hi)

theorem raises_extension? {α : Type} {c : Cert} {field : Extensions → Option (Ext α)} :
    Raises (fun e => e.kind = .value) (c.extension? field) := by
  unfold Cert.extension? Cert.extension raise
  cases c.tbs.extensions.malformed <;> cases field c.tbs.extensions <;>
    simp [raises_error_iff, raises_ok]

theorem raises_checkNameConstraints_any {cn : Option Str} {sans : List Str} :
    Raises (fun e => e.kind ≠ .issue) (checkNameConstraints issuerCert cn sans) := by
  unfold checkNameConstraints
  refine raises_bind (raises_mono (fun e he => by simp [he]) raises_extension?) fun nc _ => ?_
  cases nc with
  | none => exact raises_pure
  | some nc =>
    refine raises_forM fun san _ => ?_
    have hsubtrees : ∀ e : Failure, e.kind = .nameConstraint → e.kind ≠ .issue := fun e he => by simp [he]
    unfold checkName
    generalize Str.partition 0x3A san = parts
    obtain ⟨head, rest⟩ := parts
    simp only
    split
    · exact raises_mono hsubtrees raises_checkSubtrees
    · split
      · exact raises_mono hsubtrees raises_checkSubtrees
      · exact raises_error (by simp)
    · exact raises_refuse (by simp)
    · exact raises_ok

theorem raises_leafSubject {cn : Option Str} :
    Raises (fun e => e.kind = .value) (leafSubject cn) := by
  cases cn with
  | none => exact raises_ok
  | some cn =>
    refine raises_bind ?_ fun a _ => raises_pure
    unfold commonNameAttribute
    split
    · exact raises_error rfl
    · split
      · exact raises_ok
      · exact raises_error rfl

theorem raises_authorityKeyIdentifier :
    Raises (fun e => e.kind = .value) (CaX509.authorityKeyIdentifier E issuerCert issuerKey) := by
  refine raises_bind raises_extension? fun ski _ => ?_
  cases ski <;> exact raises_pure

/-- Nothing that comes after the names is refused in the words of the policy. -/
theorem raises_buildLeaf {pk : PublicKey} {cn : Option Str} {sans : List Str} :
    Raises (fun e => ¬ RefusesEntry e)
      (buildLeaf E d issuerCert issuerKey pk cn sans profile days crlUrl caIssuersUrl) := by
  have hvalue : ∀ e : Failure, e.kind = .value → ¬ RefusesEntry e := fun e he =>
    not_refusesEntry_of_kind (by simp [he])
  unfold buildLeaf
  refine raises_bind ?_ fun clamped _ => raises_bind ?_ fun _ _ => raises_bind ?_ fun subject _ =>
    raises_bind ?_ fun aki _ => raises_bind (raises_mapM fun san _ => ?_) fun names _ =>
    raises_bind ?_ fun cert _ => raises_pure
  · refine raises_bind ?_ fun requested _ => raises_bind (raises_refuse ?_) fun _ _ => raises_pure
    · exact raises_bind (raises_refuse (not_refusesEntry_of_kind (by simp))) fun _ _ => raises_pure
    · exact not_refusesEntry_of_initial (c := 't') (by decide) (by decide) (by decide)
  · exact raises_mono (fun e he => not_refusesEntry_of_kind he) raises_checkNameConstraints_any
  · exact raises_mono hvalue raises_leafSubject
  · exact raises_mono hvalue raises_authorityKeyIdentifier
  · unfold generalName
    generalize Str.partition 0x3A san = parts
    obtain ⟨head, rest⟩ := parts
    simp only
    split
    · split
      · exact raises_ok
      · exact raises_error (hvalue _ rfl)
    · split
      · exact raises_ok
      · exact raises_error (hvalue _ rfl)
    · split
      · exact raises_ok
      · exact raises_error (hvalue _ rfl)
    · refine raises_error (not_refusesEntry_of_initial (c := 'u') ?_ (by decide) (by decide))
      exact initial_append (by decide)
  · unfold build Draw.attempt
    refine raises_bind (raises_refuse (hvalue _ rfl)) fun _ _ => ?_
    refine raises_bind (raises_refuse (hvalue _ rfl)) fun _ _ => ?_
    refine raises_bind (raises_refuse (not_refusesEntry_of_kind (by simp))) fun _ _ => raises_pure

theorem raises_resolveSans {cn : Option Str} {explicit fromCsr : List Str} (h : explicit ≠ []) :
    Raises (fun e => ¬ RefusesEntry e) (resolveSans explicit fromCsr cn) := by
  unfold resolveSans chooseSans
  rw [if_pos h]
  refine raises_bind raises_ok fun chosen _ => raises_bind (raises_refuse ?_) fun _ _ => raises_pure
  exact not_refusesEntry_of_initial (c := 't') (by decide) (by decide) (by decide)

/-! ### Two requests -/

/-- Where the names do not count, the outcomes agree up to the verdict on them. -/
theorem agree_overridden (hcsr : csr.IsValid) (hcsr' : csr'.IsValid)
    (hkey : csr.publicKey = csr'.publicKey) (hcn : csr.commonName = csr'.commonName)
    (hmoment : SameMoment d d') (hgiven : opts.override ≠ []) :
    Agree SameUpToSerial
      (signCsr E d issuerCert issuerKey (.ok csr) profile days opts crlUrl caIssuersUrl)
      (signCsr E d' issuerCert issuerKey (.ok csr') profile days opts crlUrl caIssuersUrl) ↔
    Unaffected days opts csr csr' := by
  rw [signCsr_eq hcsr, signCsr_eq hcsr', ← csrSubject_congr hcn, ← hkey]
  unfold Unaffected
  cases hdays : validateDays days with
  | error e =>
    have hrange := (refuse_eq_error.1 hdays).1
    exact ⟨fun _ => .inl hrange, fun _ => rfl⟩
  | ok u =>
    have hrange := refuse_eq_ok.1 hdays
    cases hsubject : csrSubject csr opts.subjectCnFallback opts.allowEmptySubject with
    | error e => exact ⟨fun _ => .inr (.inl ⟨e, rfl⟩), fun _ => rfl⟩
    | ok cn =>
      cases hexplicit : opts.override.mapM normalizeSan with
      | error e =>
        obtain ⟨san, hsan, he⟩ := exists_of_mapM_eq_error hexplicit
        exact ⟨fun _ => .inr (.inr (.inl ⟨san, hsan, e, he⟩)), fun _ => rfl⟩
      | ok explicit =>
        have hnormal : ¬ ∃ san ∈ opts.override, ∃ e, normalizeSan san = .error e := by
          rintro ⟨san, hsan, e, he⟩
          obtain ⟨y, -, hy⟩ := (mem_of_mapM_eq_ok hexplicit).2 san hsan
          rw [he] at hy
          cases hy
        have hne : explicit ≠ [] := (mapM_normalizeSan_eq_nil hexplicit).not.2 hgiven
        have hrest : ∀ (x : Draw) (fromCsr : List Str), Raises (fun e => ¬ RefusesEntry e)
            (resolveSans explicit fromCsr cn >>= fun resolved =>
              buildLeaf E x issuerCert issuerKey csr.publicKey cn resolved profile days crlUrl
                caIssuersUrl) := fun x fromCsr =>
          raises_bind (raises_resolveSans hne) fun _ _ => raises_buildLeaf
        have hsame : ∀ fromCsr fromCsr', resolveSans explicit fromCsr cn =
            resolveSans explicit fromCsr' cn := by
          intro fromCsr fromCsr'
          simp only [resolveSans, chooseSans, if_pos hne]
        simp only [reduceCtorEq, exists_false, false_or, hrange, hnormal]
        refine agree_bind_iff (raises_csrSans hcsr) (raises_csrSans hcsr') (hrest d) (hrest d')
          fun fromCsr fromCsr' => ?_
        rw [hsame fromCsr fromCsr']
        exact agree_bind_self fun resolved _ => agree_buildLeaf hmoment ..

/-- Where the names count, the outcomes agree if the names do. -/
theorem agree_requested (hcsr : csr.IsValid) (hcsr' : csr'.IsValid)
    (hkey : csr.publicKey = csr'.publicKey) (hcn : csr.commonName = csr'.commonName)
    (hmoment : SameMoment d d') (hentries : csr.entries = csr'.entries) :
    Agree SameUpToSerial
      (signCsr E d issuerCert issuerKey (.ok csr) profile days opts crlUrl caIssuersUrl)
      (signCsr E d' issuerCert issuerKey (.ok csr') profile days opts crlUrl caIssuersUrl) := by
  rw [signCsr_eq hcsr, signCsr_eq hcsr', csrSans_eq hcsr, csrSans_eq hcsr', ← csrSubject_congr hcn,
    ← hkey, ← hentries]
  refine agree_bind_self fun _ _ => agree_bind_self fun cn _ => agree_bind_self fun explicit _ => ?_
  refine agree_bind_self fun fromCsr _ => agree_bind_self fun resolved _ => ?_
  exact agree_buildLeaf hmoment ..

/-- **What a request contributes.**  For every issuer, profile, number of days, options and moment, and
any two valid requests with the same key and the same common name: where names are given the outcome is
the same, where none are it is the same if those of the requests are, and what comes out is as in
`LeafOf`; if and only if, where names are given, those of the requests make no difference to the
policy. -/
theorem csr_contributes_iff (E : Crypto) (d d' : Draw) (issuerCert : Cert) (issuerKey : PrivateKey)
    (profile : Profile) (days : ℤ) (opts : CsrOptions) (crlUrl caIssuersUrl : Option Str)
    (csr csr' : Csr) (hcsr : csr.IsValid) (hcsr' : csr'.IsValid) (hkey : csr.publicKey = csr'.publicKey)
    (hcn : csr.commonName = csr'.commonName) (hmoment : SameMoment d d') :
    Contributes E d d' issuerCert issuerKey profile days opts crlUrl caIssuersUrl csr csr' ↔
      (opts.override ≠ [] → Unaffected days opts csr csr') := by
  constructor
  · intro h hgiven
    exact (agree_overridden hcsr hcsr' hkey hcn hmoment hgiven).1 (h.overridden hgiven)
  · intro h
    exact ⟨fun hgiven => (agree_overridden hcsr hcsr' hkey hcn hmoment hgiven).2 (h hgiven),
      fun _ hentries => agree_requested hcsr hcsr' hkey hcn hmoment hentries,
      fun _ _ hok => leafOf_of_signCsr hcsr hok⟩

/-- A request for `nas.lan` that asks for one more DNS name. -/
def requestFor (name : Str) : Csr :=
  { subject := [[⟨commonNameOid, .utf8, .text (Str.of "nas.lan")⟩]]
    publicKey := ⟨[4, 9]⟩
    subjectAlternativeName := some [.dns name]
    decoded := by simp [GeneralName.encoded] }

/-- Other names are given. -/
def givenNames : CsrOptions := { sansOverride := some [Str.of "nas.lan"] }

theorem isValid_requestFor (name : Str) : (requestFor name).IsValid := ⟨rfl, rfl⟩

theorem sameMoment_sample (seed seed' : ℕ) : SameMoment (.sample seed) (.sample seed') := ⟨rfl, rfl⟩

/-- With other names given, two requests for host names have the same outcome. -/
theorem csr_contributes_requestFor : Contributes .transparent (.sample 1) (.sample 2)
    (importedIssuer none none) ⟨.ec .p256, [1]⟩ .server 365 givenNames none none
    (requestFor (Str.of "a.lan")) (requestFor (Str.of "b.lan")) := by
  refine (csr_contributes_iff _ _ _ _ _ _ _ _ _ _ _ _ (isValid_requestFor (Str.of "a.lan"))
    (isValid_requestFor (Str.of "b.lan")) rfl rfl (sameMoment_sample 1 2)).2 fun _ =>
    .inr (.inr (.inr ?_))
  have ha : csrSans (requestFor (Str.of "a.lan")) = .ok [Str.of "DNS:a.lan"] := by decide +kernel
  have hb : csrSans (requestFor (Str.of "b.lan")) = .ok [Str.of "DNS:b.lan"] := by decide +kernel
  rw [ha, hb]
  trivial

/-- A name that is no host name has a request refused, although other names are given. -/
theorem unused_name_refused : ¬ ∀ (d d' : Draw) (csr csr' : Csr), csr.IsValid → csr'.IsValid →
    csr.publicKey = csr'.publicKey → csr.commonName = csr'.commonName → SameMoment d d' →
    Contributes .transparent d d' (importedIssuer none none) ⟨.ec .p256, [1]⟩ .server 365 givenNames none
      none csr csr' := by
  intro hall
  have hagree := (hall _ _ (requestFor (Str.of "a.lan")) (requestFor (Str.of "my_nas.lan"))
    (isValid_requestFor _) (isValid_requestFor _) rfl rfl (sameMoment_sample 1 2)).overridden (by decide)
  have hissued : (signCsr .transparent (.sample 1) (importedIssuer none none) ⟨.ec .p256, [1]⟩
      (.ok (requestFor (Str.of "a.lan"))) .server 365 givenNames none none).toOption.isSome = true := by
    decide +kernel
  have hrefused : (signCsr .transparent (.sample 2) (importedIssuer none none) ⟨.ec .p256, [1]⟩
      (.ok (requestFor (Str.of "my_nas.lan"))) .server 365 givenNames none none).toOption.isSome =
        false := by
    decide +kernel
  revert hagree hissued hrefused
  generalize signCsr .transparent (.sample 1) _ _ _ _ _ _ _ _ = x
  generalize signCsr .transparent (.sample 2) _ _ _ _ _ _ _ _ = y
  intro hagree hissued hrefused
  cases x with
  | error e => cases hissued
  | ok a =>
    cases y with
    | error e => exact hagree
    | ok b => cases hrefused

end Leaf

end Cabin
