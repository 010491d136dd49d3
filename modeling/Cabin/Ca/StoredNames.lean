import Cabin.Net.IpText
import Cabin.X509.Transparent
import Cabin.Ca.Machine
import Cabin.Ca.Names
import Cabin.Ca.Constraints

/-!
# Stored names

The names of a leaf and the names in its row.  The names asked for are made unique as texts (`ca/leaf.py`,
`resolve_sans`), the certificate holds what they denote, and the row what is read back from it
(`ca/certs.py`, `_cert_sans`).  One address has many texts.

* `denotes_sanStrings` : what is read back from a certificate without repetitions denotes its names;
* `names_stored_iff` : there is no repetition if and only if the texts denote different addresses.
-/

namespace Cabin

namespace Leaf

open X509

/-! ### What is expected -/

/-- A call that issues a leaf. -/
inductive LeafCall where
  | issue (profile : Profile) (subjectCn : Str) (sans : List Str) (days : ℤ) (keyType : String)
  | sign (csr : Csr) (profile : Profile) (days : ℤ) (opts : CsrOptions)
  deriving DecidableEq, Repr

namespace LeafCall

/-- The certificate. -/
def leaf (E : Crypto) (d : Draw) (issuerCert : Cert) (issuerKey : PrivateKey)
    (crlUrl caIssuersUrl : Option Str) : LeafCall → Except Failure Cert
  | issue profile subjectCn sans days keyType =>
    (issueCertificate E d issuerCert issuerKey profile subjectCn sans days keyType crlUrl
      caIssuersUrl).map Prod.fst
  | sign csr profile days opts =>
    (signCsr E d issuerCert issuerKey (.ok csr) profile days opts crlUrl caIssuersUrl).map Prod.fst

/-- The certificate, stored. -/
def store (E : Crypto) (d : Draw) (db : Db) (principal : Principal) (issuerId : Option ℕ)
    (source : CertSource) : LeafCall → Except Failure (Db × Certs.Issued)
  | issue profile subjectCn sans days keyType =>
    Certs.issueAndStore E d db principal profile subjectCn sans days keyType issuerId source
  | sign csr profile days opts =>
    Certs.signCsrAndStore E d db principal (.ok csr) profile days opts issuerId source

/-- The names that win, before they are made unique. -/
def names : LeafCall → Except Failure (List Str)
  | issue _ subjectCn sans _ _ => do
    let cn ← validateCn subjectCn
    let explicit ← sans.mapM normalizeSan
    chooseSans explicit [] (some cn)
  | sign csr _ _ opts => do
    let cn ← csrSubject csr opts.subjectCnFallback opts.allowEmptySubject
    let explicit ← (opts.sansOverride.getD []).mapM normalizeSan
    let fromCsr ← csrSans csr
    chooseSans explicit fromCsr cn

end LeafCall

/-- Different entries with an address have different addresses, as their bytes go. -/
def Apart (names : List Str) : Prop :=
  ∀ v v', canonical .ip v ∈ names → canonical .ip v' ∈ names → v ≠ v' →
    (ipAddress v).map Ip.packed ≠ (ipAddress v').map Ip.packed

/-- The certificate has names, and none twice. -/
def NamesOnce (cert : Cert) : Prop :=
  ∃ names critical, cert.tbs.extensions.subjectAlternativeName = some ⟨names, critical⟩ ∧ names.Nodup

/-- The entry denotes the general name of a certificate. -/
def Denotes (E : Crypto) (san : Str) (g : GeneralName) : Prop :=
  ∃ name, generalName E san = .ok name ∧ name.encoded = g

/-- The entries of the row denote the names of the certificate, one after the other. -/
def RowDescribes (E : Crypto) (row : Certificate) : Prop :=
  ∃ names critical, row.cert.tbs.extensions.subjectAlternativeName = some ⟨names, critical⟩ ∧
    List.Forall₂ (Denotes E) row.sans names

variable {E : Crypto} {d : Draw} {issuerCert cert : Cert} {issuerKey : PrivateKey}
  {crlUrl caIssuersUrl : Option Str}

/-! ### The names of a leaf -/

theorem isCanonical_of_sanFromCn {cn san : Str} (h : sanFromCn cn = some san) : IsCanonical san := by
  unfold sanFromCn at h
  split_ifs at h with hip hhost
  · exact ⟨.ip, cn, (Option.some.inj h).symm, hip⟩
  · exact ⟨.dns, cn, (Option.some.inj h).symm, hhost⟩

theorem isCanonical_of_mapM {entries sans : List Str} (h : entries.mapM normalizeSan = .ok sans) :
    ∀ san ∈ sans, IsCanonical san := by
  intro san hsan
  obtain ⟨entry, -, hentry⟩ := (mem_of_mapM_eq_ok h).1 san hsan
  exact isCanonical_of_normalizeSan hentry

/-- What holds of all names that may win holds of those that do. -/
theorem forall_mem_chooseSans {P : Str → Prop} {cn : Option Str} {explicit fromCsr chosen : List Str}
    (he : ∀ san ∈ explicit, P san) (hf : ∀ san ∈ fromCsr, P san)
    (hcn : ∀ name, cn = some name → ∀ san, sanFromCn name = some san → P san)
    (h : chooseSans explicit fromCsr cn = .ok chosen) : ∀ san ∈ chosen, P san := by
  unfold chooseSans at h
  split at h
  · cases h
    exact he
  · split at h
    · cases h
      exact hf
    · split at h
      · rename_i san hsan
        cases h
        obtain ⟨name, hname, hsan⟩ := Option.bind_eq_some_iff.1 hsan
        intro x hx
        obtain rfl := List.mem_singleton.1 hx
        exact hcn name hname _ hsan
      · cases h

theorem isCanonical_of_chooseSans {cn : Option Str} {explicit fromCsr chosen : List Str}
    (he : ∀ san ∈ explicit, IsCanonical san) (hf : ∀ san ∈ fromCsr, IsCanonical san)
    (h : chooseSans explicit fromCsr cn = .ok chosen) : ∀ san ∈ chosen, IsCanonical san :=
  forall_mem_chooseSans he hf (fun _ _ _ hsan => isCanonical_of_sanFromCn hsan) h

theorem isCanonical_of_csrSans {csr : Csr} {sans : List Str} (h : csrSans csr = .ok sans) :
    ∀ san ∈ sans, IsCanonical san := by
  unfold csrSans at h
  split at h
  · cases h
  · split at h
    · cases h
      simp
    · exact isCanonical_of_mapM h

theorem resolveSans_eq_ok {cn : Option Str} {explicit fromCsr resolved : List Str}
    (h : resolveSans explicit fromCsr cn = .ok resolved) :
    ∃ chosen, chooseSans explicit fromCsr cn = .ok chosen ∧ resolved = Str.unique chosen := by
  simp only [resolveSans, bind_eq_ok, pure_eq_ok] at h
  obtain ⟨chosen, hchosen, -, -, rfl⟩ := h
  exact ⟨chosen, hchosen, rfl⟩

/-- The winning names are canonical, and the leaf carries what they denote, each text once. -/
theorem LeafCall.leaf_spec {call : LeafCall}
    (h : call.leaf E d issuerCert issuerKey crlUrl caIssuersUrl = .ok cert) :
    ∃ chosen names critical, call.names = .ok chosen ∧ (∀ san ∈ chosen, IsCanonical san) ∧
      (Str.unique chosen).mapM (generalName E) = .ok names ∧
      cert.tbs.extensions.subjectAlternativeName = some ⟨names.map GeneralName.encoded, critical⟩ := by
  cases call with
  | issue profile subjectCn sans days keyType =>
    obtain ⟨⟨key, capped⟩, h⟩ := map_fst_eq_ok h
    simp only [issueCertificate, bind_eq_ok, pure_eq_ok, Prod.mk.injEq] at h
    obtain ⟨cn, hcn, -, -, -, -, explicit, he, resolved, hr, k, -, ⟨c, _⟩, hb, rfl, -⟩ := h
    obtain ⟨chosen, hchosen, rfl⟩ := resolveSans_eq_ok hr
    obtain ⟨names, critical, hnames, hext⟩ := (buildLeaf_spec hb).1.names
    refine ⟨chosen, names, critical, ?_, ?_, hnames, hext⟩
    · simp only [LeafCall.names, bind_eq_ok]
      exact ⟨cn, hcn, explicit, he, hchosen⟩
    · exact isCanonical_of_chooseSans (isCanonical_of_mapM he) (by simp) hchosen
  | sign csr profile days opts =>
    obtain ⟨capped, h⟩ := map_fst_eq_ok h
    simp only [signCsr, bind_eq_ok] at h
    obtain ⟨-, -, csr', hcsr, -, -, cn, hcn, explicit, he, fromCsr, hf, resolved, hr, hb⟩ := h
    obtain rfl : csr = csr' := Except.ok.inj hcsr
    obtain ⟨chosen, hchosen, rfl⟩ := resolveSans_eq_ok hr
    obtain ⟨names, critical, hnames, hext⟩ := (buildLeaf_spec hb).1.names
    refine ⟨chosen, names, critical, ?_, ?_, hnames, hext⟩
    · simp only [LeafCall.names, bind_eq_ok]
      exact ⟨cn, hcn, explicit, he, fromCsr, hf, hchosen⟩
    · exact isCanonical_of_chooseSans (isCanonical_of_mapM he) (isCanonical_of_csrSans hf) hchosen

/-! ### Texts and names -/

/-- What an entry becomes, by its kind. -/
theorem generalName_eq_ok {kind : SanKind} {value : Str} {g : GeneralName} :
    generalName E (canonical kind value) = .ok g ↔ match kind with
      | .dns => value.isAscii = true ∧ g = .dns value
      | .ip => ∃ a, ipAddress value = some a ∧ g = .ip a
      | .email => E.isMailbox value = true ∧ g = .rfc822 value := by
  unfold generalName
  simp only [partition_canonical, ofUpper_upper, Option.getD_some]
  cases kind with
  | dns => cases value.isAscii <;> simp [raise, eq_comm]
  | ip => cases ipAddress value <;> simp [raise, eq_comm]
  | email => cases E.isMailbox value <;> simp [raise, eq_comm]

/-- The name a canonical entry is turned into. -/
theorem named_of_generalName {san : Str} {g : GeneralName} (hsan : IsCanonical san)
    (h : generalName E san = .ok g) : named san = some g := by
  obtain ⟨kind, value, rfl, -⟩ := hsan
  rw [generalName_eq_ok] at h
  cases kind with
  | dns =>
    obtain ⟨-, rfl⟩ := h
    exact named_dns value
  | ip =>
    obtain ⟨a, ha, rfl⟩ := h
    rw [named_ip, ha]
    rfl
  | email =>
    obtain ⟨-, rfl⟩ := h
    exact named_email value

theorem encoded_named_ip (value : Str) : (named (canonical .ip value)).map GeneralName.encoded =
    ((ipAddress value).map Ip.packed).map .ip := by
  rw [named_ip, Option.map_map, Option.map_map]
  rfl

/-- Two canonical entries denote the same encoded name if they are the same or write the same address. -/
theorem encoded_eq_iff {san san' : Str} (h : IsCanonical san) (h' : IsCanonical san') :
    (named san).map GeneralName.encoded = (named san').map GeneralName.encoded ↔
      san = san' ∨ ∃ v v', san = canonical .ip v ∧ san' = canonical .ip v' ∧
        (ipAddress v).map Ip.packed = (ipAddress v').map Ip.packed := by
  constructor
  · intro heq
    obtain ⟨kind, v, rfl, haccepts⟩ := h
    obtain ⟨kind', v', rfl, haccepts'⟩ := h'
    have hsome : ∀ {w : Str}, SanKind.Accepts .ip w → ∃ a, ipAddress w = some a := fun hw =>
      Option.isSome_iff_exists.1 hw
    cases kind <;> cases kind' <;> simp only [named_dns, named_email, encoded_named_ip,
      Option.map_some] at heq
    case dns.dns | email.email =>
      left
      have hvalue : v = v' := by simpa [GeneralName.encoded] using heq
      rw [hvalue]
    case ip.ip =>
      right
      refine ⟨v, v', rfl, rfl, Option.map_injective (fun a b hab => ?_) heq⟩
      simpa using hab
    case dns.ip =>
      obtain ⟨a, ha⟩ := hsome haccepts'
      simp [ha, GeneralName.encoded] at heq
    case email.ip =>
      obtain ⟨a, ha⟩ := hsome haccepts'
      simp [ha, GeneralName.encoded] at heq
    case ip.dns | ip.email =>
      obtain ⟨a, ha⟩ := hsome haccepts
      simp [ha, GeneralName.encoded] at heq
    case dns.email | email.dns => simp [GeneralName.encoded] at heq
  · rintro (rfl | ⟨v, v', rfl, rfl, heq⟩)
    · rfl
    · rw [encoded_named_ip, encoded_named_ip, heq]

theorem map_eq_map_of_forall₂ {α β γ : Type} {R : α → β → Prop} {f : α → γ} {g : β → γ} {xs : List α}
    {ys : List β} (h : List.Forall₂ R xs ys) (hfg : ∀ x ∈ xs, ∀ y, R x y → f x = g y) :
    xs.map f = ys.map g := by
  induction h with
  | nil => rfl
  | cons hxy _ ih =>
    rw [List.map_cons, List.map_cons, hfg _ List.mem_cons_self _ hxy,
      ih fun x hx y => hfg x (List.mem_cons_of_mem _ hx) y]

/-- **The names of a leaf are without repetitions exactly if the entries are apart.** -/
theorem nodup_encoded_iff {chosen : List Str} {names : List GeneralName}
    (hcanonical : ∀ san ∈ chosen, IsCanonical san)
    (h : (Str.unique chosen).mapM (generalName E) = .ok names) :
    (names.map GeneralName.encoded).Nodup ↔ Apart chosen := by
  have hmap : (Str.unique chosen).map (fun san => (named san).map GeneralName.encoded) =
      (names.map GeneralName.encoded).map some := by
    rw [List.map_map]
    refine map_eq_map_of_forall₂ (forall₂_of_mapM_eq_ok h) fun san hsan g hg => ?_
    rw [named_of_generalName (hcanonical san (Str.mem_unique.1 hsan)) hg]
    rfl
  rw [← List.nodup_map_iff (Option.some_injective _), ← hmap,
    List.nodup_map_iff_inj_on (Str.nodup_unique chosen)]
  simp only [Str.mem_unique]
  constructor
  · intro hinj v v' hv hv' hne hpacked
    refine hne (canonical_injective (hinj _ hv _ hv' ?_)).2
    rw [encoded_named_ip, encoded_named_ip, hpacked]
  · intro hapart san hsan san' hsan' heq
    rcases (encoded_eq_iff (hcanonical san hsan) (hcanonical san' hsan')).1 heq with
      hsame | ⟨v, v', rfl, rfl, hpacked⟩
    · exact hsame
    · by_contra hne
      exact hapart v v' hsan hsan' (fun hv => hne (hv ▸ rfl)) hpacked

/-! ### The names of a row -/

/-- The text read back of a name from a certificate denotes it. -/
theorem denotes_of_generalName {g : GeneralName} {san : Str} (hsan : IsCanonical san)
    (h : generalName E san = .ok g) : ∃ t, sanString g.encoded = some t ∧ Denotes E t g.encoded := by
  obtain ⟨kind, value, rfl, -⟩ := hsan
  have hg := generalName_eq_ok.1 h
  cases kind with
  | dns =>
    obtain ⟨hascii, rfl⟩ := hg
    exact ⟨_, rfl, _, generalName_eq_ok.2 ⟨hascii, rfl⟩, rfl⟩
  | ip =>
    obtain ⟨a, ha, rfl⟩ := hg
    have hread : ipAddress a.packed.toStr = some a.packed := Ip.ipAddress_toStr (Ip.scope_packed a)
    refine ⟨_, rfl, .ip a.packed, generalName_eq_ok.2 ⟨_, hread, rfl⟩, ?_⟩
    simp [GeneralName.encoded]
  | email =>
    obtain ⟨hmailbox, rfl⟩ := hg
    exact ⟨_, rfl, _, generalName_eq_ok.2 ⟨hmailbox, rfl⟩, rfl⟩

/-- **What is read back from names without repetitions denotes them, one after the other.** -/
theorem denotes_sanStrings {sans : List Str} {names : List GeneralName}
    (hcanonical : ∀ san ∈ sans, IsCanonical san) (h : sans.mapM (generalName E) = .ok names)
    (hnodup : (names.map GeneralName.encoded).Nodup) :
    List.Forall₂ (Denotes E) (sanStrings (names.map GeneralName.encoded))
      (names.map GeneralName.encoded) := by
  have hread : List.Forall₂ (Denotes E) ((names.map GeneralName.encoded).filterMap sanString)
      (names.map GeneralName.encoded) := by
    have hnames := forall₂_of_mapM_eq_ok h
    clear hnodup h
    induction hnames with
    | nil => exact .nil
    | @cons san g sans names hg _ ih =>
      obtain ⟨t, ht, hdenotes⟩ := denotes_of_generalName (hcanonical san List.mem_cons_self) hg
      rw [List.map_cons, List.filterMap_cons_some ht]
      exact .cons hdenotes (ih fun x hx => hcanonical x (List.mem_cons_of_mem _ hx))
  have htexts : ((names.map GeneralName.encoded).filterMap sanString).Nodup := by
    -- A text denotes one name, so no text is read back twice.
    refine List.Nodup.of_map (fun t => (generalName E t).toOption.map GeneralName.encoded) ?_
    rw [map_eq_map_of_forall₂ hread fun t _ g ht => ?_]
    · exact hnodup.map (Option.some_injective _)
    · obtain ⟨name, hname, rfl⟩ := ht
      rw [hname]
      rfl
  rw [sanStrings, Str.unique_of_nodup htexts]
  exact hread

/-- The row has the certificate, and the texts read back from it. -/
theorem LeafCall.store_spec {db db' : Db} {principal : Principal} {issuerId : Option ℕ}
    {source : CertSource} {issued : Certs.Issued} {call : LeafCall}
    (h : call.store E d db principal issuerId source = .ok (db', issued)) :
    ∃ issuerCert issuerKey crlUrl caIssuersUrl,
      call.leaf E d issuerCert issuerKey crlUrl caIssuersUrl = .ok issued.row.cert ∧
      Certs.certSans issued.row.cert = .ok issued.row.sans ∧
      issued.row.subjectCn = Certs.leafCn issued.row.cert ∧
      db'.certificates = db.certificates.upsert issued.row := by
  cases call with
  | issue profile subjectCn sans days keyType =>
    simp only [LeafCall.store, Certs.issueAndStore, bind_eq_ok, pure_eq_ok, Prod.mk.injEq] at h
    obtain ⟨issuer, -, ⟨issuerCert, issuerKey⟩, -, ⟨cert, key, capped⟩, hleaf, stored, hstored, sealed, -,
      ⟨db₁, row⟩, hrow, rfl, rfl⟩ := h
    obtain ⟨-, rfl, rfl⟩ := store_eq_ok hrow
    exact ⟨issuerCert, issuerKey, _, _, congrArg (Except.map Prod.fst) hleaf, hstored, rfl, rfl⟩
  | sign csr profile days opts =>
    simp only [LeafCall.store, Certs.signCsrAndStore, bind_eq_ok, pure_eq_ok, Prod.mk.injEq] at h
    obtain ⟨issuer, -, ⟨issuerCert, issuerKey⟩, -, ⟨cert, capped⟩, hleaf, stored, hstored, ⟨db₁, row⟩, hrow,
      rfl, rfl⟩ := h
    obtain ⟨-, rfl, rfl⟩ := store_eq_ok hrow
    exact ⟨issuerCert, issuerKey, _, _, congrArg (Except.map Prod.fst) hleaf, hstored, rfl, rfl⟩

/-! ### The main result -/

/-- The addresses among the winning names are apart. -/
def LeafCall.WritesApart (call : LeafCall) : Prop := ∀ chosen, call.names = .ok chosen → Apart chosen

theorem writesApart_iff {call : LeafCall} {chosen : List Str} (h : call.names = .ok chosen) :
    call.WritesApart ↔ Apart chosen := by
  constructor
  · exact fun hapart => hapart chosen h
  · intro hapart chosen' h'
    rw [h] at h'
    exact Except.ok.inj h' ▸ hapart

theorem namesOnce_iff {names : List GeneralName} {critical : Bool}
    (h : cert.tbs.extensions.subjectAlternativeName = some ⟨names, critical⟩) :
    NamesOnce cert ↔ names.Nodup := by
  constructor
  · rintro ⟨names', critical', h', hnodup⟩
    rw [h] at h'
    cases h'
    exact hnodup
  · exact fun hnodup => ⟨names, critical, h, hnodup⟩

/-- No certificate of the call has a name twice, and the row stored with it has as many entries, in the
same order and denoting the same names. -/
def NamesStored (E : Crypto) (call : LeafCall) : Prop :=
  (∀ d issuerCert issuerKey crlUrl caIssuersUrl cert,
    call.leaf E d issuerCert issuerKey crlUrl caIssuersUrl = .ok cert → NamesOnce cert) ∧
  ∀ d db principal issuerId source db' issued,
    call.store E d db principal issuerId source = .ok (db', issued) →
      NamesOnce issued.row.cert ∧ RowDescribes E issued.row

/-- **The names of a certificate and of its row.**  Every certificate that is issued, for every subject,
names and request, has no name twice, and the row that is stored with it has as many entries, in the
same order and denoting the same names; if and only if no two texts among the winning names write one
address. -/
theorem names_stored_iff (E : Crypto) (call : LeafCall) :
    (∀ d issuerCert issuerKey crlUrl caIssuersUrl cert,
      call.leaf E d issuerCert issuerKey crlUrl caIssuersUrl = .ok cert →
        (NamesOnce cert ↔ call.WritesApart)) ∧
    ∀ d db principal issuerId source db' issued,
      call.store E d db principal issuerId source = .ok (db', issued) →
        (NamesOnce issued.row.cert ∧ RowDescribes E issued.row ↔ call.WritesApart) := by
  constructor
  · intro d issuerCert issuerKey crlUrl caIssuersUrl cert h
    obtain ⟨chosen, names, critical, hchosen, hcanonical, hnames, hext⟩ := LeafCall.leaf_spec h
    rw [namesOnce_iff hext, writesApart_iff hchosen]
    exact nodup_encoded_iff hcanonical hnames
  · intro d db principal issuerId source db' issued h
    obtain ⟨issuerCert, issuerKey, crlUrl, caIssuersUrl, hleaf, hread, -⟩ := LeafCall.store_spec h
    obtain ⟨chosen, names, critical, hchosen, hcanonical, hnames, hext⟩ := LeafCall.leaf_spec hleaf
    rw [namesOnce_iff hext, writesApart_iff hchosen, nodup_encoded_iff hcanonical hnames]
    refine and_iff_left_of_imp fun hapart => ⟨_, critical, hext, ?_⟩
    simp only [Certs.certSans, bind_eq_ok, pure_eq_ok] at hread
    obtain ⟨san, hsan, hsans⟩ := hread
    rw [Cert.extension_eq_ok, hext] at hsan
    obtain rfl := Option.some.inj hsan.2
    rw [← hsans]
    exact denotes_sanStrings (fun x hx => hcanonical x (Str.mem_unique.1 hx)) hnames
      ((nodup_encoded_iff hcanonical hnames).2 hapart)

/-- A call for a server with two names. -/
def callFor (first second : String) : LeafCall :=
  .issue .server (Str.of "nas.lan") [Str.of first, Str.of second] 365 "ecdsa-p256"

/-- The leaf of such a call, from an issuer without constraints. -/
def leafFor (first second : String) : Except Failure Cert :=
  (callFor first second).leaf .transparent (.sample 1) (importedIssuer none none) ⟨.ec .p256, [1]⟩ none none

/-- Two addresses are named once each. -/
theorem names_stored_twoAddresses : ∃ cert, leafFor "2001:db8::1" "192.0.2.1" = .ok cert ∧
    NamesOnce cert := by
  have hissued : (leafFor "2001:db8::1" "192.0.2.1").toOption.isSome = true := by decide +kernel
  have hnames : (callFor "2001:db8::1" "192.0.2.1").names =
      .ok [canonical .ip (Str.of "2001:db8::1"), canonical .ip (Str.of "192.0.2.1")] := by
    decide +kernel
  cases hleaf : leafFor "2001:db8::1" "192.0.2.1" with
  | error e =>
    rw [hleaf] at hissued
    cases hissued
  | ok cert =>
    refine ⟨cert, rfl, ((names_stored_iff .transparent _).1 _ _ _ _ _ _ hleaf).2 ?_⟩
    refine (writesApart_iff hnames).2 fun v v' hv hv' hne => ?_
    simp only [List.mem_cons, List.not_mem_nil, or_false] at hv hv'
    rcases hv with hv | hv <;> rcases hv' with hv' | hv' <;>
      obtain ⟨-, rfl⟩ := canonical_injective hv <;> obtain ⟨-, rfl⟩ := canonical_injective hv'
    · exact absurd rfl hne
    · decide +kernel
    · decide +kernel
    · exact absurd rfl hne

/-- Two texts of one address: the certificate has the address twice, the row once. -/
theorem address_named_twice : ¬ ∀ call : LeafCall, NamesStored .transparent call := by
  intro hall
  have htwice : (leafFor "2001:db8::1" "2001:0db8::1").toOption.map (fun cert =>
      cert.tbs.extensions.subjectAlternativeName.map fun san => decide san.value.Nodup) =
        some (some false) := by
    decide +kernel
  cases hleaf : leafFor "2001:db8::1" "2001:0db8::1" with
  | error e =>
    rw [hleaf] at htwice
    cases htwice
  | ok cert =>
    obtain ⟨names, critical, hext, hnodup⟩ := (hall _).1 _ _ _ _ _ _ hleaf
    rw [hleaf] at htwice
    simp [Except.toOption, hext, hnodup] at htwice

end Leaf

end Cabin
