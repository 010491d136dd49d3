import Cabin.Ca.Hierarchy
import Cabin.Ca.Crl

/-!
# The CA as a whole

All calls on the database of the CA as one machine, `caMachine`: the hierarchy operations, issuance,
revocation and the publication of revocation lists, and the changes of settings and grants that
happen beside them.  The calls run one after another; one that raises, for whatever reason, leaves
what was committed before it.

`caMachine_step` says what a step can do to the tables: `Write` has one case for each way a table
is written.
-/

namespace Cabin

open X509 Service

/-- The calls on the database, with their arguments. -/
inductive Op where
  | hierarchy (op : HierOp)
  | issueAndStore (principal : Principal) (profile : Leaf.Profile) (subjectCn : Str)
      (sans : List Str) (days : ℤ) (keyType : String) (issuerId : Option ℕ) (source : CertSource)
  | signCsrAndStore (principal : Principal) (csrPem : CaX509.Parsed Leaf.Csr)
      (profile : Leaf.Profile) (days : ℤ) (opts : Leaf.CsrOptions) (issuerId : Option ℕ)
      (source : CertSource)
  | revokeCertificate (principal : Principal) (certId : ℕ) (reason : RevocationReason)
      (now : Option ℤ)
  | regenerateCrl (issuerId : ℕ) (now : Option ℤ)
  | currentCrl (issuerId : ℕ) (now : Option ℤ)
  | setGrants (userIssuers tokenIssuers : List (ℕ × ℕ))
  | setOrigin (origin : Option Str)

/-- What is committed after a call, and whether it raised. -/
def Op.run (E : Crypto) (d : Draw) (db : Db) : Op → Db × Except Failure Unit
  | hierarchy op =>
    match op.run E d db.cas with
    | .ok cas => ({ db with cas }, .ok ())
    | .error e => (db, .error e)
  | issueAndStore principal profile subjectCn sans days keyType issuerId source =>
    match Certs.issueAndStore E d db principal profile subjectCn sans days keyType issuerId source with
    | .ok (db', _) => (db', .ok ())
    | .error e => (db, .error e)
  | signCsrAndStore principal csrPem profile days opts issuerId source =>
    match Certs.signCsrAndStore E d db principal csrPem profile days opts issuerId source with
    | .ok (db', _) => (db', .ok ())
    | .error e => (db, .error e)
  | revokeCertificate principal certId reason now =>
    let (s, r) := Crl.revokeCertificate E d (.start db) principal certId reason now
    (s.committed, r)
  | regenerateCrl issuerId now =>
    let (s, r) := Crl.regenerateCrl E d (.start db) issuerId now
    (s.committed, r.map fun _ => ())
  | currentCrl issuerId now =>
    let (s, r) := Crl.currentCrl E d (.start db) issuerId now
    (s.committed, r.map fun _ => ())
  | setGrants userIssuers tokenIssuers => ({ db with userIssuers, tokenIssuers }, .ok ())
  | setOrigin origin => ({ db with origin }, .ok ())

/-- The calls on the database as a machine. -/
def caMachine (E : Crypto) : Machine Db (Op × Draw) where
  step db a := some (a.1.run E a.2 db).1

/-! ### What a step writes -/

/-- A leaf signed by a row, in the words of the row's certificate. -/
structure SignedBy (E : Crypto) (d : Draw) (issuer : CaCertificate) (c : Certificate) : Prop where
  issuerId : c.issuerId = issuer.id
  serialNumber : c.serialNumber = c.cert.tbs.serialNumber
  fresh : c.revokedAt = none ∧ c.revocationReason = none
  signed : ∃ keySealed key publicKey sans, issuer.keySealed = some keySealed ∧
    E.unsealKey keySealed = some key ∧
    Leaf.IsLeaf E issuer.cert key publicKey sans c.cert

/-- The ways a table is written. -/
inductive Write (E : Crypto) (db : Db) : Db → Prop
  | same : Write E db db
  | hierarchy {op d cas} (h : Effects E (Adds E d db.cas op) db.cas cas) :
      Write E db { db with cas }
  | leaf {d issuer c} (hissuer : issuer ∈ db.cas) (hid : c.id = db.certificates.nextId)
      (hsigned : SignedBy E d issuer c)
      (hserial : ∀ r ∈ db.certificates, r.serialNumber ≠ c.serialNumber) :
      Write E db { db with certificates := db.certificates.upsert c }
  | crl {d state} (h : Crl.nextCrl E d db state.issuerId state.generatedAt = .ok state) :
      Write E db { db with crls := db.crls.upsert state }
  | revoke {d row moment reason state} (hrow : row ∈ db.certificates) (hnew : row.revokedAt = none)
      (hissuer : state.issuerId = row.issuerId)
      (h : Crl.nextCrl E d
        { db with certificates := Crl.mark db.certificates row.id moment reason }
        state.issuerId state.generatedAt = .ok state) :
      Write E db { db with
        certificates := Crl.mark db.certificates row.id moment reason
        crls := db.crls.upsert state }
  | settings {userIssuers tokenIssuers origin} :
      Write E db { db with userIssuers, tokenIssuers, origin }

variable {E : Crypto} {d : Draw} {db db' : Db}

/-! ### Issuance -/

theorem namedIssuer_mem {id : ℕ} {r : CaCertificate} (h : namedIssuer db.cas id = .ok r) :
    r ∈ db.cas ∧ r.id = id := by
  simp only [namedIssuer, bind_eq_ok, pure_eq_ok] at h
  obtain ⟨row, hrow, -, -, -, -, rfl⟩ := h
  exact getCa_eq_ok hrow

/-- The issuer a call resolves to is a row of the table. -/
theorem resolveGrantedIssuer_mem {p : Principal} {id : Option ℕ} {r : CaCertificate}
    (h : Grants.resolveGrantedIssuer db p id = .ok r) :
    r ∈ db.cas ∧ ∀ i, id = some i → r.id = i := by
  unfold Grants.resolveGrantedIssuer at h
  split at h
  · simp only [bind_eq_ok, pure_eq_ok] at h
    obtain ⟨row, hrow, -, -, rfl⟩ := h
    obtain ⟨hmem, hid⟩ := namedIssuer_mem hrow
    exact ⟨hmem, fun i hi => hid.trans (Option.some.inj hi)⟩
  · split at h
    · rename_i issuer hone
      cases h
      have hmem : r ∈ Grants.grantedIssuers db p := by simp [hone]
      refine ⟨?_, by simp⟩
      unfold Grants.grantedIssuers at hmem
      split_ifs at hmem <;> simp_all [activeIssuers]
    · split_ifs at h <;> cases h
    · cases h

theorem signingCredentials_eq_ok {id : ℕ} {c : Cert} {k : PrivateKey}
    (h : signingCredentials E d db.cas id = .ok (c, k)) :
    ∃ r ∈ db.cas, ∃ s, r.id = id ∧ r.cert = c ∧ r.keySealed = some s ∧ E.unsealKey s = some k := by
  simp only [signingCredentials, bind_eq_ok] at h
  obtain ⟨row, hrow, h⟩ := h
  obtain ⟨hmem, hid⟩ := getCa_eq_ok hrow
  split at h
  · cases h
  · rename_i s hs
    simp only [bind_eq_ok, pure_eq_ok, Prod.mk.injEq] at h
    obtain ⟨key, hkey, rfl, rfl⟩ := h
    exact ⟨row, hmem, s, hid, rfl, hs, (unsealSigningKey_eq_ok hkey).1⟩

theorem store_eq_ok {row r : Certificate} (h : Certs.store d db row = .ok (db', r)) :
    (∀ x ∈ db.certificates, x.serialNumber ≠ row.serialNumber) ∧
      db' = { db with certificates := db.certificates.upsert row } ∧ r = row := by
  simp only [Certs.store, bind_eq_ok, refuse_eq_ok, commit_eq_ok] at h
  obtain ⟨-, hnew, -, rfl, rfl⟩ := h
  exact ⟨by simpa using hnew, rfl, rfl⟩

/-- The row of a leaf the issuer has signed. -/
theorem signedBy_leafRow {issuer : CaCertificate} {s : Sealed} {key : PrivateKey} {pk : PublicKey}
    {cert : Cert} {sans names : List Str} {profile : Leaf.Profile} {keySealed : Option Sealed}
    {source : CertSource} (hs : issuer.keySealed = some s) (hkey : E.unsealKey s = some key)
    (h : Leaf.IsLeaf E issuer.cert key pk names cert) :
    SignedBy E d issuer (Certs.leafRow db cert profile sans keySealed source issuer.id) :=
  ⟨rfl, rfl, ⟨rfl, rfl⟩, s, key, pk, names, hs, hkey, h⟩

/-- What issuing with a key made here stores. -/
theorem issueAndStore_spec {principal : Principal} {profile : Leaf.Profile} {cn : Str}
    {sans : List Str} {days : ℤ} {keyType : String} {issuerId : Option ℕ} {source : CertSource}
    {r : Certs.Issued}
    (h : Certs.issueAndStore E d db principal profile cn sans days keyType issuerId source =
      .ok (db', r)) :
    ∃ issuer ∈ db.cas, Grants.resolveGrantedIssuer db principal issuerId = .ok issuer ∧
      r.row.id = db.certificates.nextId ∧ SignedBy E d issuer r.row ∧
      (∀ x ∈ db.certificates, x.serialNumber ≠ r.row.serialNumber) ∧
      db' = { db with certificates := db.certificates.upsert r.row } := by
  simp only [Certs.issueAndStore, bind_eq_ok, pure_eq_ok, Prod.mk.injEq] at h
  obtain ⟨issuer, hissuer, ⟨ic, ik⟩, hcred, ⟨c, k, cap⟩, hleaf, names, -, ks, -, ⟨db₁, row⟩, hstore,
    rfl, rfl⟩ := h
  obtain ⟨hmem, -⟩ := resolveGrantedIssuer_mem hissuer
  obtain ⟨row', hrow', s, hid, rfl, hs, hkey⟩ := signingCredentials_eq_ok hcred
  obtain rfl : row' = issuer := Table.eq_of_key hrow' hmem hid
  obtain ⟨resolved, hleaf⟩ := Leaf.issueCertificate_spec hleaf
  obtain ⟨hserial, rfl, rfl⟩ := store_eq_ok hstore
  exact ⟨row', hmem, hissuer, rfl, signedBy_leafRow hs hkey hleaf, hserial, rfl⟩

/-- What a signed request stores: the row, the issuer it names and the names on the leaf. -/
theorem signCsrAndStore_spec {principal : Principal} {csrPem : CaX509.Parsed Leaf.Csr}
    {profile : Leaf.Profile} {days : ℤ} {opts : Leaf.CsrOptions} {issuerId : Option ℕ}
    {source : CertSource} {r : Certs.Issued}
    (h : Certs.signCsrAndStore E d db principal csrPem profile days opts issuerId source =
      .ok (db', r)) :
    ∃ issuer ∈ db.cas, Grants.resolveGrantedIssuer db principal issuerId = .ok issuer ∧
      r.row.id = db.certificates.nextId ∧ SignedBy E d issuer r.row ∧
      (∀ x ∈ db.certificates, x.serialNumber ≠ r.row.serialNumber) ∧
      db' = { db with certificates := db.certificates.upsert r.row } ∧
      ∃ explicit fromCsr cn resolved key publicKey,
        (opts.sansOverride.getD []).mapM Leaf.normalizeSan = .ok explicit ∧
        Leaf.resolveSans explicit fromCsr cn = .ok resolved ∧
        Leaf.IsLeaf E issuer.cert key publicKey resolved r.row.cert := by
  simp only [Certs.signCsrAndStore, bind_eq_ok, pure_eq_ok, Prod.mk.injEq] at h
  obtain ⟨issuer, hissuer, ⟨ic, ik⟩, hcred, ⟨c, cap⟩, hleaf, names, -, ⟨db₁, row⟩, hstore, rfl,
    rfl⟩ := h
  obtain ⟨hmem, -⟩ := resolveGrantedIssuer_mem hissuer
  obtain ⟨row', hrow', s, hid, rfl, hs, hkey⟩ := signingCredentials_eq_ok hcred
  obtain rfl : row' = issuer := Table.eq_of_key hrow' hmem hid
  obtain ⟨csr, explicit, fromCsr, cn, resolved, -, he, hr, hleaf⟩ := Leaf.signCsr_spec hleaf
  obtain ⟨hserial, rfl, rfl⟩ := store_eq_ok hstore
  exact ⟨row', hmem, hissuer, rfl, signedBy_leafRow hs hkey hleaf, hserial, rfl, explicit, fromCsr,
    cn, resolved, ik, csr.publicKey, he, hr, hleaf⟩

/-! ### Publication -/

theorem nextCrl_eq_ok {issuerId : ℕ} {moment : ℤ} {state : CrlState}
    (h : Crl.nextCrl E d db issuerId moment = .ok state) :
    state.issuerId = issuerId ∧ state.generatedAt = moment ∧
      state.crlNumber = Crl.nextNumber (db.crls.get? issuerId) ∧
      state.crl.tbs.crlNumber = state.crlNumber ∧
      state.crl.tbs.revoked =
        (Crl.revokedEntries db.certificates issuerId).map Crl.RevokedEntry.encoded := by
  simp only [Crl.nextCrl, Crl.signedCrl, Crl.buildCrl, bind_eq_ok, pure_eq_ok] at h
  obtain ⟨⟨ic, ik⟩, -, crl, ⟨-, -, aki, -, -, -, -, -, rfl⟩, rfl⟩ := h
  exact ⟨rfl, rfl, rfl, rfl, rfl⟩

theorem Session.commit_cases (d : Draw) (s : Session) :
    s.commit d = (⟨s.working, s.working⟩, .ok ()) ∨ ∃ e, s.commit d = (s, .error e) := by
  unfold Session.commit
  split
  · exact .inl rfl
  · exact .inr ⟨_, rfl⟩

/-- A rebuilt list is committed with what else was pending; a call that fails commits nothing. -/
theorem regenerateCrl_cases (s : Session) (issuerId : ℕ) (now : Option ℤ) :
    (∃ state, Crl.nextCrl E d s.working issuerId (now.getD d.now) = .ok state ∧
      Crl.regenerateCrl E d s issuerId now =
        (.start { s.working with crls := s.working.crls.upsert state }, .ok state)) ∨
    ∃ s' e, Crl.regenerateCrl E d s issuerId now = (s', .error e) ∧
      s'.committed = s.committed := by
  unfold Crl.regenerateCrl
  cases hn : Crl.nextCrl E d s.working issuerId (now.getD d.now) with
  | error e => exact .inr ⟨s, e, rfl, rfl⟩
  | ok state =>
    dsimp only
    rcases Session.commit_cases d
      ⟨s.committed, { s.working with crls := s.working.crls.upsert state }⟩ with hc | ⟨e, hc⟩
    · rw [hc]
      exact .inl ⟨state, rfl, rfl⟩
    · rw [hc]
      exact .inr ⟨_, e, rfl, rfl⟩

theorem write_regenerateCrl (issuerId : ℕ) (now : Option ℤ) :
    Write E db (Crl.regenerateCrl E d (.start db) issuerId now).1.committed := by
  rcases regenerateCrl_cases (E := E) (d := d) (.start db) issuerId now with
    ⟨state, hn, h⟩ | ⟨s', e, h, hs⟩
  · rw [h]
    obtain ⟨hi, hg, -⟩ := nextCrl_eq_ok hn
    exact .crl (d := d) (by rw [hi, hg]; exact hn)
  · rw [h]
    simp only [hs]
    exact .same

theorem write_currentCrl (issuerId : ℕ) (now : Option ℤ) :
    Write E db (Crl.currentCrl E d (.start db) issuerId now).1.committed := by
  unfold Crl.currentCrl
  dsimp only
  split
  · exact write_regenerateCrl _ _
  · split_ifs
    · exact write_regenerateCrl _ _
    · exact .same

/-- What a revocation does: it publishes the mark, or it leaves the session as it was. -/
theorem revokeCertificate_cases (db : Db) (principal : Principal) (certId : ℕ)
    (reason : RevocationReason) (now : Option ℤ) :
    (∃ row ∈ db.certificates, row.id = certId ∧ row.revokedAt = none ∧ ∃ state,
      Crl.nextCrl E d { db with
        certificates := Crl.mark db.certificates certId (now.getD d.now) reason } row.issuerId
        (now.getD d.now) = .ok state ∧
      Crl.revokeCertificate E d (.start db) principal certId reason now =
        (.start { db with
          certificates := Crl.mark db.certificates certId (now.getD d.now) reason
          crls := db.crls.upsert state }, .ok ())) ∨
    (∃ row ∈ db.certificates, row.id = certId ∧ row.revokedAt ≠ none ∧
      Crl.revokeCertificate E d (.start db) principal certId reason now = (.start db, .ok ())) ∨
    ∃ e, Crl.revokeCertificate E d (.start db) principal certId reason now =
      (.start db, .error e) := by
  generalize hout : Crl.revokeCertificate E d (.start db) principal certId reason now = out
  unfold Crl.revokeCertificate at hout
  split at hout
  · exact .inr (.inr ⟨_, hout.symm⟩)
  · rename_i row hrow
    obtain ⟨hmem, hid⟩ := Table.get?_eq_some.1 hrow
    split_ifs at hout with hgrant hrevoked
    · exact .inr (.inr ⟨_, hout.symm⟩)
    · exact .inr (.inl ⟨row, hmem, hid, Option.isSome_iff_ne_none.1 hrevoked, hout.symm⟩)
    · have hnew : row.revokedAt = none := by simpa using hrevoked
      dsimp only at hout
      rcases regenerateCrl_cases (E := E) (d := d)
        ⟨db, { db with certificates := Crl.mark db.certificates certId (now.getD d.now) reason }⟩
        row.issuerId (some (now.getD d.now)) with ⟨state, hn, h⟩ | ⟨s', e, h, hs⟩
      · refine .inl ⟨row, hmem, hid, hnew, state, hn, ?_⟩
        rw [← hout]
        simp only [Session.start] at h ⊢
        rw [h]
      · refine .inr (.inr ⟨e, ?_⟩)
        rw [← hout]
        simp only [Session.start] at h ⊢
        rw [h]
        simp only [Session.rollback, hs]

theorem write_revokeCertificate (principal : Principal) (certId : ℕ) (reason : RevocationReason)
    (now : Option ℤ) :
    Write E db (Crl.revokeCertificate E d (.start db) principal certId reason now).1.committed := by
  rcases revokeCertificate_cases (E := E) (d := d) db principal certId reason now with
    ⟨row, hmem, rfl, hnew, state, hn, h⟩ | ⟨row, -, -, -, h⟩ | ⟨e, h⟩
  · rw [h]
    obtain ⟨hi, hg, -⟩ := nextCrl_eq_ok hn
    exact .revoke (d := d) hmem hnew hi (by rw [hi, hg]; exact hn)
  · rw [h]
    exact .same
  · rw [h]
    exact .same

/-- **What a step can do**: it writes at most once, in one of the ways of `Write`. -/
theorem caMachine_step {a : Op × Draw} (h : (caMachine E).step db a = some db') :
    Write E db db' := by
  obtain ⟨op, d⟩ := a
  obtain rfl := Option.some.inj h
  cases op with
  | hierarchy op =>
    simp only [Op.run]
    cases hr : op.run E d db.cas with
    | ok cas => exact .hierarchy (effects_of_run hr)
    | error e => exact .same
  | issueAndStore principal profile cn sans days keyType issuerId source =>
    simp only [Op.run]
    split
    · obtain ⟨issuer, hmem, -, hid, hsigned, hserial, rfl⟩ := issueAndStore_spec ‹_›
      exact .leaf hmem hid hsigned hserial
    · exact .same
  | signCsrAndStore principal csrPem profile days opts issuerId source =>
    simp only [Op.run]
    split
    · obtain ⟨issuer, hmem, -, hid, hsigned, hserial, rfl, -⟩ := signCsrAndStore_spec ‹_›
      exact .leaf hmem hid hsigned hserial
    · exact .same
  | revokeCertificate principal certId reason now =>
    exact write_revokeCertificate principal certId reason now
  | regenerateCrl issuerId now => exact write_regenerateCrl issuerId now
  | currentCrl issuerId now => exact write_currentCrl issuerId now
  | setGrants userIssuers tokenIssuers => exact .settings
  | setOrigin origin => exact .settings

end Cabin
