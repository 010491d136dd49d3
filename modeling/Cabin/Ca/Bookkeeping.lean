import Cabin.Ca.Links

/-!
# Bookkeeping of revocation lists

Over sequential runs the stored list of an issuer is exact at all times, not only after a
revocation: it lists the revoked certificates of the issuer, and an issuer without a list has none.

* `Books` is the invariant, `books_of_write` its step;
* `crl_bookkeeping` collects what holds in every state and of every step of every run.
-/

namespace Cabin

open X509 Service

/-- The entry of a certificate revoked at `revokedAt` for `reason`, as the list has it. -/
def listEntry (c : Certificate) (revokedAt : ℤ) (reason : RevocationReason) : RevokedCertificate :=
  (⟨c.serialNumber, revokedAt, reason⟩ : Crl.RevokedEntry).encoded

/-- The stored list of the issuer has exactly its revoked certificates, each once, with date and
reason. -/
def Published (db : Db) (issuerId : ℕ) : Prop :=
  ∃ s ∈ db.crls, s.issuerId = issuerId ∧ s.crl.tbs.crlNumber = s.crlNumber ∧
    (∀ e, e ∈ s.crl.tbs.revoked ↔ ∃ c ∈ db.certificates, c.issuerId = issuerId ∧
      ∃ revokedAt reason, c.revokedAt = some revokedAt ∧ c.revocationReason = some reason ∧
        e = listEntry c revokedAt reason) ∧
    (s.crl.tbs.revoked.map RevokedCertificate.serialNumber).Nodup

/-- The invariant of the books. -/
structure Books (db : Db) : Prop where
  /-- A stored list has the entries of its issuer, under the number of its row. -/
  listed : ∀ s ∈ db.crls, s.crl.tbs.crlNumber = s.crlNumber ∧ s.crl.tbs.revoked =
    (Crl.revokedEntries db.certificates s.issuerId).map Crl.RevokedEntry.encoded
  /-- An issuer with a revoked certificate has a list. -/
  published : ∀ c ∈ db.certificates, c.revokedAt ≠ none → ∃ s ∈ db.crls, s.issuerId = c.issuerId
  /-- The date and the reason are set together. -/
  together : ∀ c ∈ db.certificates, (c.revokedAt = none ↔ c.revocationReason = none)
  /-- Serial numbers are unique. -/
  serials : db.certificates.rows.Pairwise fun a b => a.serialNumber ≠ b.serialNumber

variable {E : Crypto} {d : Draw} {db db' : Db} {certs : Table Certificate}

/-! ### Entries -/

theorem revokedEntries_add {c : Certificate} (hid : c.id = certs.nextId) (hnew : c.revokedAt = none)
    (i : ℕ) : Crl.revokedEntries (certs.upsert c) i = Crl.revokedEntries certs i := by
  simp only [Crl.revokedEntries, Table.select, Table.rows_upsert_nextId (show key c = _ from hid),
    List.filter_append, List.filterMap_append]
  have hnone : Crl.revokedEntry c = none := by simp [Crl.revokedEntry, hnew]
  by_cases hi : c.issuerId = i <;> simp [hi, hnone]

/-- A mark leaves the certificates of the other issuers alone. -/
theorem select_mark {row : Certificate} (hrow : row ∈ certs) {moment : ℤ}
    {reason : RevocationReason} {j : ℕ} (hj : row.issuerId ≠ j) :
    ((Crl.mark certs row.id moment reason).select fun r => r.issuerId == j) =
      certs.select fun r => r.issuerId == j := by
  simp only [Table.select, Crl.mark, Table.update, List.filter_map]
  have hfilter : (certs.rows.filter ((fun r : Certificate => r.issuerId == j) ∘ fun r =>
      if (r.id == row.id) = true then
        { r with revokedAt := some moment, revocationReason := some reason } else r)) =
      certs.rows.filter fun r => r.issuerId == j := by
    refine List.filter_congr fun r _ => ?_
    simp only [Function.comp_apply]
    split_ifs <;> rfl
  rw [hfilter]
  conv_rhs => rw [← List.map_id (certs.rows.filter fun r => r.issuerId == j)]
  refine List.map_congr_left fun r hr => ?_
  obtain ⟨hr, hrj⟩ := List.mem_filter.1 hr
  have hne : r.id ≠ row.id := fun hid =>
    hj (by rw [← Table.eq_of_key hr hrow hid]; simpa using hrj)
  simp [hne]

theorem mem_revokedEntries {i : ℕ} {e : Crl.RevokedEntry} :
    e ∈ Crl.revokedEntries certs i ↔ ∃ c ∈ certs, c.issuerId = i ∧ Crl.revokedEntry c = some e := by
  simp [Crl.revokedEntries, and_assoc]

theorem serialNumber_revokedEntry {c : Certificate} {e : Crl.RevokedEntry}
    (h : Crl.revokedEntry c = some e) : e.serialNumber = c.serialNumber := by
  simp only [Crl.revokedEntry, Option.map_eq_some_iff] at h
  obtain ⟨_, -, rfl⟩ := h
  rfl

theorem serials_revokedEntries
    (h : certs.rows.Pairwise fun a b => a.serialNumber ≠ b.serialNumber) (i : ℕ) :
    ((Crl.revokedEntries certs i).map Crl.RevokedEntry.serialNumber).Nodup := by
  rw [List.Nodup, List.pairwise_map, Crl.revokedEntries, List.pairwise_filterMap]
  refine (h.filter _).imp fun {a b} hne e he e' he' => ?_
  rw [serialNumber_revokedEntry he, serialNumber_revokedEntry he']
  exact hne

/-- What the invariant says of one issuer with a list. -/
theorem Books.toPublished (h : Books db) {s : CrlState} (hs : s ∈ db.crls) :
    Published db s.issuerId := by
  obtain ⟨hnumber, hrevoked⟩ := h.listed s hs
  refine ⟨s, hs, rfl, hnumber, fun e => ?_, ?_⟩
  · rw [hrevoked, List.mem_map]
    constructor
    · rintro ⟨x, hx, rfl⟩
      obtain ⟨c, hc, hi, hx⟩ := mem_revokedEntries.1 hx
      simp only [Crl.revokedEntry, Option.map_eq_some_iff] at hx
      obtain ⟨t, ht, rfl⟩ := hx
      have hne : c.revocationReason ≠ none := fun hn => by
        simp [(h.together c hc).2 hn] at ht
      obtain ⟨reason, hreason⟩ := Option.ne_none_iff_exists'.1 hne
      exact ⟨c, hc, hi, t, reason, ht, hreason, by simp [listEntry, hreason]⟩
    · rintro ⟨c, hc, hi, t, reason, ht, hreason, rfl⟩
      refine ⟨_, mem_revokedEntries.2 ⟨c, hc, hi, ?_⟩, rfl⟩
      simp [Crl.revokedEntry, ht, hreason]
  · rw [hrevoked, List.map_map]
    exact serials_revokedEntries h.serials s.issuerId

/-- A revoked certificate is on the list of its issuer. -/
theorem Books.listed_of_revoked (h : Books db) {c : Certificate} (hc : c ∈ db.certificates)
    (hrev : c.revokedAt ≠ none) : ∃ s ∈ db.crls, s.issuerId = c.issuerId ∧
      ∃ e ∈ s.crl.tbs.revoked, e.serialNumber = c.serialNumber := by
  obtain ⟨s, hs, hsi⟩ := h.published c hc hrev
  obtain ⟨t, ht⟩ := Option.ne_none_iff_exists'.1 hrev
  have hentry : Crl.revokedEntry c =
      some ⟨c.serialNumber, t, c.revocationReason.getD .unspecified⟩ := by
    simp [Crl.revokedEntry, ht]
  refine ⟨s, hs, hsi, Crl.RevokedEntry.encoded _, ?_, serialNumber_revokedEntry hentry⟩
  rw [(h.listed s hs).2, hsi]
  exact List.mem_map_of_mem (mem_revokedEntries.2 ⟨c, hc, rfl, hentry⟩)

/-! ### Steps -/

theorem books_leaf {c : Certificate} (hid : c.id = db.certificates.nextId)
    (hnew : c.revokedAt = none ∧ c.revocationReason = none)
    (hserial : ∀ r ∈ db.certificates, r.serialNumber ≠ c.serialNumber) (h : Books db) :
    Books { db with certificates := db.certificates.upsert c } := by
  refine ⟨fun s hs => ?_, fun x hx hrev => ?_, fun x hx => ?_, ?_⟩
  · rw [revokedEntries_add hid hnew.1]
    exact h.listed s hs
  · rcases Table.mem_upsert.1 hx with rfl | ⟨hx, -⟩
    · exact absurd hnew.1 hrev
    · exact h.published x hx hrev
  · rcases Table.mem_upsert.1 hx with rfl | ⟨hx, -⟩
    · simp [hnew]
    · exact h.together x hx
  · rw [Table.rows_upsert_nextId (show key c = _ from hid), List.pairwise_append]
    refine ⟨h.serials, List.pairwise_singleton _ _, fun a ha b hb => ?_⟩
    rw [List.mem_singleton.1 hb]
    exact hserial a ha

/-- An issuer with a list keeps having one. -/
theorem hasList_upsert {crls : Table CrlState} {i : ℕ} (h : ∃ s ∈ crls, s.issuerId = i)
    (state : CrlState) : ∃ s ∈ crls.upsert state, s.issuerId = i := by
  obtain ⟨s, hs, hsi⟩ := h
  by_cases hsame : s.issuerId = state.issuerId
  · exact ⟨state, Table.mem_upsert.2 (.inl rfl), hsame.symm.trans hsi⟩
  · exact ⟨s, Table.mem_upsert.2 (.inr ⟨hs, hsame⟩), hsi⟩

/-- A new list is exact, and the lists of the other issuers still are. -/
theorem books_publish {certs : Table Certificate} {state : CrlState}
    (hn : Crl.nextCrl E d { db with certificates := certs } state.issuerId state.generatedAt =
      .ok state)
    (hother : ∀ j ≠ state.issuerId, Crl.revokedEntries certs j =
      Crl.revokedEntries db.certificates j) (h : Books db) :
    ∀ s ∈ db.crls.upsert state, s.crl.tbs.crlNumber = s.crlNumber ∧ s.crl.tbs.revoked =
      (Crl.revokedEntries certs s.issuerId).map Crl.RevokedEntry.encoded := by
  intro s hs
  rcases Table.mem_upsert.1 hs with rfl | ⟨hs, hne⟩
  · obtain ⟨-, -, -, hnum, hrev⟩ := nextCrl_eq_ok hn
    exact ⟨hnum, hrev⟩
  · rw [hother s.issuerId hne]
    exact h.listed s hs

theorem books_revoke {row : Certificate} {moment : ℤ} {reason : RevocationReason} {state : CrlState}
    (hrow : row ∈ db.certificates) (hissuer : state.issuerId = row.issuerId)
    (hn : Crl.nextCrl E d
      { db with certificates := Crl.mark db.certificates row.id moment reason }
      state.issuerId state.generatedAt = .ok state) (h : Books db) :
    Books { db with
      certificates := Crl.mark db.certificates row.id moment reason
      crls := db.crls.upsert state } := by
  refine ⟨books_publish hn (fun j hj => ?_) h, fun x hx hrev => ?_, fun x hx => ?_, ?_⟩
  · rw [Crl.revokedEntries, select_mark hrow fun he => hj (he.symm.trans hissuer.symm)]
    rfl
  · obtain ⟨r, hr, rfl⟩ := mem_mark.1 hx
    by_cases hid : r.id = row.id
    · obtain rfl : r = row := Table.eq_of_key hr hrow hid
      exact ⟨state, Table.mem_upsert.2 (.inl rfl), by simpa using hissuer⟩
    · simp only [hid, if_false] at hrev ⊢
      exact hasList_upsert (h.published r hr hrev) state
  · obtain ⟨r, hr, rfl⟩ := mem_mark.1 hx
    split_ifs
    · simp
    · exact h.together r hr
  · rw [Crl.mark, Table.update, List.pairwise_map]
    refine h.serials.imp fun {a b} hne => ?_
    split_ifs <;> exact hne

/-- A write keeps the books. -/
theorem books_of_write (h : Write E db db') (hb : Books db) : Books db' := by
  cases h with
  | same => exact hb
  | hierarchy heff => exact ⟨hb.listed, hb.published, hb.together, hb.serials⟩
  | leaf hissuer hid hsigned hserial => exact books_leaf hid hsigned.fresh hserial hb
  | crl h =>
    exact ⟨books_publish h (fun _ _ => rfl) hb,
      fun c hc hrev => hasList_upsert (hb.published c hc hrev) _, hb.together, hb.serials⟩
  | revoke hrow hnew hissuer h => exact books_revoke hrow hissuer h hb
  | settings => exact ⟨hb.listed, hb.published, hb.together, hb.serials⟩

theorem books_of_reach {u v : List (ℕ × ℕ)} {o : Option Str}
    (h : (caMachine E).Reachable (.start u v o) db) : Books db :=
  h.invariant ⟨fun _ hr => absurd hr Table.not_mem_empty, fun _ hr => absurd hr Table.not_mem_empty,
    fun _ hr => absurd hr Table.not_mem_empty, .nil⟩
    fun _ _ _ hi _ hstep => books_of_write (caMachine_step hstep) hi

/-! ### Numbers -/

/-- The next number is above that of the stored list. -/
theorem lt_nextNumber {o : Option CrlState} {s : CrlState} (h : o = some s) :
    s.crlNumber < Crl.nextNumber o := by
  simp [h, Crl.nextNumber]

/-- The list of an issuer after a write is the list before, or one with a higher number. -/
theorem crlNumber_of_write (h : Write E db db') (j : ℕ) :
    db'.crls.get? j = db.crls.get? j ∨ ∃ s', db'.crls.get? j = some s' ∧
      ∀ s, db.crls.get? j = some s → s.crlNumber < s'.crlNumber := by
  have hpub : ∀ {certs : Table Certificate} {d : Draw} {state : CrlState},
      Crl.nextCrl E d { db with certificates := certs } state.issuerId state.generatedAt =
        .ok state →
      (db.crls.upsert state).get? j = db.crls.get? j ∨
        ∃ s', (db.crls.upsert state).get? j = some s' ∧
          ∀ s, db.crls.get? j = some s → s.crlNumber < s'.crlNumber := by
    intro certs d state hn
    obtain ⟨-, -, hnumber, -⟩ := nextCrl_eq_ok hn
    rw [Table.get?_upsert]
    split_ifs with hj
    · refine .inr ⟨state, rfl, fun s hs => ?_⟩
      have hid : j = state.issuerId := hj
      subst hid
      rw [hnumber]
      exact lt_nextNumber hs
    · exact .inl rfl
  cases h with
  | crl h => exact hpub h
  | revoke hrow hnew hissuer h => exact hpub h
  | _ => exact .inl rfl

/-- A stored list is still stored, or has given way to one with a higher number. -/
def CrlsClimb (db db' : Db) : Prop :=
  ∀ s ∈ db.crls, ∃ s' ∈ db'.crls, s'.issuerId = s.issuerId ∧
    (s' = s ∨ s.crlNumber < s'.crlNumber)

theorem crlsClimb_of_write (h : Write E db db') : CrlsClimb db db' := by
  intro s hs
  have hget : db.crls.get? s.issuerId = some s := Table.get?_key hs
  rcases crlNumber_of_write h s.issuerId with heq | ⟨s', hs', hlt⟩
  · exact ⟨s, (Table.get?_eq_some.1 (heq.trans hget)).1, rfl, .inl rfl⟩
  · obtain ⟨hmem, hid⟩ := Table.get?_eq_some.1 hs'
    exact ⟨s', hmem, hid, .inr (hlt s hget)⟩

theorem CrlsClimb.refl (db : Db) : CrlsClimb db db := fun s hs => ⟨s, hs, rfl, .inl rfl⟩

theorem CrlsClimb.trans {a b c : Db} (hab : CrlsClimb a b) (hbc : CrlsClimb b c) :
    CrlsClimb a c := by
  intro s hs
  obtain ⟨s₁, hs₁, hi₁, hc₁⟩ := hab s hs
  obtain ⟨s₂, hs₂, hi₂, hc₂⟩ := hbc s₁ hs₁
  refine ⟨s₂, hs₂, hi₂.trans hi₁, ?_⟩
  rcases hc₁ with rfl | hc₁ <;> rcases hc₂ with rfl | hc₂
  exacts [.inl rfl, .inr hc₂, .inr hc₁, .inr (hc₁.trans hc₂)]

theorem crlsClimb_of_reach (h : (caMachine E).Reachable db db') : CrlsClimb db db' :=
  h.rel (I := fun _ => True) trivial .refl (fun _ _ _ => .trans) (fun _ _ _ _ _ _ => trivial)
    fun _ _ _ _ _ hstep => crlsClimb_of_write (caMachine_step hstep)

/-! ### Revocations are final -/

/-- Every certificate is kept, and a revocation stays as it was recorded. -/
def RevocationsKept (db db' : Db) : Prop :=
  ∀ c ∈ db.certificates, ∃ c' ∈ db'.certificates, c'.id = c.id ∧ c'.cert = c.cert ∧
    (c.revokedAt ≠ none → c'.revokedAt = c.revokedAt ∧ c'.revocationReason = c.revocationReason)

theorem revocationsKept_of_write (h : Write E db db') : RevocationsKept db db' := by
  intro c hc
  cases h with
  | @leaf d issuer x hissuer hid hsigned hserial =>
    have hlt : c.id < x.id := by
      rw [hid]
      exact Table.lt_nextId hc
    exact ⟨c, Table.mem_upsert.2 (.inr ⟨hc, hlt.ne⟩), rfl, rfl, fun _ => ⟨rfl, rfl⟩⟩
  | revoke hrow hnew hissuer h =>
    refine ⟨_, mem_mark.2 ⟨c, hc, rfl⟩, ?_⟩
    split_ifs with hid
    · obtain rfl := Table.eq_of_key hc hrow hid
      exact ⟨rfl, rfl, fun hrev => absurd hnew hrev⟩
    · exact ⟨rfl, rfl, fun _ => ⟨rfl, rfl⟩⟩
  | _ => exact ⟨c, hc, rfl, rfl, fun _ => ⟨rfl, rfl⟩⟩

theorem RevocationsKept.refl (db : Db) : RevocationsKept db db :=
  fun c hc => ⟨c, hc, rfl, rfl, fun _ => ⟨rfl, rfl⟩⟩

theorem RevocationsKept.trans {a b c : Db} (hab : RevocationsKept a b) (hbc : RevocationsKept b c) :
    RevocationsKept a c := by
  intro x hx
  obtain ⟨x₁, hx₁, hi₁, hk₁, hr₁⟩ := hab x hx
  obtain ⟨x₂, hx₂, hi₂, hk₂, hr₂⟩ := hbc x₁ hx₁
  refine ⟨x₂, hx₂, hi₂.trans hi₁, hk₂.trans hk₁, fun hrev => ?_⟩
  obtain ⟨ha₁, hb₁⟩ := hr₁ hrev
  obtain ⟨ha₂, hb₂⟩ := hr₂ (ha₁ ▸ hrev)
  exact ⟨ha₂.trans ha₁, hb₂.trans hb₁⟩

theorem revocationsKept_of_reach (h : (caMachine E).Reachable db db') : RevocationsKept db db' :=
  h.rel (I := fun _ => True) trivial .refl (fun _ _ _ => .trans) (fun _ _ _ _ _ _ => trivial)
    fun _ _ _ _ _ hstep => revocationsKept_of_write (caMachine_step hstep)

/-! ### Other issuers -/

/-- The issuer a call is on. -/
def Op.issuer? (db : Db) : Op → Option ℕ
  | revokeCertificate _ certId _ _ => (db.certificates.get? certId).map Certificate.issuerId
  | regenerateCrl issuerId _ => some issuerId
  | currentCrl issuerId _ => some issuerId
  | issueAndStore p _ _ _ _ _ issuerId _ =>
    (Grants.resolveGrantedIssuer db p issuerId).toOption.map CaCertificate.id
  | signCsrAndStore p _ _ _ _ issuerId _ =>
    (Grants.resolveGrantedIssuer db p issuerId).toOption.map CaCertificate.id
  | _ => none

/-- The stored list and the certificates of the issuer `j` are the same. -/
def SameFor (j : ℕ) (db db' : Db) : Prop :=
  db'.crls.get? j = db.crls.get? j ∧
    (db'.certificates.select fun r => r.issuerId == j) =
      db.certificates.select fun r => r.issuerId == j

theorem sameFor_crl {j : ℕ} {state : CrlState} (h : state.issuerId ≠ j) :
    SameFor j db { db with crls := db.crls.upsert state } := by
  refine ⟨?_, rfl⟩
  simp only [Table.get?_upsert]
  exact if_neg fun he => h he.symm

theorem sameFor_leaf {j : ℕ} {c : Certificate} (hid : c.id = db.certificates.nextId)
    (h : c.issuerId ≠ j) :
    SameFor j db { db with certificates := db.certificates.upsert c } := by
  refine ⟨rfl, ?_⟩
  simp [Table.select, Table.rows_upsert_nextId (show key c = _ from hid), h]

theorem sameFor_regenerateCrl {j issuerId : ℕ} (h : issuerId ≠ j) (now : Option ℤ) :
    SameFor j db (Crl.regenerateCrl E d (.start db) issuerId now).1.committed := by
  rcases regenerateCrl_cases (E := E) (d := d) (.start db) issuerId now with
    ⟨state, hn, hr⟩ | ⟨s', e, hr, hs⟩
  · rw [hr]
    exact sameFor_crl ((nextCrl_eq_ok hn).1 ▸ h)
  · rw [hr]
    simp only [hs]
    exact ⟨rfl, rfl⟩

theorem sameFor_revokeCertificate {j : ℕ} {principal : Principal} {certId : ℕ}
    {reason : RevocationReason} {now : Option ℤ}
    (h : (db.certificates.get? certId).map Certificate.issuerId ≠ some j) :
    SameFor j db (Crl.revokeCertificate E d (.start db) principal certId reason now).1.committed := by
  rcases revokeCertificate_cases (E := E) (d := d) db principal certId reason now with
    ⟨row, hmem, rfl, hnew, state, hn, hr⟩ | ⟨row, -, -, -, hr⟩ | ⟨e, hr⟩
  · have hj : row.issuerId ≠ j := fun he => h (by
      rw [show db.certificates.get? row.id = some row from Table.get?_key hmem, ← he]
      rfl)
    rw [hr]
    refine ⟨?_, select_mark hmem hj⟩
    have hsame : SameFor j db { db with crls := db.crls.upsert state } :=
      sameFor_crl ((nextCrl_eq_ok hn).1 ▸ hj)
    exact hsame.1
  · rw [hr]
    exact ⟨rfl, rfl⟩
  · rw [hr]
    exact ⟨rfl, rfl⟩

/-- A call leaves the issuers it is not on alone. -/
theorem sameFor_of_step {a : Op × Draw} (h : (caMachine E).step db a = some db') {j : ℕ}
    (hj : a.1.issuer? db ≠ some j) : SameFor j db db' := by
  obtain ⟨op, d⟩ := a
  obtain rfl := Option.some.inj h
  cases op with
  | hierarchy op =>
    simp only [Op.run]
    split <;> exact ⟨rfl, rfl⟩
  | issueAndStore principal profile cn sans days keyType issuerId source =>
    simp only [Op.run]
    split
    · obtain ⟨issuer, -, hres, hid, hsigned, -, rfl⟩ := issueAndStore_spec ‹_›
      refine sameFor_leaf hid fun he => hj ?_
      simp [Op.issuer?, hres, Except.toOption, ← he, hsigned.issuerId]
    · exact ⟨rfl, rfl⟩
  | signCsrAndStore principal csrPem profile days opts issuerId source =>
    simp only [Op.run]
    split
    · obtain ⟨issuer, -, hres, hid, hsigned, -, rfl, -⟩ := signCsrAndStore_spec ‹_›
      refine sameFor_leaf hid fun he => hj ?_
      simp [Op.issuer?, hres, Except.toOption, ← he, hsigned.issuerId]
    · exact ⟨rfl, rfl⟩
  | revokeCertificate principal certId reason now => exact sameFor_revokeCertificate hj
  | regenerateCrl issuerId now =>
    have hne : issuerId ≠ j := fun he => hj (congrArg some he)
    exact sameFor_regenerateCrl hne now
  | currentCrl issuerId now =>
    have hne : issuerId ≠ j := fun he => hj (congrArg some he)
    simp only [Op.run, Crl.currentCrl]
    split
    · exact sameFor_regenerateCrl hne _
    · split_ifs
      · exact sameFor_regenerateCrl hne _
      · exact ⟨rfl, rfl⟩
  | setGrants userIssuers tokenIssuers => exact ⟨rfl, rfl⟩
  | setOrigin origin => exact ⟨rfl, rfl⟩

/-! ### The books -/

/-- After a rebuilt list the issuer's list is exact. -/
theorem published_of_regenerateCrl {issuerId : ℕ} {now : Option ℤ} (hb : Books db)
    (h : (Op.run E d db (.regenerateCrl issuerId now)).2 = .ok ()) :
    Published (Op.run E d db (.regenerateCrl issuerId now)).1 issuerId := by
  have hbooks : Books (Op.run E d db (.regenerateCrl issuerId now)).1 :=
    books_of_write (write_regenerateCrl (d := d) issuerId now) hb
  simp only [Op.run] at h hbooks ⊢
  rcases regenerateCrl_cases (E := E) (d := d) (.start db) issuerId now with
    ⟨state, hn, hr⟩ | ⟨s', e, hr, -⟩
  · rw [hr] at hbooks ⊢
    have hmem : state ∈ db.crls.upsert state := Table.mem_upsert.2 (.inl rfl)
    obtain rfl := (nextCrl_eq_ok hn).1
    exact hbooks.toPublished hmem
  · rw [hr] at h
    cases h

/-- After a revocation the certificate is revoked and the list of its issuer is exact. -/
theorem published_of_revokeCertificate {principal : Principal} {certId : ℕ}
    {reason : RevocationReason} {now : Option ℤ} (hb : Books db)
    (h : (Op.run E d db (.revokeCertificate principal certId reason now)).2 = .ok ()) :
    ∃ c ∈ (Op.run E d db (.revokeCertificate principal certId reason now)).1.certificates,
      c.id = certId ∧ c.revokedAt ≠ none ∧
      Published (Op.run E d db (.revokeCertificate principal certId reason now)).1 c.issuerId := by
  have hbooks : Books (Op.run E d db (.revokeCertificate principal certId reason now)).1 :=
    books_of_write (write_revokeCertificate (d := d) principal certId reason now) hb
  obtain ⟨c, hc, hid, hrev⟩ :
      ∃ c ∈ (Op.run E d db (.revokeCertificate principal certId reason now)).1.certificates,
        c.id = certId ∧ c.revokedAt ≠ none := by
    simp only [Op.run] at h ⊢
    rcases revokeCertificate_cases (E := E) (d := d) db principal certId reason now with
      ⟨row, hmem, rfl, hnew, state, hn, hr⟩ | ⟨row, hmem, rfl, hrev, hr⟩ | ⟨e, hr⟩
    · rw [hr]
      refine ⟨_, mem_mark.2 ⟨row, hmem, rfl⟩, ?_⟩
      simp
    · rw [hr]
      exact ⟨row, hmem, rfl, hrev⟩
    · rw [hr] at h
      cases h
  obtain ⟨s, hs, hsi⟩ := hbooks.published c hc hrev
  exact ⟨c, hc, hid, hrev, hsi ▸ hbooks.toPublished hs⟩

/-- **Bookkeeping over sequential runs.**  In every state of every run of the calls:

* after a successful `regenerateCrl` or `revokeCertificate` the stored list of the issuer is exact;
* a step replaces a stored list only by one with a higher number, and does not touch the lists and
  the certificates of the issuers it is not on;
* the date and the reason of a revocation are set together and for good, and a revoked certificate
  is on the stored list of its issuer;
* a `revokeCertificate` that raises leaves the session as it was, with nothing pending. -/
theorem crl_bookkeeping (E : Crypto) (u v : List (ℕ × ℕ)) (o : Option Str) (db : Db)
    (h : (caMachine E).Reachable (.start u v o) db) :
    (∀ d i now, (Op.run E d db (.regenerateCrl i now)).2 = .ok () →
      Published (Op.run E d db (.regenerateCrl i now)).1 i) ∧
    (∀ d p id reason now, (Op.run E d db (.revokeCertificate p id reason now)).2 = .ok () →
      ∃ c ∈ (Op.run E d db (.revokeCertificate p id reason now)).1.certificates,
        c.id = id ∧ c.revokedAt ≠ none ∧
        Published (Op.run E d db (.revokeCertificate p id reason now)).1 c.issuerId) ∧
    (∀ a db', (caMachine E).step db a = some db' →
      (∀ j, db'.crls.get? j = db.crls.get? j ∨ ∃ s', db'.crls.get? j = some s' ∧
        ∀ s, db.crls.get? j = some s → s.crlNumber < s'.crlNumber) ∧
      ∀ j, a.1.issuer? db ≠ some j → SameFor j db db') ∧
    (∀ db', (caMachine E).Reachable db db' → CrlsClimb db db' ∧ RevocationsKept db db') ∧
    (∀ c ∈ db.certificates, (c.revokedAt = none ↔ c.revocationReason = none) ∧
      (c.revokedAt ≠ none → ∃ s ∈ db.crls, s.issuerId = c.issuerId ∧
        ∃ e ∈ s.crl.tbs.revoked, e.serialNumber = c.serialNumber)) ∧
    ∀ d p id reason now e,
      (Crl.revokeCertificate E d (.start db) p id reason now).2 = .error e →
      (Crl.revokeCertificate E d (.start db) p id reason now).1 = .start db := by
  have hb := books_of_reach h
  refine ⟨fun d i now hok => published_of_regenerateCrl hb hok,
    fun d p id reason now hok => published_of_revokeCertificate hb hok,
    fun a db' hstep => ⟨crlNumber_of_write (caMachine_step hstep), fun j hj =>
      sameFor_of_step hstep hj⟩,
    fun db' h' => ⟨crlsClimb_of_reach h', revocationsKept_of_reach h'⟩,
    fun c hc => ⟨hb.together c hc, fun hrev => ?_⟩, fun d p id reason now e he => ?_⟩
  · exact hb.listed_of_revoked hc hrev
  · rcases revokeCertificate_cases (E := E) (d := d) db p id reason now with
      ⟨row, -, -, -, state, -, hr⟩ | ⟨row, -, -, -, hr⟩ | ⟨e, hr⟩
    · simp [hr] at he
    · simp [hr] at he
    · rw [hr]

/-- A hierarchy and a leaf that is revoked. -/
def issueThenRevoke : List (Op × Draw) :=
  [(.hierarchy (.createRoot (Str.of "Root") "ecdsa-p256" 20 1), .sample 1),
    (.hierarchy (.createIntermediateUnder 1 (Str.of "Issuer") "ecdsa-p256" 10 none), .sample 2),
    (.issueAndStore .system .server (Str.of "nas.lan") [] 365 "ecdsa-p256" none .ui, .sample 3),
    (.revokeCertificate .system 1 .superseded none, .sample 4)]

/-- After `issueThenRevoke` the leaf is revoked and on the list of its issuer. -/
theorem crl_bookkeeping_issueThenRevoke :
    ∃ db, (caMachine .transparent).Reachable (.start [] [] none) db ∧
      ∃ c ∈ db.certificates, c.revocationReason = some .superseded ∧
        ∃ s ∈ db.crls, s.issuerId = c.issuerId ∧
          ∃ e ∈ s.crl.tbs.revoked, e.serialNumber = c.serialNumber := by
  have h : (caMachine .transparent).Reachable (.start [] [] none) _ :=
    Machine.reachable_final _ issueThenRevoke
  obtain ⟨c, hc, hreason, hrev⟩ : ∃ c ∈ ((caMachine .transparent).final (.start [] [] none)
    issueThenRevoke).certificates,
      c.revocationReason = some .superseded ∧ c.revokedAt ≠ none := by decide +kernel
  exact ⟨_, h, c, hc, hreason, ((crl_bookkeeping _ _ _ _ _ h).2.2.2.2.1 c hc).2 hrev⟩

end Cabin
