import Cabin.Store.Sessions
import Cabin.Ca.Bookkeeping

/-!
# Publication of revocation lists by concurrent calls

The calls of `ca/crl.py` as the statements they execute, each call in a session of its own.
`regenerate_crl` reads the stored row and the revoked certificates before its first write, and taking
the row `FOR UPDATE` does nothing on SQLite, so a refresh may write a list it has built from what is
not current any more.  In a `revoke_certificate` the mark is flushed before the queries of
`regenerate_crl`, which therefore run under the write lock; but its own look at the row did not.

* `Pc.stmt` is the program of a call, `crlCalls` all the calls at once;
* `Fresh` is the condition on the two writes, `crlDiscipline` the argument that it is enough;
* `crl_publication` is the result, `refresh_hides_revocation` a run in which a refresh meets a
  revocation.
-/

namespace Cabin

open X509 Service

/-- A call. -/
inductive CrlOp
  /-- `revoke_certificate` -/
  | revokeCertificate (principal : Principal) (certId : ℕ) (reason : RevocationReason)
      (now : Option ℤ)
  /-- `regenerate_crl` -/
  | regenerateCrl (issuerId : ℕ) (now : Option ℤ)
  /-- `current_crl` -/
  | currentCrl (issuerId : ℕ) (now : Option ℤ)

/-- Where a call is. -/
inductive Pc
  /-- About to look at the stored row. -/
  | currentCrl (issuerId : ℕ) (moment : ℤ)
  /-- About to load the certificate. -/
  | revokeCertificate (principal : Principal) (certId : ℕ) (reason : RevocationReason) (moment : ℤ)
  /-- About to ask for the grant. -/
  | mayUseIssuer (principal : Principal) (row : Certificate) (reason : RevocationReason)
      (moment : ℤ)
  /-- About to flush the mark. -/
  | mark (row : Certificate) (reason : RevocationReason) (moment : ℤ)
  /-- About to load the credentials of the issuer.  `loaded` is the row the session has. -/
  | regenerateCrl (issuerId : ℕ) (moment : ℤ) (loaded : Option CrlState)
  /-- About to take the row `FOR UPDATE`. -/
  | selectState (issuerId : ℕ) (moment : ℤ) (loaded : Option CrlState) (issuer : Cert × PrivateKey)
  /-- About to select the revoked certificates. -/
  | selectRevoked (issuerId : ℕ) (moment : ℤ) (issuer : Cert × PrivateKey) (state : Option CrlState)
  /-- About to store the list. -/
  | store (state : Option CrlState) (next : CrlState)
  /-- About to commit. -/
  | commit
  /-- Something has been raised. -/
  | raised
  /-- The call has returned. -/
  | returned
  /-- The call has failed. -/
  | failed

/-- Where a call starts. -/
def CrlOp.start (d : Draw) : CrlOp → Pc
  | revokeCertificate principal certId reason now =>
    .revokeCertificate principal certId reason (now.getD d.now)
  | regenerateCrl issuerId now => .regenerateCrl issuerId (now.getD d.now) none
  | currentCrl issuerId now => .currentCrl issuerId (now.getD d.now)

namespace Pc

/-- `current_crl`, with the stored row. -/
def ofStored (issuerId : ℕ) (moment : ℤ) : Option CrlState → Pc
  | none => .regenerateCrl issuerId moment none
  | some state =>
    if Crl.nextUpdate state ≤ moment + Crl.crlMaxAge then .regenerateCrl issuerId moment (some state)
    else .returned

/-- `revoke_certificate`, with the certificate. -/
def ofRow (principal : Principal) (reason : RevocationReason) (moment : ℤ) :
    Option Certificate → Pc
  | none => .raised
  | some row => .mayUseIssuer principal row reason moment

/-- `revoke_certificate`, with the grant. -/
def ofGrant (row : Certificate) (reason : RevocationReason) (moment : ℤ) (granted : Bool) : Pc :=
  if granted = false then .raised
  else if row.revokedAt.isSome then .returned
  else .mark row reason moment

/-- `regenerate_crl`, with the credentials. -/
def ofCredentials (issuerId : ℕ) (moment : ℤ) (loaded : Option CrlState) :
    Except Failure (Cert × PrivateKey) → Pc
  | .ok issuer => .selectState issuerId moment loaded issuer
  | .error _ => .raised

/-- `regenerate_crl`, with the signed list. -/
def ofSigned (state : Option CrlState) : Except Failure CrlState → Pc
  | .ok next => .store state next
  | .error _ => .raised

/-- The mark of `revoke_certificate`. -/
def runMark (row : Certificate) (reason : RevocationReason) (moment : ℤ) (db : Db) : Db × Pc :=
  ({ db with certificates := Crl.mark db.certificates row.id moment reason },
    .regenerateCrl row.issuerId moment none)

/-- The write of `regenerate_crl`: an insert if it has found no row, else an update. -/
def runStore (state : Option CrlState) (next : CrlState) (db : Db) : Db × Pc :=
  if state = none ∧ (db.crls.get? next.issuerId).isSome then (db, .raised)
  else ({ db with crls := db.crls.upsert next }, .commit)

variable (E : Crypto) (d : Draw)

/-- The next statement of a call. -/
def stmt : Pc → Stmt Db Pc
  | currentCrl issuerId moment => .select fun db => ofStored issuerId moment (db.crls.get? issuerId)
  | revokeCertificate principal certId reason moment =>
    .select fun db => ofRow principal reason moment (db.certificates.get? certId)
  | mayUseIssuer principal row reason moment =>
    .select fun db => ofGrant row reason moment (Grants.mayUseIssuer db principal row.issuerId)
  | mark row reason moment => .write (runMark row reason moment) .raised
  | regenerateCrl issuerId moment loaded =>
    .select fun db => ofCredentials issuerId moment loaded (signingCredentials E d db.cas issuerId)
  -- A row the session has loaded before keeps the values it was loaded with.
  | selectState issuerId moment loaded issuer =>
    .select fun db => .selectRevoked issuerId moment issuer (loaded.or (db.crls.get? issuerId))
  | selectRevoked issuerId moment issuer state =>
    .select fun db => ofSigned state
      (Crl.signedCrl E d issuer state (Crl.revokedEntries db.certificates issuerId) issuerId moment)
  | store state next => .write (runStore state next) .raised
  | commit =>
    match d.attempt .commit ⟨.database, "commit failed"⟩ with
    | .ok _ => .commit .returned
    | .error _ => .rollback .failed
  | raised => .rollback .failed
  | returned => .done
  | failed => .done

end Pc

/-- A call with its draws. -/
abbrev CrlCall := Draw × Pc

/-- The statement of a call that goes on as a call with the same draws. -/
def Stmt.withDraw (d : Draw) : Stmt Db Pc → Stmt Db CrlCall
  | .select next => .select fun db => (d, next db)
  | .write run busy => .write (fun db => ((run db).1, d, (run db).2)) (d, busy)
  | .commit next => .commit (d, next)
  | .rollback next => .rollback (d, next)
  | .done => .done

/-- The next statement of a call. -/
def CrlCall.next (E : Crypto) (c : CrlCall) : Stmt Db CrlCall := (c.2.stmt E c.1).withDraw c.1

/-- The calls at once, in any order of their statements. -/
def crlCalls (E : Crypto) : Machine (Sessions Db CrlCall) Turn := Sessions.system (CrlCall.next E)

/-- The calls, about to start. -/
def CrlOp.startAll (db : Db) (ops : List (CrlOp × Draw)) : Sessions Db CrlCall :=
  .start db (ops.map fun p => (p.2, p.1.start p.2))

/-- What a call has looked at is still so when it writes: the certificate it marks is not revoked,
and the row it updates is the row it has read. -/
def Fresh (db : Db) (c : CrlCall) : Prop :=
  match c.2 with
  | .mark row _ _ => ∀ r ∈ db.certificates.get? row.id, r.revokedAt = none
  | .store state next => ∀ s ∈ state, db.crls.get? next.issuerId = some s
  | _ => True

instance (db : Db) : (c : CrlCall) → Decidable (Fresh db c)
  | (_, .mark row _ _) =>
    inferInstanceAs (Decidable (∀ r ∈ db.certificates.get? row.id, r.revokedAt = none))
  | (_, .store state next) =>
    inferInstanceAs (Decidable (∀ s ∈ state, db.crls.get? next.issuerId = some s))
  | (_, .currentCrl ..) | (_, .revokeCertificate ..) | (_, .mayUseIssuer ..)
  | (_, .regenerateCrl ..) | (_, .selectState ..) | (_, .selectRevoked ..) | (_, .commit)
  | (_, .raised) | (_, .returned) | (_, .failed) => isTrue trivial

/-- The call is over. -/
def Pc.isOver : Pc → Bool
  | returned | failed => true
  | _ => false

/-- Every call is over. -/
def Finished (s : Sessions Db CrlCall) : Prop := ∀ c ∈ s.calls, c.2.isOver = true

instance (s : Sessions Db CrlCall) : Decidable (Finished s) :=
  inferInstanceAs (Decidable (∀ c ∈ s.calls, c.2.isOver = true))

/-- Every revoked certificate is on the stored list of its issuer. -/
def RevokedListed (db : Db) : Prop :=
  ∀ c ∈ db.certificates, c.revokedAt ≠ none → ∃ s ∈ db.crls, s.issuerId = c.issuerId ∧
    ∃ e ∈ s.crl.tbs.revoked, e.serialNumber = c.serialNumber

instance (db : Db) : Decidable (RevokedListed db) :=
  inferInstanceAs (Decidable (∀ c ∈ db.certificates, c.revokedAt ≠ none →
    ∃ s ∈ db.crls, s.issuerId = c.issuerId ∧
      ∃ e ∈ s.crl.tbs.revoked, e.serialNumber = c.serialNumber))

/-- What a commit of these calls does: it stores a list built from what is committed, or marks a
certificate that is not revoked and stores the list with it. -/
inductive Publishes (E : Crypto) (db : Db) : Db → Prop
  | crl {d state} (h : Crl.nextCrl E d db state.issuerId state.generatedAt = .ok state) :
      Publishes E db { db with crls := db.crls.upsert state }
  | revoke {d row moment reason state} (hrow : row ∈ db.certificates) (hnew : row.revokedAt = none)
      (hissuer : state.issuerId = row.issuerId)
      (h : Crl.nextCrl E d
        { db with certificates := Crl.mark db.certificates row.id moment reason }
        state.issuerId state.generatedAt = .ok state) :
      Publishes E db { db with
        certificates := Crl.mark db.certificates row.id moment reason
        crls := db.crls.upsert state }

/-- What a rebuild of the list of an issuer works on: what is committed, or, under the lock, that
with one more certificate of the issuer marked. -/
inductive Base (db : Db) (issuerId : ℕ) : Option Db → Prop
  | refresh : Base db issuerId none
  | marked {row moment reason} (hrow : row ∈ db.certificates) (hnew : row.revokedAt = none)
      (hissuer : row.issuerId = issuerId) :
      Base db issuerId
        (some { db with certificates := Crl.mark db.certificates row.id moment reason })

/-- The row that was read is stored, or one with a higher number. -/
def Seen (db : Db) (issuerId : ℕ) (state : Option CrlState) : Prop :=
  ∀ s ∈ state, ∃ cur, db.crls.get? issuerId = some cur ∧ (cur = s ∨ s.crlNumber < cur.crlNumber)

/-- The certificate that was read is stored, under the same issuer. -/
def Kept (db : Db) (row : Certificate) : Prop :=
  ∃ r ∈ db.certificates, r.id = row.id ∧ r.issuerId = row.issuerId

/-- The list was built on the row `state` and on the entries of its issuer, which are current as
long as the row is. -/
def BuiltOn (E : Crypto) (d : Draw) (db : Db) (state : Option CrlState) (next : CrlState) : Prop :=
  ∃ issuer entries, signingCredentials E d db.cas next.issuerId = .ok issuer ∧
    Crl.signedCrl E d issuer state entries next.issuerId next.generatedAt = .ok next ∧
    (db.crls.get? next.issuerId = state →
      entries = Crl.revokedEntries db.certificates next.issuerId)

/-- What a call relies on while `db` is committed; `h` is what it sees if it has the lock. -/
def GoodCall (E : Crypto) (db : Db) (h : Option Db) (c : CrlCall) : Prop :=
  match c.2 with
  | .currentCrl .. | .revokeCertificate .. => h = none
  | .mayUseIssuer _ row _ _ | .mark row _ _ => h = none ∧ Kept db row
  | .regenerateCrl issuerId _ loaded => Base db issuerId h ∧ Seen (h.getD db) issuerId loaded
  | .selectState issuerId _ loaded issuer =>
    Base db issuerId h ∧ Seen (h.getD db) issuerId loaded ∧
      signingCredentials E c.1 (h.getD db).cas issuerId = .ok issuer
  | .selectRevoked issuerId _ issuer state =>
    Base db issuerId h ∧ Seen (h.getD db) issuerId state ∧
      signingCredentials E c.1 (h.getD db).cas issuerId = .ok issuer
  | .store state next =>
    Base db next.issuerId h ∧ Seen (h.getD db) next.issuerId state ∧
      BuiltOn E c.1 (h.getD db) state next
  | .commit => ∀ w ∈ h, Publishes E db w
  | .raised | .returned | .failed => True

variable {E : Crypto} {d : Draw} {db db' : Db}

/-! ### Commits -/

namespace Publishes

theorem write (h : Publishes E db db') : Write E db db' := by
  cases h with
  | crl h => exact .crl h
  | revoke hrow hnew hissuer h => exact .revoke hrow hnew hissuer h

theorem cas_eq (h : Publishes E db db') : db'.cas = db.cas := by
  cases h <;> rfl

theorem kept {row : Certificate} (h : Publishes E db db') (hk : Kept db row) : Kept db' row := by
  obtain ⟨r, hr, hid, hissuer⟩ := hk
  cases h with
  | crl h => exact ⟨r, hr, hid, hissuer⟩
  | revoke hrow hnew _ h =>
    refine ⟨_, mem_mark.2 ⟨r, hr, rfl⟩, ?_⟩
    split_ifs <;> exact ⟨hid, hissuer⟩

theorem seen {i : ℕ} {state : Option CrlState} (h : Publishes E db db') (hs : Seen db i state) :
    Seen db' i state := by
  intro s hstate
  obtain ⟨cur, hcur, hle⟩ := hs s hstate
  rcases crlNumber_of_write h.write i with heq | ⟨s', hs', hlt⟩
  · exact ⟨cur, heq.trans hcur, hle⟩
  · refine ⟨s', hs', .inr ?_⟩
    have hnum := hlt cur hcur
    rcases hle with rfl | hle
    · exact hnum
    · exact hle.trans hnum

/-- A commit that leaves the list of an issuer alone leaves its entries alone. -/
theorem entries_eq {i : ℕ} (h : Publishes E db db') (hcrl : db'.crls.get? i = db.crls.get? i) :
    Crl.revokedEntries db'.certificates i = Crl.revokedEntries db.certificates i := by
  cases h with
  | crl h => rfl
  | @revoke d row moment reason state hrow hnew hissuer h =>
    have hi : row.issuerId ≠ i := by
      rintro rfl
      -- The list of the issuer of the certificate has a new number.
      obtain ⟨-, -, hnumber, -⟩ := nextCrl_eq_ok h
      have hget : db.crls.get? row.issuerId = some state := by
        rw [← hcrl, Table.get?_upsert]
        exact if_pos hissuer.symm
      have hlt := lt_nextNumber (hissuer ▸ hget)
      exact absurd hnumber hlt.ne
    rw [Crl.revokedEntries, select_mark hrow hi]
    rfl

/-- What was built on a row that has been replaced is never current again. -/
theorem builtOn {state : Option CrlState} {next : CrlState} (h : Publishes E db db')
    (hs : Seen db next.issuerId state) (hb : BuiltOn E d db state next) :
    BuiltOn E d db' state next := by
  obtain ⟨issuer, entries, hissuer, hsigned, hentries⟩ := hb
  refine ⟨issuer, entries, by rwa [h.cas_eq], hsigned, fun hstate => ?_⟩
  rcases crlNumber_of_write h.write next.issuerId with heq | ⟨s', hs', hlt⟩
  · rw [h.entries_eq heq]
    exact hentries (heq ▸ hstate)
  · obtain ⟨cur, hcur, hle⟩ := hs s' (hstate ▸ hs')
    have hnum := hlt cur hcur
    rcases hle with rfl | hle
    · exact absurd hnum (lt_irrefl _)
    · exact absurd (hle.trans hnum) (lt_irrefl _)

end Publishes

/-! ### The argument -/

theorem signedCrl_eq_ok {issuer : Cert × PrivateKey} {state : Option CrlState}
    {entries : List Crl.RevokedEntry} {i : ℕ} {moment : ℤ} {next : CrlState}
    (h : Crl.signedCrl E d issuer state entries i moment = .ok next) :
    next.issuerId = i ∧ next.generatedAt = moment := by
  simp only [Crl.signedCrl, bind_eq_ok, pure_eq_ok] at h
  obtain ⟨crl, -, rfl⟩ := h
  exact ⟨rfl, rfl⟩

theorem BuiltOn.nextCrl {state : Option CrlState} {next : CrlState} (h : BuiltOn E d db state next)
    (hstate : db.crls.get? next.issuerId = state) :
    Crl.nextCrl E d db next.issuerId next.generatedAt = .ok next := by
  obtain ⟨issuer, entries, hissuer, hsigned, hentries⟩ := h
  rw [hentries hstate, ← hstate] at hsigned
  exact bind_eq_ok.2 ⟨issuer, hissuer, hsigned⟩

/-- A stored list that was built on the current row is publication. -/
theorem Base.publishes {h : Option Db} {next : CrlState} (hbase : Base db next.issuerId h)
    (hnext : Crl.nextCrl E d (h.getD db) next.issuerId next.generatedAt = .ok next) :
    Publishes E db { h.getD db with crls := (h.getD db).crls.upsert next } := by
  cases hbase with
  | refresh => exact .crl hnext
  | marked hrow hnew hissuer => exact .revoke hrow hnew hissuer.symm hnext

theorem Base.cas {h : Option Db} {i : ℕ} (hbase : Base db i h) : (h.getD db).cas = db.cas := by
  cases hbase <;> rfl

/-! The statement of a call with draws is that of its program. -/

theorem next_eq_select {c : CrlCall} {f : Db → CrlCall} (h : c.next E = .select f) :
    ∃ g, c.2.stmt E c.1 = .select g ∧ f = fun db => (c.1, g db) := by
  unfold CrlCall.next at h
  cases hs : c.2.stmt E c.1 <;> rw [hs] at h <;> cases h
  exact ⟨_, rfl, rfl⟩

theorem next_eq_write {c : CrlCall} {run : Db → Db × CrlCall} {busy : CrlCall}
    (h : c.next E = .write run busy) :
    ∃ r b, c.2.stmt E c.1 = .write r b ∧ run = (fun db => ((r db).1, c.1, (r db).2)) ∧
      busy = (c.1, b) := by
  unfold CrlCall.next at h
  cases hs : c.2.stmt E c.1 <;> rw [hs] at h <;> cases h
  exact ⟨_, _, rfl, rfl, rfl⟩

theorem next_eq_commit {c l : CrlCall} (h : c.next E = .commit l) :
    c.2 = .commit ∧ l = (c.1, .returned) := by
  obtain ⟨d, pc⟩ := c
  unfold CrlCall.next at h
  cases pc with
  | commit =>
    simp only [Pc.stmt] at h
    split at h
    · cases h
      exact ⟨rfl, rfl⟩
    · cases h
  | _ => cases h

theorem next_eq_rollback {c l : CrlCall} (h : c.next E = .rollback l) : l = (c.1, .failed) := by
  obtain ⟨d, pc⟩ := c
  unfold CrlCall.next at h
  cases pc with
  | commit =>
    simp only [Pc.stmt] at h
    split at h
    · cases h
    · cases h
      rfl
  | raised =>
    cases h
    rfl
  | _ => cases h

/-- What a call without the lock relies on is stable under the commits of the others. -/
theorem goodCall_stable {c : CrlCall} (hg : GoodCall E db none c) (h : Publishes E db db') :
    GoodCall E db' none c := by
  obtain ⟨d, pc⟩ := c
  cases pc with
  | currentCrl | revokeCertificate => rfl
  | mayUseIssuer principal row reason moment => exact ⟨rfl, h.kept hg.2⟩
  | mark row reason moment => exact ⟨rfl, h.kept hg.2⟩
  | regenerateCrl i moment loaded => exact ⟨.refresh, h.seen hg.2⟩
  | selectState i moment loaded issuer =>
    obtain ⟨-, hseen, hissuer⟩ := hg
    exact ⟨.refresh, h.seen hseen, by rw [← hissuer]; simp [h.cas_eq]⟩
  | selectRevoked i moment issuer state =>
    obtain ⟨-, hseen, hissuer⟩ := hg
    exact ⟨.refresh, h.seen hseen, by rw [← hissuer]; simp [h.cas_eq]⟩
  | store state next =>
    obtain ⟨-, hseen, hbuilt⟩ := hg
    exact ⟨.refresh, h.seen hseen, h.builtOn hseen hbuilt⟩
  | commit => exact fun w hw => absurd hw (by simp)
  | raised | returned | failed => trivial

theorem goodCall_select {h : Option Db} {c : CrlCall} {g : Db → Pc} (hg : GoodCall E db h c)
    (hn : c.2.stmt E c.1 = .select g) : GoodCall E db h (c.1, g (h.getD db)) := by
  obtain ⟨d, pc⟩ := c
  cases pc with
  | currentCrl i moment =>
    cases hn
    obtain rfl : h = none := hg
    dsimp only [Pc.ofStored]
    split
    · exact ⟨.refresh, fun _ hs => absurd hs (by simp)⟩
    · split_ifs
      · refine ⟨.refresh, fun s hs => ⟨s, ?_, .inl rfl⟩⟩
        rwa [← Option.mem_some.1 hs]
      · trivial
  | revokeCertificate principal certId reason moment =>
    cases hn
    obtain rfl : h = none := hg
    dsimp only [Pc.ofRow]
    split
    · trivial
    · rename_i row hrow
      exact ⟨rfl, row, (Table.get?_eq_some.1 hrow).1, rfl, rfl⟩
  | mayUseIssuer principal row reason moment =>
    cases hn
    dsimp only [Pc.ofGrant]
    split_ifs
    · trivial
    · trivial
    · exact hg
  | regenerateCrl i moment loaded =>
    cases hn
    dsimp only [Pc.ofCredentials]
    split
    · exact ⟨hg.1, hg.2, ‹_›⟩
    · trivial
  | selectState i moment loaded issuer =>
    cases hn
    obtain ⟨hbase, hseen, hissuer⟩ := hg
    refine ⟨hbase, fun s hs => ?_, hissuer⟩
    cases loaded with
    | some l => exact hseen s hs
    | none => exact ⟨s, hs, .inl rfl⟩
  | selectRevoked i moment issuer state =>
    cases hn
    obtain ⟨hbase, hseen, hissuer⟩ := hg
    dsimp only
    cases hsigned : Crl.signedCrl E d issuer state
      (Crl.revokedEntries (h.getD db).certificates i) i moment with
    | error e => trivial
    | ok next =>
      obtain ⟨rfl, rfl⟩ := signedCrl_eq_ok hsigned
      exact ⟨hbase, hseen, issuer, _, hissuer, hsigned, fun _ => rfl⟩
  | commit =>
    simp only [Pc.stmt] at hn
    split at hn <;> cases hn
  | _ => cases hn

theorem goodCall_write {h : Option Db} {c : CrlCall} {run : Db → Db × Pc} {busy : Pc}
    (hg : GoodCall E db h c) (hn : c.2.stmt E c.1 = .write run busy)
    (hfresh : Fresh (h.getD db) c) :
    GoodCall E db (some (run (h.getD db)).1) (c.1, (run (h.getD db)).2) := by
  obtain ⟨d, pc⟩ := c
  cases pc with
  | mark row reason moment =>
    cases hn
    obtain ⟨rfl, r, hr, hid, hissuer⟩ := hg
    have hnew : r.revokedAt = none :=
      hfresh r (show db.certificates.get? row.id = some r from Table.get?_eq_some.2 ⟨hr, hid⟩)
    refine ⟨?_, fun _ hs => absurd hs (by simp)⟩
    simp only [Pc.runMark, Option.getD_none, ← hid]
    exact .marked hr hnew hissuer
  | store state next =>
    cases hn
    obtain ⟨hbase, -, hbuilt⟩ := hg
    dsimp only [Pc.runStore]
    split_ifs with hrefused
    · trivial
    · have hstate : (h.getD db).crls.get? next.issuerId = state := by
        cases state with
        | none => simpa using hrefused
        | some s => exact hfresh s rfl
      intro w hw
      rw [← Option.mem_some.1 hw]
      exact hbase.publishes (hbuilt.nextCrl hstate)
  | commit =>
    simp only [Pc.stmt] at hn
    split at hn <;> cases hn
  | _ => cases hn

/-- The calls keep to a discipline, as long as what they write is fresh. -/
def crlDiscipline (E : Crypto) : Discipline (CrlCall.next E) Fresh where
  Good := GoodCall E
  Apart _ _ := True
  Commits := Publishes E
  symm _ := trivial
  stable {_ _ _ c _} hg hm _ hn := by
    obtain ⟨hpc, -⟩ := next_eq_commit hn
    obtain ⟨d, pc⟩ := c
    obtain rfl : pc = .commit := hpc
    exact goodCall_stable hg (hm _ rfl)
  select hg hn _ := by
    obtain ⟨g, hs, rfl⟩ := next_eq_select hn
    exact goodCall_select hg hs
  write hg hn hfresh := by
    obtain ⟨r, b, hs, rfl, rfl⟩ := next_eq_write hn
    exact goodCall_write hg hs hfresh
  giveUp {_ c _ _} _ hn := by
    obtain ⟨r, b, hs, -, rfl⟩ := next_eq_write hn
    obtain ⟨d, pc⟩ := c
    cases pc with
    | mark | store =>
      cases hs
      trivial
    | commit =>
      simp only [Pc.stmt] at hs
      split at hs <;> cases hs
    | _ => cases hs
  commit {_ _ c _} hg hn _ := by
    obtain ⟨hpc, rfl⟩ := next_eq_commit hn
    obtain ⟨d, pc⟩ := c
    obtain rfl : pc = .commit := hpc
    exact ⟨hg _ rfl, trivial⟩
  commitNone _ hn := by
    obtain ⟨-, rfl⟩ := next_eq_commit hn
    trivial
  rollback _ hn := by
    obtain rfl := next_eq_rollback hn
    trivial
  apart _ _ _ _ := trivial
  apartWrite _ _ _ _ := trivial

theorem allGood_startAll (db : Db) (ops : List (CrlOp × Draw)) :
    (crlDiscipline E).AllGood (CrlOp.startAll db ops) := by
  refine ⟨fun k c hc => ?_, fun _ _ _ _ _ _ _ => trivial⟩
  have hc : (ops.map fun p => (p.2, p.1.start p.2))[k]? = some c := hc
  obtain ⟨p, -, rfl⟩ := List.mem_map.1 (List.mem_of_getElem? hc)
  obtain ⟨op, d⟩ := p
  cases op with
  | regenerateCrl => exact ⟨.refresh, fun _ hs => absurd hs (by simp)⟩
  | _ => rfl

/-! ### Publication -/

/-- **Publication under concurrency, as long as what is written is fresh.**  Let any number of calls
work at once on a database that the calls of the authority have produced.  If each call, when it
marks its certificate, finds it still unrevoked, and when it updates a stored row, finds the row it
has read, then in every state every revoked certificate is on the stored list of its issuer; and
from any state to any later one a stored list is replaced by one with a higher number only, and a
revocation stays as it was recorded. -/
theorem crl_publication (E : Crypto) (u v : List (ℕ × ℕ)) (o : Option Str) (db : Db)
    (h : (caMachine E).Reachable (.start u v o) db) (ops : List (CrlOp × Draw))
    (s : Sessions Db CrlCall)
    (hs : (crlCalls E).Reach (Sessions.Careful Fresh) (CrlOp.startAll db ops) s) :
    RevokedListed s.committed ∧ ∀ s', (crlCalls E).Reach (Sessions.Careful Fresh) s s' →
      CrlsClimb s.committed s'.committed ∧ RevocationsKept s.committed s'.committed := by
  have hstart := allGood_startAll (E := E) db ops
  have hgood := (crlDiscipline E).allGood_of_reach hs hstart
  have hbooks : Books s.committed :=
    (crlDiscipline E).rel_of_reach (R := fun a b => Books a → Books b) hs hstart (fun _ => id)
      (fun _ _ _ hab hbc => hbc ∘ hab) (fun _ _ hp => books_of_write hp.write) (books_of_reach h)
  refine ⟨fun c hc hrev => hbooks.listed_of_revoked hc hrev, fun s' hs' => ⟨?_, ?_⟩⟩
  · exact (crlDiscipline E).rel_of_reach hs' hgood .refl (fun _ _ _ => .trans)
      fun _ _ hp => crlsClimb_of_write hp.write
  · exact (crlDiscipline E).rel_of_reach hs' hgood .refl (fun _ _ _ => .trans)
      fun _ _ hp => revocationsKept_of_write hp.write

/-- A hierarchy with a leaf and a stored list. -/
def listedHierarchy : List (Op × Draw) :=
  [(.hierarchy (.createRoot (Str.of "Root") "ecdsa-p256" 20 1), .sample 1),
    (.hierarchy (.createIntermediateUnder 1 (Str.of "Issuer") "ecdsa-p256" 10 none), .sample 2),
    (.issueAndStore .system .server (Str.of "nas.lan") [] 365 "ecdsa-p256" none .ui, .sample 3),
    (.regenerateCrl 2 (some (Instant.days 20000)), .sample 4)]

/-- The state after `listedHierarchy`. -/
def listedDb : Db := (caMachine .transparent).final (.start [] [] none) listedHierarchy

/-- A week later the list is fetched, and the leaf is revoked. -/
def refreshAndRevoke : List (CrlOp × Draw) :=
  [(.currentCrl 2 (some (Instant.days 20007)), .sample 5),
    (.revokeCertificate .system 1 .keyCompromise (some (Instant.days 20007)), .sample 6)]

/-- The refresh is over before the revocation begins. -/
def oneAfterTheOther : List Turn := List.replicate 6 (.go 0) ++ List.replicate 8 (.go 1)

/-- The refresh has read the revoked certificates when the revocation begins, and writes after it has
committed. -/
def refreshMeetsRevocation : List Turn :=
  List.replicate 4 (.go 0) ++ List.replicate 8 (.go 1) ++ List.replicate 2 (.go 0)

/-- One after the other, the calls publish the revocation. -/
theorem crl_publication_oneAfterTheOther :
    ∃ s, (crlCalls .transparent).Reach (Sessions.Careful Fresh)
        (CrlOp.startAll listedDb refreshAndRevoke) s ∧ Finished s ∧
      (∃ c ∈ s.committed.certificates, c.revokedAt ≠ none) ∧ RevokedListed s.committed := by
  have h : (caMachine .transparent).Reachable (.start [] [] none) listedDb :=
    Machine.reachable_final _ listedHierarchy
  have hs : (crlCalls .transparent).Reach (Sessions.Careful Fresh)
      (CrlOp.startAll listedDb refreshAndRevoke) _ :=
    Machine.reach_final _ oneAfterTheOther (by decide +kernel)
  exact ⟨_, hs, by decide +kernel, by decide +kernel, (crl_publication _ _ _ _ _ h _ _ hs).1⟩

/-- The list that is stored when both calls have returned does not have the revoked certificate. -/
theorem refresh_hides_revocation :
    ¬ ∀ db ops s, (caMachine .transparent).Reachable (.start [] [] none) db →
      (crlCalls .transparent).Reachable (CrlOp.startAll db ops) s → Finished s →
      RevokedListed s.committed := by
  intro hall
  have h : (caMachine .transparent).Reachable (.start [] [] none) listedDb :=
    Machine.reachable_final _ listedHierarchy
  have hs : (crlCalls .transparent).Reachable (CrlOp.startAll listedDb refreshAndRevoke) _ :=
    Machine.reachable_final _ refreshMeetsRevocation
  exact absurd (hall _ _ _ h hs (by decide +kernel)) (by decide +kernel)

end Cabin
