import Cabin.Store.Atomic
import Cabin.Acme.Jws

/-!
# Nonces

`acme/nonces.py`, and `verify_request` as a whole: the nonce of a request whose signature has verified
is spent by a `DELETE` that also looks at its age.  Any number of calls hand out nonces, remove old
ones and verify requests at the same time, each with clock readings of its own.

* `NoncePc.act` is the program of a call, `nonceCalls` all calls at once;
* `nonceStep_of_step` says what a step does, `NonceInv` is the invariant;
* `request_authentication` is the result over every run.
-/

namespace Cabin

namespace Acme

/-! ### The table -/

/-- A row of `acme_nonces`: a nonce that was handed out and has not come back. -/
structure AcmeNonce where
  /-- The primary key. -/
  nonce : Str
  /-- When it was handed out, in whole seconds. -/
  issuedAt : ℤ
  deriving DecidableEq, Repr

instance : Keyed AcmeNonce Str := ⟨AcmeNonce.nonce⟩

@[simp] theorem key_acmeNonce (r : AcmeNonce) : key r = r.nonce := rfl

/-- What a request is verified against. -/
structure NonceDb where
  /-- The table `acme_accounts`. -/
  accounts : Table AcmeAccount
  /-- The table `acme_nonces`. -/
  nonces : Table AcmeNonce

/-- How long a nonce can be used. -/
def nonceLifetime : ℤ := Instant.ofSeconds (24 * 60 * 60)

/-- What is handed out before this second is too old. -/
def nonceCutoff (now : ℤ) : ℤ := Instant.seconds (now - nonceLifetime)

/-- Remove the nonces that are too old. -/
def purgeNonces (nonces : Table AcmeNonce) (now : ℤ) : Table AcmeNonce :=
  nonces.delete fun r => r.issuedAt < nonceCutoff now

/-- The row is that of the nonce, and not too old. -/
def isUsable (nonce : Str) (now : ℤ) (r : AcmeNonce) : Bool :=
  r.nonce == nonce && decide (nonceCutoff now ≤ r.issuedAt)

/-- Spend a nonce, and whether there was one to spend. -/
def consumeNonce (nonces : Table AcmeNonce) (nonce : Str) (now : ℤ) : Table AcmeNonce × Bool :=
  if nonce = [] then (nonces, false)
  else (nonces.delete (isUsable nonce now), (nonces.select (isUsable nonce now)).length == 1)

/-! ### The calls -/

/-- Where a call is. -/
inductive NoncePc where
  /-- `issue`: about to remove the old nonces. -/
  | issue (now : ℤ) (nonce : Str)
  /-- About to store the new one. -/
  | insert (now : ℤ) (nonce : Str)
  /-- The nonce is handed out. -/
  | issued (row : AcmeNonce)
  /-- About to remove the old nonces. -/
  | purge (now : ℤ)
  /-- They are removed. -/
  | purged
  /-- `verify_request` begins; the clock is read when the nonce is spent. -/
  | verify (r : Post) (now : ℤ)
  /-- The signature has verified. -/
  | consume (r : Post) (now : ℤ) (x : Authenticated)
  /-- The nonce is spent, and this is the payload, unless it is malformed. -/
  | passed (r : Post) (now : ℤ) (x : Authenticated) (payload : Except Raised (Option Json))
  /-- There was no such nonce. -/
  | unknown (r : Post) (now : ℤ) (x : Authenticated)
  /-- The request was refused before its nonce was looked at. -/
  | refused (r : Post) (e : Raised)
  /-- The database has refused a write. -/
  | crashed

namespace NoncePc

variable (J : Jose)

/-- From what `verify_request` has read. -/
def ofAuthenticate (r : Post) (now : ℤ) : Except Raised Authenticated → NoncePc
  | .ok x => consume r now x
  | .error e => refused r e

/-- Store a nonce. -/
def runInsert (now : ℤ) (nonce : Str) (db : NonceDb) : Except NoncePc (NonceDb × NoncePc) :=
  match db.nonces.insert? ⟨nonce, Instant.seconds now⟩ with
  | some nonces => .ok ({ db with nonces }, issued ⟨nonce, Instant.seconds now⟩)
  | none => .error crashed

/-- Spend the nonce of a request. -/
def runConsume (r : Post) (now : ℤ) (x : Authenticated) (db : NonceDb) :
    Except NoncePc (NonceDb × NoncePc) :=
  .ok ({ db with nonces := (consumeNonce db.nonces x.nonce now).1 },
    if (consumeNonce db.nonces x.nonce now).2 then passed r now x (payload J x.jws.payloadB64)
    else unknown r now x)

/-- The next action of a call. -/
def act : NoncePc → Action NonceDb NoncePc
  | issue now nonce =>
    .write (fun db => .ok ({ db with nonces := purgeNonces db.nonces now }, insert now nonce)) crashed
  | insert now nonce => .write (runInsert now nonce) crashed
  | purge now =>
    .write (fun db => .ok ({ db with nonces := purgeNonces db.nonces now }, purged)) crashed
  | verify r now => .select fun db => ofAuthenticate r now (authenticate J db.accounts r)
  | consume r now x => .write (runConsume J r now x) crashed
  | issued _ | purged | passed .. | unknown .. | refused .. | crashed => .done

/-- The call has handed out the nonce. -/
def hasIssued (nonce : Str) : NoncePc → Bool
  | issued row => row.nonce == nonce
  | _ => false

/-- The nonce has let the request of the call through. -/
def hasPassed (nonce : Str) : NoncePc → Bool
  | passed _ _ x _ => x.nonce == nonce
  | _ => false

end NoncePc

/-- Calls as they come in. -/
inductive NonceCall where
  | issue (now : ℤ) (nonce : Str)
  | purge (now : ℤ)
  | verify (r : Post) (now : ℤ)

/-- Where a call starts. -/
def NonceCall.start : NonceCall → NoncePc
  | issue now nonce => .issue now nonce
  | purge now => .purge now
  | verify r now => .verify r now

/-- The calls at once, in any order of their turns. -/
def nonceCalls (J : Jose) : Machine (Sessions NonceDb (Phase NoncePc)) Turn :=
  transactions (NoncePc.act J)

/-- No nonce was handed out, and the calls that come in. -/
def nonceStart (accounts : Table AcmeAccount) (calls : List NonceCall) :
    Sessions NonceDb (Phase NoncePc) :=
  .begin ⟨accounts, .empty⟩ (calls.map NonceCall.start)

/-! ### What a step does -/

/-- What an action does to the database, and where the call goes. -/
inductive NonceStep (J : Jose) (db : NonceDb) : NoncePc → NoncePc → NonceDb → Prop
  | verified {r now x} (h : authenticate J db.accounts r = .ok x) :
      NonceStep J db (.verify r now) (.consume r now x) db
  | refused {r now e} (h : authenticate J db.accounts r = .error e) :
      NonceStep J db (.verify r now) (.refused r e) db
  | crashed {pc} (h : pc.act J ≠ .done) : NonceStep J db pc .crashed db
  | purgeFirst {now nonce} :
      NonceStep J db (.issue now nonce) (.insert now nonce)
        { db with nonces := purgeNonces db.nonces now }
  | purge {now} :
      NonceStep J db (.purge now) .purged { db with nonces := purgeNonces db.nonces now }
  | issued {now nonce} (hfresh : ∀ r ∈ db.nonces, r.nonce ≠ nonce) :
      NonceStep J db (.insert now nonce) (.issued ⟨nonce, Instant.seconds now⟩)
        { db with nonces := db.nonces.upsert ⟨nonce, Instant.seconds now⟩ }
  | unknown {r now x} : NonceStep J db (.consume r now x) (.unknown r now x) db
  | passed {r now x row} (hrow : row ∈ db.nonces) (hnonce : row.nonce = x.nonce)
      (hage : nonceCutoff now ≤ row.issuedAt) :
      NonceStep J db (.consume r now x) (.passed r now x (payload J x.jws.payloadB64))
        { db with nonces := db.nonces.delete (isUsable x.nonce now) }

variable {J : Jose} {accounts : Table AcmeAccount} {a a' : Atomic NonceDb NoncePc}

theorem consumeNonce_cases (nonces : Table AcmeNonce) (nonce : Str) (now : ℤ) :
    consumeNonce nonces nonce now = (nonces, false) ∨
      consumeNonce nonces nonce now = (nonces.delete (isUsable nonce now), true) ∧
        ∃ row ∈ nonces, row.nonce = nonce ∧ nonceCutoff now ≤ row.issuedAt := by
  have hkey : ∀ r r', isUsable nonce now r = true → isUsable nonce now r' = true → key r = key r' := by
    intro r r' hr hr'
    simp only [isUsable, Bool.and_eq_true, beq_iff_eq] at hr hr'
    exact hr.1.trans hr'.1.symm
  unfold consumeNonce
  split_ifs
  · exact .inl rfl
  · by_cases hrow : ∃ row ∈ nonces, isUsable nonce now row = true
    · have hone := (Table.length_select_eq_one hkey).2 hrow
      obtain ⟨row, hmem, husable⟩ := hrow
      refine .inr ⟨by simp [hone], row, hmem, ?_⟩
      simpa [isUsable] using husable
    · have hne : ¬ (nonces.select (isUsable nonce now)).length = 1 := fun hone =>
        hrow ((Table.length_select_eq_one hkey).1 hone)
      have hnone : ∀ row ∈ nonces, isUsable nonce now row = false := by simpa using hrow
      refine .inl ?_
      rw [Table.delete_eq_self hnone]
      simp [hne]

/-- **What a step does.** -/
theorem nonceStep_of_step {t : Turn} (h : (Atomic.system (NoncePc.act J)).step a t = some a') :
    ∃ k pc pc', a.calls[k]? = some pc ∧ a'.calls = a.calls.set k pc' ∧
      NonceStep J a.db pc pc' a'.db := by
  obtain ⟨k, pc, pc', hk, hcalls, hmove⟩ := Atomic.step_cases h
  refine ⟨k, pc, pc', hk, hcalls, ?_⟩
  rcases hmove with ⟨f, -, hact, rfl, hdb⟩ | ⟨run, busy, -, hact, hrun⟩ |
    ⟨run, busy, -, hact, hrun, hdb⟩ | ⟨run, busy, -, hact, rfl, hdb⟩
  · rw [hdb]
    cases pc with
    | verify r now =>
      cases hact
      dsimp only
      cases hauth : authenticate J a.db.accounts r with
      | ok x => exact .verified hauth
      | error e => exact .refused hauth
    | _ => cases hact
  · cases pc with
    | issue now nonce =>
      cases hact
      obtain ⟨hdb, rfl⟩ := Prod.mk.inj (Except.ok.inj hrun)
      exact hdb ▸ .purgeFirst
    | insert now nonce =>
      cases hact
      simp only [NoncePc.runInsert] at hrun
      split at hrun
      · rename_i nonces hinsert
        obtain ⟨hfresh, rfl⟩ := Table.insert?_eq_some.1 hinsert
        obtain ⟨hdb, rfl⟩ := Prod.mk.inj (Except.ok.inj hrun)
        exact hdb ▸ .issued hfresh
      · cases hrun
    | purge now =>
      cases hact
      obtain ⟨hdb, rfl⟩ := Prod.mk.inj (Except.ok.inj hrun)
      exact hdb ▸ .purge
    | consume r now x =>
      cases hact
      obtain ⟨hdb, rfl⟩ := Prod.mk.inj (Except.ok.inj hrun)
      rcases consumeNonce_cases a.db.nonces x.nonce now with hc | ⟨hc, row, hrow, hnonce, hage⟩
      · rw [← hdb, hc]
        exact .unknown
      · rw [← hdb, hc]
        exact .passed hrow hnonce hage
    | _ => cases hact
  · rw [hdb]
    cases pc with
    | insert now nonce =>
      cases hact
      simp only [NoncePc.runInsert] at hrun
      split at hrun
      · cases hrun
      · cases hrun
        exact .crashed (nomatch ·)
    | issue | purge | consume =>
      cases hact
      cases hrun
    | _ => cases hact
  · rw [hdb]
    cases pc with
    | issue | insert | purge | consume =>
      cases hact
      exact .crashed (nomatch ·)
    | _ => cases hact

/-! ### The invariant -/

/-- The nonce is in the table. -/
def NonceDb.present (db : NonceDb) (nonce : Str) : ℕ := if (db.nonces.get? nonce).isSome then 1 else 0

/-- What holds in every state of the calls. -/
structure NonceInv (J : Jose) (accounts : Table AcmeAccount) (a : Atomic NonceDb NoncePc) : Prop where
  /-- Nobody writes the accounts. -/
  sameAccounts : a.db.accounts = accounts
  /-- Every nonce in the table was handed out. -/
  issued : ∀ row ∈ a.db.nonces, ∃ k : ℕ, a.calls[k]? = some (.issued row)
  /-- What has let a request through or still may was handed out as often. -/
  count : ∀ nonce, a.calls.countP (NoncePc.hasPassed nonce) + a.db.present nonce ≤
    a.calls.countP (NoncePc.hasIssued nonce)
  /-- A nonce is spent only on a request that is authentic. -/
  consume : ∀ (k : ℕ) r now x, a.calls[k]? = some (.consume r now x) →
    authenticate J accounts r = .ok x
  /-- A request that went through is authentic, and its nonce was handed out and not too old. -/
  passed : ∀ (k : ℕ) r now x p, a.calls[k]? = some (.passed r now x p) →
    authenticate J accounts r = .ok x ∧ p = payload J x.jws.payloadB64 ∧
      ∃ (j : ℕ) (row : AcmeNonce), a.calls[j]? = some (.issued row) ∧ row.nonce = x.nonce ∧
        nonceCutoff now ≤ row.issuedAt

theorem present_le {db db' : NonceDb} {nonce : Str}
    (h : ∀ row ∈ db'.nonces, row.nonce = nonce → row ∈ db.nonces) :
    db'.present nonce ≤ db.present nonce := by
  unfold NonceDb.present
  cases h' : db'.nonces.get? nonce with
  | none => simp
  | some row =>
    obtain ⟨hrow, hkey⟩ := Table.get?_eq_some.1 h'
    have hget : db.nonces.get? nonce = some row := Table.get?_eq_some.2 ⟨h row hrow hkey, hkey⟩
    simp [hget]

theorem present_eq_one {db : NonceDb} {row : AcmeNonce} (h : row ∈ db.nonces) :
    db.present row.nonce = 1 := by
  have hget : db.nonces.get? row.nonce = some row := Table.get?_key h
  simp [NonceDb.present, hget]

theorem present_eq_zero {db : NonceDb} {nonce : Str} (h : ∀ row ∈ db.nonces, row.nonce ≠ nonce) :
    db.present nonce = 0 := by
  have hget : db.nonces.get? nonce = none := Table.get?_eq_none.2 h
  simp [NonceDb.present, hget]

/-- A step takes nonces out of the table, or hands one out. -/
theorem NonceStep.mem_nonces {db db' : NonceDb} {pc pc' : NoncePc} (h : NonceStep J db pc pc' db') :
    db'.accounts = db.accounts ∧ ∀ row ∈ db'.nonces, row ∈ db.nonces ∨ pc' = .issued row := by
  cases h with
  | purgeFirst | purge => exact ⟨rfl, fun row hrow => .inl (Table.mem_delete.1 hrow).1⟩
  | issued hfresh =>
    refine ⟨rfl, fun row hrow => ?_⟩
    rcases Table.mem_upsert.1 hrow with rfl | ⟨hrow, -⟩
    · exact .inr rfl
    · exact .inl hrow
  | passed hrow hnonce hage => exact ⟨rfl, fun row hrow => .inl (Table.mem_delete.1 hrow).1⟩
  | verified | refused | crashed | unknown => exact ⟨rfl, fun _ => .inl⟩

/-- What a step does to the nonces that have let a request through, are in the table, or were handed
out. -/
theorem NonceStep.count {db db' : NonceDb} {pc pc' : NoncePc} (h : NonceStep J db pc pc' db')
    (nonce : Str) :
    pc.hasPassed nonce = false ∧ pc.hasIssued nonce = false ∧
      (if pc'.hasPassed nonce then 1 else 0) + db'.present nonce ≤
        db.present nonce + if pc'.hasIssued nonce then 1 else 0 := by
  cases h with
  | verified | refused | unknown => exact ⟨rfl, rfl, by simp [NoncePc.hasPassed]⟩
  | @crashed pc hact =>
    refine ⟨?_, ?_, by simp [NoncePc.hasPassed]⟩
    · cases pc <;> first | rfl | exact absurd rfl hact
    · cases pc <;> first | rfl | exact absurd rfl hact
  | purgeFirst | purge =>
    refine ⟨rfl, rfl, ?_⟩
    simp only [NoncePc.hasPassed, NoncePc.hasIssued, Bool.false_eq_true, if_false, Nat.zero_add,
      Nat.add_zero]
    exact present_le fun row hrow _ => (Table.mem_delete.1 hrow).1
  | @issued now new hfresh =>
    refine ⟨rfl, rfl, ?_⟩
    by_cases hn : new = nonce
    · subst hn
      simp only [NoncePc.hasPassed, NoncePc.hasIssued, beq_self_eq_true, Bool.false_eq_true, if_true,
        if_false, present_eq_zero hfresh]
      unfold NonceDb.present
      split_ifs <;> omega
    · simp only [NoncePc.hasPassed, NoncePc.hasIssued, beq_iff_eq, hn, Bool.false_eq_true, if_false,
        Nat.zero_add, Nat.add_zero]
      refine present_le fun row hrow hnonce => ?_
      rcases Table.mem_upsert.1 hrow with rfl | ⟨hrow, -⟩
      · exact absurd hnonce hn
      · exact hrow
  | @passed r now x row hrow hnonce hage =>
    refine ⟨rfl, rfl, ?_⟩
    by_cases hn : x.nonce = nonce
    · subst hn
      have hone : db.present x.nonce = 1 := hnonce ▸ present_eq_one hrow
      -- The row of the nonce is the one that is deleted.
      have hgone : ∀ y ∈ db.nonces.delete (isUsable x.nonce now), y.nonce ≠ x.nonce := by
        intro y hy hyn
        obtain ⟨hy, husable⟩ := Table.mem_delete.1 hy
        obtain rfl := Table.eq_of_key hy hrow (hyn.trans hnonce.symm)
        simp [isUsable, hnonce, hage] at husable
      rw [present_eq_zero hgone, hone]
      simp [NoncePc.hasPassed, NoncePc.hasIssued]
    · simp only [NoncePc.hasPassed, NoncePc.hasIssued, beq_iff_eq, hn, Bool.false_eq_true, if_false,
        Nat.zero_add, Nat.add_zero]
      exact present_le fun row hrow _ => (Table.mem_delete.1 hrow).1

theorem NonceInv.step {t : Turn} (hinv : NonceInv J accounts a)
    (h : (Atomic.system (NoncePc.act J)).step a t = some a') : NonceInv J accounts a' := by
  obtain ⟨k, pc, pc', hk, hcalls, hstep⟩ := nonceStep_of_step h
  obtain ⟨haccounts, hrows⟩ := hstep.mem_nonces
  have hself : a'.calls[k]? = some pc' := by
    rw [hcalls]
    simp [(List.getElem?_eq_some_iff.1 hk).1]
  have hissued : ∀ row, (∃ j : ℕ, a.calls[j]? = some (.issued row)) →
      ∃ j : ℕ, a'.calls[j]? = some (.issued row) := fun row ⟨j, hj⟩ =>
    ⟨j, Atomic.keeps_done h hj rfl⟩
  constructor
  · exact haccounts.trans hinv.sameAccounts
  · intro row hrow
    rcases hrows row hrow with hrow | rfl
    · exact hissued row (hinv.issued row hrow)
    · exact ⟨k, hself⟩
  · intro nonce
    obtain ⟨hpassed, hnone, hle⟩ := hstep.count nonce
    have hp := Atomic.countP_set (NoncePc.hasPassed nonce) pc' hk
    have hi := Atomic.countP_set (NoncePc.hasIssued nonce) pc' hk
    have hold := hinv.count nonce
    rw [hcalls]
    simp only [hpassed, hnone, Bool.false_eq_true, if_false] at hp hi
    omega
  · intro j r now x hj
    rw [hcalls] at hj
    rcases Discipline.getElem?_set_cases hj with ⟨rfl, rfl⟩ | ⟨-, hj⟩
    · generalize a'.db = db' at hstep
      cases hstep with
      | verified hauth => exact hinv.sameAccounts ▸ hauth
    · exact hinv.consume j r now x hj
  · intro j r now x p hj
    rw [hcalls] at hj
    rcases Discipline.getElem?_set_cases hj with ⟨rfl, rfl⟩ | ⟨-, hj⟩
    · generalize a'.db = db' at hstep
      cases hstep with
      | passed hrow hnonce hage =>
        obtain ⟨i, hi⟩ := hissued _ (hinv.issued _ hrow)
        exact ⟨hinv.consume j r now x hk, rfl, i, _, hi, hnonce, hage⟩
    · obtain ⟨hauth, hp, i, row, hi, hrow⟩ := hinv.passed j r now x p hj
      obtain ⟨i', hi'⟩ := hissued row ⟨i, hi⟩
      exact ⟨hauth, hp, i', row, hi', hrow⟩

theorem nonceInv_start (calls : List NonceCall) :
    NonceInv J accounts ⟨⟨accounts, .empty⟩, calls.map NonceCall.start⟩ := by
  have hstart : ∀ (k : ℕ) (pc : NoncePc), (calls.map NonceCall.start)[k]? = some pc →
      ∃ c : NonceCall, c.start = pc := by
    intro k pc hk
    obtain ⟨c, -, hc⟩ := List.mem_map.1 (List.mem_of_getElem? hk)
    exact ⟨c, hc⟩
  constructor
  · rfl
  · exact fun row hrow => absurd hrow Table.not_mem_empty
  · intro nonce
    have hpassed : (calls.map NonceCall.start).countP (NoncePc.hasPassed nonce) = 0 := by
      rw [List.countP_eq_zero]
      intro pc hpc
      obtain ⟨c, -, rfl⟩ := List.mem_map.1 hpc
      cases c <;> simp [NonceCall.start, NoncePc.hasPassed]
    rw [hpassed, present_eq_zero fun row hrow => absurd hrow Table.not_mem_empty]
    exact Nat.zero_le _
  · intro k r now x hk
    obtain ⟨c, hc⟩ := hstart k _ hk
    cases c <;> cases hc
  · intro k r now x p hk
    obtain ⟨c, hc⟩ := hstart k _ hk
    cases c <;> cases hc

/-! ### Every run -/

theorem not_rollsBack_issued {row : AcmeNonce} : ¬ RollsBack (NoncePc.act J) (.issued row) := by
  rintro ⟨pc, run, busy, db, hact, hrun⟩
  cases pc with
  | insert now nonce =>
    cases hact
    simp only [NoncePc.runInsert] at hrun
    split at hrun <;> cases hrun
  | issue | purge | consume =>
    cases hact
    cases hrun
  | _ => cases hact

/-- An account that a `kid` names is the one with this URL, if no two texts have the hash. -/
theorem kid_of_hasKey {r : Post} {x : Authenticated} (h : HasKey J accounts r x) (hmode : r.mode = .kid)
    (hhash : ∀ account ∈ accounts, J.kidHash account.id = some account.kidHash)
    (hinj : ∀ account ∈ accounts, ∀ id, J.kidHash id = J.kidHash account.id → id = account.id) :
    ∃ account ∈ accounts, x.account = some account ∧
      x.jws.header.get? "kid" = some (.str (r.accountUrl ++ account.id)) := by
  rw [HasKey, hmode] at h
  obtain ⟨-, account, hmem, haccount, -, -, id, hkid, -, -, hid⟩ := h
  obtain rfl := hinj account hmem id (hid.trans (hhash account hmem).symm)
  exact ⟨account, hmem, haccount, hkid⟩

/-- The first turn of a request writes nothing; a request that is refused has no other. -/
theorem verify_step {s s' : Sessions NonceDb (Phase NoncePc)} {k : ℕ} {r : Post} {now : ℤ}
    (hl : s.calls[k]? = some (.run (.verify r now)))
    (h : (nonceCalls J).step s (.go k) = some s') :
    s'.committed = s.committed ∧ s'.lock = s.lock ∧
      s'.calls[k]? = some (.run (.ofAuthenticate r now (authenticate J (s.view k).accounts r))) := by
  obtain ⟨l, hl', h⟩ := Option.bind_eq_some_iff.1 h
  obtain rfl := Option.some.inj (hl.symm.trans hl')
  obtain rfl := Option.some.inj h
  exact ⟨rfl, rfl, Sessions.getElem?_set_self hl _⟩

/-- **Authentication and replay.**  In every state of every run of the calls:

* a request that went through is authentic: a flattened JWS with an algorithm of the table that fits
  its key, with the key the route wants, for the URL of the route, and signed over the strings as they
  came; its nonce was handed out, and was not too old when it was spent;
* the account that a `kid` names is the one with this URL, unless two texts have the same hash;
* a nonce has let through at most as many requests as it was handed out;
* the first turn of a request, after which it is refused or its signature has verified, writes
  nothing, and a refused request is over. -/
theorem request_authentication {calls : List NonceCall} {s : Sessions NonceDb (Phase NoncePc)}
    (h : (nonceCalls J).Reachable (nonceStart accounts calls) s) :
    (∀ (k : ℕ) (r : Post) (now : ℤ) (x : Authenticated) (p : Except Raised (Option Json)),
      s.calls[k]? = some (.run (.passed r now x p)) →
      Authentic J accounts r x ∧ p = payload J x.jws.payloadB64 ∧
        (∃ (j : ℕ) (row : AcmeNonce), s.calls[j]? = some (.run (.issued row)) ∧
          row.nonce = x.nonce ∧ nonceCutoff now ≤ row.issuedAt) ∧
        (r.mode = .kid → (∀ account ∈ accounts, J.kidHash account.id = some account.kidHash) →
          (∀ account ∈ accounts, ∀ id, J.kidHash id = J.kidHash account.id → id = account.id) →
          ∃ account ∈ accounts, x.account = some account ∧
            x.jws.header.get? "kid" = some (.str (r.accountUrl ++ account.id)))) ∧
    (∀ nonce, s.calls.countP (Phase.isRun (NoncePc.hasPassed nonce)) ≤
      s.calls.countP (Phase.isRun (NoncePc.hasIssued nonce))) ∧
    (∀ (k : ℕ) (r : Post) (now : ℤ) (s' : Sessions NonceDb (Phase NoncePc)),
      s.calls[k]? = some (.run (.verify r now)) → (nonceCalls J).step s (.go k) = some s' →
      s'.committed = s.committed ∧ s'.lock = s.lock ∧
        s'.calls[k]? = some (.run (.ofAuthenticate r now (authenticate J (s.view k).accounts r)))) ∧
    ∀ (r : Post) (e : Raised), Phase.next (NoncePc.act J) (.run (.refused r e)) = .done := by
  have hreach : (nonceCalls J).Reach (Sessions.Heeds fun _ _ => True) (nonceStart accounts calls) s :=
    h.mono fun _ t _ => Sessions.heeds_true t
  obtain ⟨a, ha, hsim⟩ := exists_atomic hreach
  have hinv : NonceInv J accounts a :=
    ha.invariant (nonceInv_start calls) fun _ _ _ hinv _ hstep => hinv.step hstep
  refine ⟨fun k r now x p hl => ?_, fun nonce => ?_, fun k r now s' hl hstep => verify_step hl hstep,
    fun _ _ => rfl⟩
  · obtain ⟨hauth, hp, j, row, hj, hnonce, hage⟩ := hinv.passed k r now x p (hsim.run hl)
    have hspec := authenticate_spec hauth
    refine ⟨hspec, hp, ⟨j, row, ?_, hnonce, hage⟩, kid_of_hasKey hspec.key⟩
    exact (hsim.of_done hj rfl).resolve_right fun hback => not_rollsBack_issued hback.2
  · have hissued : ∀ pc : NoncePc, pc.hasIssued nonce = true →
        pc.act J = .done ∧ ¬ RollsBack (NoncePc.act J) pc := by
      intro pc hpc
      cases pc with
      | issued row => exact ⟨rfl, not_rollsBack_issued⟩
      | _ => cases hpc
    calc s.calls.countP (Phase.isRun (NoncePc.hasPassed nonce))
        ≤ a.calls.countP (NoncePc.hasPassed nonce) := hsim.countP_le _
      _ ≤ a.calls.countP (NoncePc.hasIssued nonce) := (Nat.le_add_right _ _).trans (hinv.count nonce)
      _ ≤ s.calls.countP (Phase.isRun (NoncePc.hasIssued nonce)) := hsim.le_countP _ hissued

/-! ### A run -/

/-- A long text: its pieces, one after the other. -/
def joined (l : List String) : Str := l.flatMap Str.of

/-- The bytes of an ASCII text. -/
def ascii (s : Str) : Bytes := s.map UInt8.ofNat

/-- An Ed25519 public key. -/
def sampleX : Str := joined ["11qYAYKxCrfVS_7TyWQHOg", "7hcvPapiMlrwIaaPcHURo"]

/-- A protected header with that key. -/
def sampleHeader : Json :=
  .obj [(Str.of "alg", .str (Str.of "EdDSA")),
    (Str.of "jwk", .obj [(Str.of "crv", .str (Str.of "Ed25519")), (Str.of "kty", .str (Str.of "OKP")),
      (Str.of "x", .str sampleX)]),
    (Str.of "nonce", .str (Str.of "n1")), (Str.of "url", .str (Str.of "u"))]

/-- The header as text. -/
def sampleHeaderText : Str :=
  joined ["\x7b\"alg\":\"EdDSA\",", "\"jwk\":\x7b\"crv\":", "\"Ed25519\",\"kty\":", "\"OKP\",\"x\":\""] ++
    sampleX ++ joined ["\"\x7d,\"nonce\":\"n1\"", ",\"url\":\"u\"\x7d"]

/-- The text in base64url. -/
def sampleProtected : Str :=
  joined ["eyJhbGciOiJFZERTQSIsIm", "p3ayI6eyJjcnYiOiJFZDI1", "NTE5Iiwia3R5IjoiT0tQIi",
    "wieCI6IjExcVlBWUt4Q3Jm", "VlNfN1R5V1FIT2c3aGN2UG", "FwaU1scndJYWFQY0hVUm8i",
    "fSwibm9uY2UiOiJuMSIsIn", "VybCI6InUifQ"]

/-- The signature of the header with an empty payload. -/
def sampleSignature : Str :=
  joined ["Ty-t260Zilg0jn1pVC53fW", "s1DHWbhm7HxFKTlacbqSWy", "Enw88t3ZVjM257OcDjriVv",
    "EQTEeDQscW3xb6BR-jBg"]

/-- The signature as bytes. -/
def sampleSignatureBytes : Bytes :=
  [79, 47, 173, 219, 173, 25, 138, 88, 52, 142, 125, 105, 84, 46, 119, 125, 107, 53, 12, 117, 155,
    134, 110, 199, 196, 82, 147, 149, 167, 27, 169, 37, 178, 18, 124, 60, 242, 221, 217, 86, 51, 54,
    231, 179, 156, 14, 58, 226, 86, 241, 16, 76, 71, 131, 66, 199, 22, 223, 22, 250, 5, 31, 163, 6]

/-- The key as bytes. -/
def sampleKeyBytes : Bytes :=
  [215, 90, 152, 1, 130, 177, 10, 183, 213, 75, 254, 211, 201, 100, 7, 58, 14, 225, 114, 243, 218,
    166, 35, 37, 175, 2, 26, 104, 247, 7, 81, 26]

/-- The body as text. -/
def sampleBody : Str :=
  Str.of "\x7b\"protected\":\"" ++ sampleProtected ++ Str.of "\",\"payload\":\"\"," ++
    Str.of "\"signature\":\"" ++ sampleSignature ++ Str.of "\"\x7d"

/-- The parsers, encodings and keys on these texts. -/
def Jose.sample : Jose where
  loads raw :=
    if raw = ascii sampleBody then
      .ok (.obj [(Str.of "protected", .str sampleProtected), (Str.of "payload", .str []),
        (Str.of "signature", .str sampleSignature)])
    else if raw = ascii sampleHeaderText then .ok sampleHeader
    else .error .value
  urlsafeB64decode s :=
    if s = sampleProtected ++ Str.of "==" then some (ascii sampleHeaderText)
    else if s = sampleSignature ++ Str.of "==" then some sampleSignatureBytes
    else if s = sampleX ++ Str.of "=" then some sampleKeyBytes
    else none
  urlsafeB64encode raw := if raw = sampleKeyBytes then sampleX else []
  ed25519 raw := if raw.length = 32 then .ok raw else .error "An Ed25519 public key is 32 bytes long"
  jwkFromJson _ := .error "Deserialization error"
  jwkFromJson_kty := kty_of_notParsed
  okpThumbprint _ := joined ["kPrK_qmxVWaYVA9wwBF6Iu", "o3vVzz7TxHCTwXBygrS4k"]
  kidHash _ := none
  verify _ key input signature :=
    key == .ed25519 sampleKeyBytes && input == ascii (sampleProtected ++ Str.of ".") &&
      signature == sampleSignatureBytes

/-- The request. -/
def samplePost : Post := ⟨ascii sampleBody, Str.of "u", .jwk, Str.of "a/"⟩

/-- A nonce is handed out, and a request with it comes in twice. -/
def replayed : List NonceCall :=
  [.issue (Instant.days 20000) (Str.of "n1"), .verify samplePost (Instant.days 20000),
    .verify samplePost (Instant.days 20000)]

/-- Both requests have verified before the first of them spends the nonce. -/
def replaysMeet : List Turn := [0, 0, 0, 0, 1, 2, 1, 1, 2, 2].map Turn.go

/-- In this run one of the two requests goes through. -/
theorem request_authentication_replaysMeet :
    ∃ s, (nonceCalls .sample).Reachable (nonceStart .empty replayed) s ∧
      (∃ (r : Post) (x : Authenticated), Authentic .sample .empty r x ∧ x.nonce = Str.of "n1") ∧
      s.calls.countP (Phase.isRun (NoncePc.hasPassed (Str.of "n1"))) = 1 := by
  have h : (nonceCalls .sample).Reachable (nonceStart .empty replayed) _ :=
    Machine.reachable_final _ replaysMeet
  obtain ⟨hpassed, -⟩ := request_authentication h
  have hcount : ((nonceCalls .sample).final (nonceStart .empty replayed) replaysMeet).calls.countP
      (Phase.isRun (NoncePc.hasPassed (Str.of "n1"))) = 1 := by decide +kernel
  obtain ⟨l, hl, hp⟩ := List.countP_pos_iff.1 (by rw [hcount]; decide : 0 < _)
  obtain ⟨k, hk⟩ := List.getElem?_of_mem hl
  refine ⟨_, h, ?_, hcount⟩
  cases l with
  | run pc =>
    cases pc with
    | passed r now x p => exact ⟨r, x, (hpassed k r now x p hk).1, beq_iff_eq.1 hp⟩
    | _ => cases hp
  | commit | rollback => cases hp

end Acme

end Cabin
