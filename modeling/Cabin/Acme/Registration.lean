import Cabin.Ca.Retired
import Cabin.Acme.AccountSteps

/-!
# Which issuer an account is for

New-account at one issuer's directory does not answer with an account of another.  The refusal
(`rejectOtherIssuer`) stands where the account is found at the first look; an account that another
request creates after that is found by `get_or_create_account`, or read back after a refused insertion,
and is answered with as it is.

* `no_cross_issuer_registration` : the answers are for the right issuer in every run in which the
  later looks find no account of another issuer (`SameIssuer`), and the issuer of an account never
  changes;
* `cross_issuer_answer` : a run in which an answer is for the wrong one.
-/

namespace Cabin

namespace Acme

open AccountDb AccountPlace

/-! ### The issuer of an answer -/

/-- The account a call at new-account goes on with is for its issuer. -/
def RightIssuer {J : Jose} : AccountRequest J → AccountPlace → Prop
  | .newAccount issuerId _ _, .reload _ a | .newAccount issuerId _ _, .bind _ a _
  | .newAccount issuerId _ _, .discard a | .newAccount issuerId _ _, .answered _ a =>
    a.issuerId = issuerId
  | _, _ => True

/-- An account with the key that `get_or_create_account` finds, or reads back, is for the issuer of the
request. -/
def SameIssuer {J : Jose} (db : AccountDb) (r : AccountRequest J) (p : AccountPlace) : Prop :=
  match r, p with
  | .newAccount issuerId _ _, .getOrCreate form | .newAccount issuerId _ _, .readBack form =>
    ∀ a ∈ db.findAccountByKey form.key.thumbprint, a.issuerId = issuerId
  | _, _ => True

instance {J : Jose} (db : AccountDb) (r : AccountRequest J) (p : AccountPlace) :
    Decidable (SameIssuer db r p) := by
  unfold SameIssuer
  split <;> infer_instance

theorem rightIssuer_ofAccount {J : Jose} {issuerId : ℕ}
    {verified : Except Raised (LoadedKey J × Option NewAccountPayload)} {newId : NewId J}
    {account : AcmeAccount} (binding : Option AcmeEabKey) (isNew : Bool)
    (h : account.issuerId = issuerId) :
    RightIssuer (.newAccount issuerId verified newId) (ofAccount binding account isNew) := by
  unfold ofAccount
  cases binding with
  | none => exact h
  | some b =>
    dsimp only
    split_ifs <;> exact h

theorem rightIssuer_raised {J : Jose} (r : AccountRequest J) (e : Raised) :
    RightIssuer r (.raised e) := by
  cases r <;> trivial

/-- **Every look and every write leaves a call with an account of its issuer.** -/
theorem maintains_rightIssuer (K : Keyring) :
    MaintainsEach (AccountPlace.act K) SameIssuer (fun _ => True) fun _ => RightIssuer where
  select {db r p f} hact hC _ hG := by
    have hlook := accountLook_of_select hact db
    generalize f db = p' at hlook ⊢
    cases hlook with
    | other => exact rightIssuer_raised _ _
    | found _ _ hissuer => exact hissuer
    | raced hfound => exact rightIssuer_ofAccount _ _ (hC _ hfound)
    | winner hfound | expired hfound => exact hC _ hfound
    | reloaded => exact rightIssuer_ofAccount _ _ hG
    | same | changing => cases r <;> trivial
    | _ => trivial
  write {db db' r p p' run busy} hact hrun _ _ hG := by
    refine ⟨trivial, ?_, fun _ _ h => h⟩
    cases accountWrite_of_run hact hrun with
    | inserted => exact rightIssuer_ofAccount _ _ rfl
    | bound => exact hG
    | lost =>
      split_ifs
      · exact hG
      · trivial
    | discarded | revoked => trivial
    | deactivated | contacts | rotated =>
      cases r with
      | newAccount => cases hact
      | _ => trivial
  refused {db r p p' run busy} hact hrun _ _ _ := by
    cases accountRefusal_of_run hact hrun with
    | insert | bind | discard => trivial
    | deactivate | setContacts | stale | taken => cases r <;> trivial

/-! ### Runs -/

section runs

variable {K : Keyring} {db : AccountDb} {requests : List (AccountRequest K.toJose)}
  {s : Sessions AccountDb (Phase (AccountRequest K.toJose × AccountPlace))}

/-- **No registration across issuers, as long as the later looks of new-account find no account of
another issuer.**  In every run of requests on accounts whose steps meet `SameIssuer`, a request at
the directory of an issuer is answered with an account of this issuer; and from there on, in any run
during which an account is not deleted, its issuer does not change. -/
theorem no_cross_issuer_registration
    (h : (accountCalls K).Reach (Sessions.Heeds fun db c => SameIssuer db c.1 c.2)
      (accountStart db requests) s) :
    (∀ (k issuerId : ℕ) (verified : Except Raised (LoadedKey K.toJose × Option NewAccountPayload))
      (newId : NewId K.toJose) (status : ℕ) (account : AcmeAccount),
      s.calls[k]? = some (.run (.newAccount issuerId verified newId, .answered status account)) →
      account.issuerId = issuerId) ∧
    ∀ (id : Str) (s' : Sessions AccountDb (Phase (AccountRequest K.toJose × AccountPlace))),
      (accountCalls K).Reach (fun x _ => x.committed.HasAccount id) s s' →
      ∀ a ∈ s.committed.accounts, ∀ a' ∈ s'.committed.accounts, a.id = id → a'.id = id →
        a'.issuerId = a.issuerId := by
  constructor
  · intro k issuerId verified newId status account hk
    have hbusy : ∀ (db : AccountDb) (r : AccountRequest K.toJose) (p : AccountPlace) run busy,
        AccountPlace.act K r p = .write run busy → True → RightIssuer r p → RightIssuer r busy := by
      intro db r p run busy hact _ _
      rw [(accountWrite_cases db hact).1]
      cases r <;> trivial
    have hstart : ∀ c ∈ requests.map fun r => (r, AccountPlace.start), RightIssuer c.1 c.2 := by
      intro c hc
      obtain ⟨r, -, rfl⟩ := List.mem_map.1 hc
      cases r <;> trivial
    exact (((maintains_rightIssuer K).maintains hbusy).reach h trivial hstart).2 k _ hk
  · intro id s' h' a ha a' ha' hid hid'
    obtain ⟨x, -, hsim⟩ := exists_atomic (h.mono fun _ t _ => Sessions.heeds_true t)
    exact (became_of_reach ⟨x, hsim⟩ h' ha hid ha' hid').issuerId

end runs

/-! ### Two directories -/

/-- Two hierarchies with an issuer each, and no account. -/
def twoDirectories : AccountDb :=
  ⟨(hierarchy .transparent).final .empty (retireFirst.take 4), false, sampleOrigin, .empty, .empty⟩

/-- A registration without an external account binding. -/
def registerAt (issuerId : ℕ) (newId : NewId Keyring.sample.toJose) :
    AccountRequest Keyring.sample.toJose :=
  .newAccount issuerId (.ok (sampleKey, some ⟨false, none, none⟩)) newId

/-- One key is registered at both. -/
def atBoth : List (AccountRequest Keyring.sample.toJose) :=
  [registerAt 2 sampleNewId, registerAt 4 otherNewId]

/-- The issuer of a request that has been answered, and that of the account. -/
def issuers? : Phase (AccountRequest Keyring.sample.toJose × AccountPlace) → Option (ℕ × ℕ)
  | .run (.newAccount issuerId _ _, .answered _ account) => some (issuerId, account.issuerId)
  | _ => none

theorem issuers?_eq_some {l : Phase (AccountRequest Keyring.sample.toJose × AccountPlace)} {i j : ℕ}
    (h : issuers? l = some (i, j)) : ∃ verified newId status account,
      l = .run (.newAccount i verified newId, .answered status account) ∧ account.issuerId = j := by
  unfold issuers? at h
  split at h
  · cases h
    exact ⟨_, _, _, _, rfl, rfl⟩
  · cases h

/-- The turns of one request after the other. -/
def oneAfterTheOther : List Turn := [0, 0, 0, 0, 0, 0, 1, 1].map Turn.go

/-- One request after the other: the first is answered with an account of its issuer, the second is
refused. -/
theorem no_cross_issuer_registration_oneAfterTheOther :
    ∃ s, (accountCalls .sample).Reach (Sessions.Heeds fun db c => SameIssuer db c.1 c.2)
        (accountStart twoDirectories atBoth) s ∧
      s.finished (tagged (AccountPlace.act .sample)) = true ∧
      ∃ (verified : Except Raised (LoadedKey Keyring.sample.toJose × Option NewAccountPayload))
        (newId : NewId Keyring.sample.toJose) (status : ℕ) (account : AcmeAccount),
        s.calls[0]? = some (.run (.newAccount 2 verified newId, .answered status account)) ∧
        account.issuerId = 2 := by
  have h : (accountCalls .sample).Reach (Sessions.Heeds fun db c => SameIssuer db c.1 c.2)
      (accountStart twoDirectories atBoth) _ :=
    Machine.reach_final _ oneAfterTheOther (by decide +kernel)
  have hissuers : ((accountCalls .sample).final (accountStart twoDirectories atBoth)
      oneAfterTheOther).calls[0]?.bind issuers? = some (2, 2) := by decide +kernel
  obtain ⟨l, hl, hl'⟩ := Option.bind_eq_some_iff.1 hissuers
  obtain ⟨verified, newId, status, account, rfl, -⟩ := issuers?_eq_some hl'
  refine ⟨_, h, by decide +kernel, verified, newId, status, account, hl, ?_⟩
  exact (no_cross_issuer_registration h).1 0 2 verified newId status account hl

/-- The turns of two requests that have both looked for the account before it is created. -/
def bothLookFirst : List Turn := [1, 1, 0, 0, 0, 0, 0, 0, 1, 1].map Turn.go

/-- The second request is answered with the account of the first. -/
theorem cross_issuer_answer :
    ¬ ∀ s, (accountCalls .sample).Reachable (accountStart twoDirectories atBoth) s →
      ∀ (k issuerId : ℕ)
        (verified : Except Raised (LoadedKey Keyring.sample.toJose × Option NewAccountPayload))
        (newId : NewId Keyring.sample.toJose) (status : ℕ) (account : AcmeAccount),
        s.calls[k]? = some (.run (.newAccount issuerId verified newId, .answered status account)) →
        account.issuerId = issuerId := by
  intro hall
  have h : (accountCalls .sample).Reachable (accountStart twoDirectories atBoth) _ :=
    Machine.reachable_final _ bothLookFirst
  have hissuers : ((accountCalls .sample).final (accountStart twoDirectories atBoth)
      bothLookFirst).calls[1]?.bind issuers? = some (4, 2) := by decide +kernel
  obtain ⟨l, hl, hl'⟩ := Option.bind_eq_some_iff.1 hissuers
  obtain ⟨verified, newId, status, account, rfl, hissuer⟩ := issuers?_eq_some hl'
  have hwrong := hall _ h 1 4 verified newId status account hl
  omega

end Acme

end Cabin
