import Cabin.Acme.Issuance
import Cabin.Acme.Validation

/-!
# Proof of control

Over every run of the calls, what a certificate was issued for was proven by the methods themselves: at each
identifier of the order something was shown, in the one attempt at a challenge, that only the holder of the
account key could show.

A challenge has at most one attempt, so `world` tells for each challenge what happens around it, and the condition
`Attempts` says that the outcome of a task is what its method makes of that.

* `Shown` and `Witnessed` are the invariant;
* `provenDiscipline` is the argument about all orders of turns;
* `issued_with_proof` is the result.
-/

namespace Cabin

namespace Acme

open X509 Validation

/-- Two rows are the same challenge. -/
structure AcmeChallenge.Same (c c' : AcmeChallenge) : Prop where
  id : c'.id = c.id
  authzId : c'.authzId = c.authzId
  type : c'.type = c.type
  token : c'.token = c.token

theorem AcmeChallenge.Same.refl (c : AcmeChallenge) : c.Same c := ⟨rfl, rfl, rfl, rfl⟩

/-- The challenge that the call is about to make valid. -/
def Pc.accepted? : Pc → Option Str
  | .record challengeId _ (.success _) => some challengeId
  | _ => none

/-- The task that begins, and its outcome. -/
def Call.attempt? : Call → Option (Str × Outcome)
  | .run (.validate challengeId outcome) => some (challengeId, outcome)
  | _ => none

section statements

variable (L : Libraries) (world : Str → World)

/-- The outcome of a task is what the method makes of the rows it sees. -/
def Attempts (db : AcmeDb) (l : Call) : Prop :=
  ∀ task ∈ l.attempt?, ∀ c ∈ db.challenges.get? task.1, ∀ authz ∈ db.authorizations.get? c.authzId,
    task.2 = conclude L (world task.1) c authz (Validation.accountOf db authz)

instance (db : AcmeDb) (l : Call) : Decidable (Attempts L world db l) :=
  inferInstanceAs (Decidable (∀ task ∈ l.attempt?, ∀ c ∈ db.challenges.get? task.1,
    ∀ authz ∈ db.authorizations.get? c.authzId,
      task.2 = conclude L (world task.1) c authz (Validation.accountOf db authz)))

/-- What the challenge asks for was shown, for the key of the account that placed the order. -/
def Shown (db : AcmeDb) (c : AcmeChallenge) : Prop :=
  ∃ authz ∈ db.authorizations, authz.id = c.authzId ∧ ∃ o ∈ db.orders, o.id = authz.orderId ∧
    ∃ account ∈ db.accounts, account.id = o.accountId ∧
      ∃ a, attempt (world c.id) c authz (some account) = .ok a ∧ Shows L (world c.id) a c.type

/-- Every valid challenge was shown. -/
def Witnessed (db : AcmeDb) : Prop := ∀ c ∈ db.challenges, c.status = .valid → Shown L world db c

/-- What a call relies on, and that it makes no challenge valid that was not shown. -/
structure GoodProof (E : Crypto) (db : AcmeDb) (h : Option AcmeDb) (l : Call) : Prop where
  good : Good E db h l
  committed : Witnessed L world db
  held : ∀ w ∈ h, Witnessed L world w
  accepted : ∀ id ∈ l.pc.accepted?, ∃ c ∈ db.challenges, c.id = id ∧ Shown L world db c

end statements

/-! ### What identifies a proof -/

variable {L : Libraries} {world : Str → World} {E : Crypto} {db db' : AcmeDb} {pc pc' : Pc} {c c' : AcmeChallenge}

/-- The key of an account does not change. -/
theorem thumbprint_of_change (hc : Change E db pc db') {a : AcmeAccount} (ha : a ∈ db.accounts) :
    ∃ a' ∈ db'.accounts, a'.id = a.id ∧ a'.jwkThumbprint = a.jwkThumbprint := by
  cases hc with
  | newOrder _ _ _ h =>
    obtain ⟨order, -, -, -, -, -, -, hgrown, -⟩ := createOrder_spec h
    exact ⟨a, hgrown.accounts ▸ ha, rfl, rfl⟩
  | @record challengeId authz outcome h => exact ⟨a, by cases outcome <;> exact ha, rfl, rfl⟩
  | deactivate =>
    refine ⟨_, mem_deactivateAccount.2 ⟨a, ha, rfl⟩, ?_⟩
    split_ifs <;> exact ⟨rfl, rfl⟩
  | _ => exact ⟨a, ha, rfl, rfl⟩

/-- Neither does the token of a challenge. -/
theorem token_of_change (hc : Change E db pc db') (hmem : c ∈ db.challenges) :
    ∃ c' ∈ db'.challenges, c.Same c' := by
  cases hc with
  | newOrder _ _ _ h =>
    obtain ⟨order, -, -, -, -, -, -, hgrown, -⟩ := createOrder_spec h
    exact ⟨c, hgrown.challenges c hmem, .refl c⟩
  | beginChallenge h =>
    refine ⟨_, mem_claimChallenge.2 ⟨c, hmem, rfl⟩, ?_⟩
    split_ifs <;> exact ⟨rfl, rfl, rfl, rfl⟩
  | @record challengeId authz outcome h =>
    cases outcome with
    | success now =>
      refine ⟨_, mem_recordChallengeSuccess.2 ⟨c, hmem, rfl⟩, ?_⟩
      split_ifs <;> exact ⟨rfl, rfl, rfl, rfl⟩
    | refused | crashed =>
      refine ⟨_, mem_recordChallengeFailure.2 ⟨c, hmem, rfl⟩, ?_⟩
      split_ifs <;> exact ⟨rfl, rfl, rfl, rfl⟩
  | _ => exact ⟨c, hmem, .refl c⟩

/-- What is in an attempt. -/
theorem attempt_congr {w : World} {authz authz' : AcmeAuthorization} {account account' : AcmeAccount}
    (htoken : c'.token = c.token) (htype : authz'.identifierType = authz.identifierType)
    (hvalue : authz'.identifierValue = authz.identifierValue)
    (hthumbprint : account'.jwkThumbprint = account.jwkThumbprint) :
    attempt w c' authz' (some account') = attempt w c authz (some account) := by
  simp only [attempt, htoken, htype, hvalue, hthumbprint]

/-- What was shown stays shown. -/
theorem shown_of_change (hc : Change E db pc db') (hsame : c.Same c') (h : Shown L world db c) :
    Shown L world db' c' := by
  obtain ⟨authz, hauthz, hauthzId, o, ho, hoid, account, haccount, haccountId, a, ha, hshows⟩ := h
  have hext := extends_of_change hc
  obtain ⟨authz', hauthz', hid, hcovers, -⟩ := hext.authorization authz hauthz
  obtain ⟨o', ho', hoid', howner, -⟩ := hext.order o ho
  obtain ⟨account', haccount', haccountId', hthumbprint⟩ := thumbprint_of_change hc haccount
  refine ⟨authz', hauthz', by rw [hid, hauthzId, hsame.authzId], o', ho', by rw [hoid', hoid, hcovers.orderId],
    account', haccount', by rw [haccountId', haccountId, howner], a, ?_, ?_⟩
  · rw [hsame.id, attempt_congr hsame.token hcovers.identifierType hcovers.identifierValue hthumbprint, ha]
  · rwa [hsame.id, hsame.type]

/-! ### Writes -/

section writes

variable {run : AcmeDb → AcmeDb × Call} {busy : Call}

/-- A challenge is valid after a write if it was, or if it is the one the call has recorded. -/
theorem valid_of_write (hn : pc.stmt E = .write run busy) (hmem : c' ∈ (run db).1.challenges)
    (hvalid : c'.status = .valid) :
    ∃ c ∈ db.challenges, c.Same c' ∧ (c.status = .valid ∨ pc.accepted? = some c.id) := by
  cases pc with
  | createOrder accountId is notBefore notAfter moment draw =>
    cases hn
    simp only [Pc.runCreateOrder] at hmem
    split at hmem
    · rename_i db' hnew
      obtain ⟨order, -, -, -, -, -, -, hgrown, -⟩ := createOrder_spec hnew
      rcases hgrown.newChallenge c' hmem with hold | ⟨huntried, -⟩
      · exact ⟨c', hold, .refl c', .inl hvalid⟩
      · rw [huntried.status] at hvalid
        cases hvalid
    · exact ⟨c', hmem, .refl c', .inl hvalid⟩
  | beginChallenge challengeId outcome =>
    cases hn
    obtain ⟨c, hc, rfl⟩ := mem_claimChallenge.1 hmem
    -- The one that is begun is processing, so it is another.
    split_ifs at hvalid ⊢
    exact ⟨c, hc, .refl c, .inl hvalid⟩
  | record challengeId authz outcome =>
    cases hn
    cases outcome with
    | success now =>
      obtain ⟨c, hc, rfl⟩ := mem_recordChallengeSuccess.1 hmem
      -- The one that is recorded, or another, which stays.
      split_ifs at hvalid ⊢ with hid
      · exact ⟨c, hc, ⟨rfl, rfl, rfl, rfl⟩, .inr (congrArg some hid.symm)⟩
      · exact ⟨c, hc, .refl c, .inl hvalid⟩
    | refused | crashed =>
      obtain ⟨c, hc, rfl⟩ := mem_recordChallengeFailure.1 hmem
      split_ifs at hvalid ⊢
      exact ⟨c, hc, .refl c, .inl hvalid⟩
  | issue d account order der =>
    cases hn
    simp only [Pc.runIssue] at hmem
    split at hmem <;> exact ⟨c', hmem, .refl c', .inl hvalid⟩
  | claim | release | attach | deactivate | authority =>
    cases hn
    exact ⟨c', hmem, .refl c', .inl hvalid⟩
  | _ => cases hn

/-- A write is a change that is committed, or it is taken back. -/
theorem change_of_write (hinv : Inv db) (h : GoodAt db pc) (hn : pc.stmt E = .write run busy) :
    (∃ pc', Change E db pc' (run db).1) ∨ (run db).1 = db := by
  have hgood := (good_write hinv h hn).1
  cases hcall : (run db).2 with
  | run pc' =>
    rw [hcall] at hgood
    cases hgood.2.1
  | commit pc' =>
    rw [hcall] at hgood
    obtain ⟨-, w, hw, hc, -⟩ := hgood
    obtain rfl := Option.some.inj hw
    exact .inl ⟨pc', hc⟩
  | rollback pc' =>
    right
    cases pc with
    | createOrder =>
      cases hn
      simp only [Pc.runCreateOrder] at hcall ⊢
      split at hcall
      · cases hcall
      · rfl
    | issue =>
      cases hn
      simp only [Pc.runIssue] at hcall ⊢
      split at hcall
      · cases hcall
      · rfl
    | beginChallenge | record | claim | release | attach | deactivate | authority =>
      cases hn
      cases hcall
    | _ => cases hn

/-- A call that has written, or has given up, has nothing to record. -/
theorem accepted?_of_write (hn : pc.stmt E = .write run busy) :
    (∀ db, (run db).2.pc.accepted? = none) ∧ busy.pc.accepted? = none := by
  cases pc with
  | createOrder =>
    cases hn
    refine ⟨fun db => ?_, rfl⟩
    unfold Pc.runCreateOrder
    split <;> rfl
  | beginChallenge | claim =>
    cases hn
    refine ⟨fun db => ?_, rfl⟩
    simp only [Pc.runBegin, Pc.runClaim]
    split_ifs <;> rfl
  | issue =>
    cases hn
    refine ⟨fun db => ?_, rfl⟩
    unfold Pc.runIssue
    split <;> rfl
  | record | release | attach | deactivate | authority =>
    cases hn
    exact ⟨fun _ => rfl, rfl⟩
  | _ => cases hn

end writes

theorem accepted?_of_free (h : pc.Free) : pc.accepted? = none := by
  obtain ⟨htask, -⟩ := h
  cases pc with
  | record => cases htask
  | _ => rfl

/-! ### The argument -/

section discipline

variable {h : Option AcmeDb}

/-- A task whose attempt went well has been shown what its challenge asks for. -/
theorem accepted_of_select {f : AcmeDb → Call} (hinv : Inv db) (hgood : GoodAt db pc) (hn : pc.stmt E = .select f)
    (hC : Attempts L world db (.run pc)) : ∀ id ∈ (f db).pc.accepted?, ∃ c ∈ db.challenges, c.id = id ∧ Shown L world db c := by
  intro id hid
  cases pc with
  | request d accountId r =>
    cases hn
    cases hget : db.accounts.get? accountId with
    | none => simp [Call.pc, Pc.ofAccount, hget, Pc.accepted?] at hid
    | some account =>
      simp only [Call.pc, Pc.ofAccount, hget] at hid
      split_ifs at hid <;> cases hid
  | verified d account r =>
    cases hn
    simp only [Call.pc, Pc.orRaise] at hid
    split at hid
    · rename_i pc' hroute
      rw [accepted?_of_free (route_cases hroute hgood).1] at hid
      cases hid
    · cases hid
  | validate challengeId outcome =>
    cases hn
    obtain ⟨authz, hrecord, hprocessing⟩ : ∃ authz, Pc.ofChallenge challengeId outcome db =
        .record challengeId authz outcome ∧ GoodAt db (.record challengeId authz outcome) :=
      goodAt_ofChallenge hinv hgood
    simp only [Call.pc, hrecord] at hid
    obtain ⟨c, hc, rfl, hstatus, hauthzId⟩ := hprocessing
    have hget : db.challenges.get? c.id = some c := Table.get?_key hc
    obtain ⟨x, hx, hproves, -⟩ := hinv.authorization c hc
    obtain ⟨o, ho, hoid⟩ := hinv.order x hx
    have hxget : db.authorizations.get? c.authzId = some x := Table.get?_eq_some.2 ⟨hx, hproves.authzId.symm⟩
    have houtcome := hC _ rfl c hget x hxget
    cases outcome with
    | success now =>
      obtain rfl := Option.some.inj hid
      obtain ⟨account, a, haccount, ha, hshows⟩ := shows_of_conclude houtcome.symm
      have hoget : db.orders.get? x.orderId = some o := Table.get?_eq_some.2 ⟨ho, hoid⟩
      rw [Validation.accountOf, hoget, Option.bind_some] at haccount
      obtain ⟨hmem, haccountId⟩ := Table.get?_eq_some.1 haccount
      exact ⟨c, hc, rfl, x, hx, hproves.authzId.symm, o, ho, hoid, account, hmem, haccountId, a, ha, hshows⟩
    | refused | crashed => cases hid
  | _ => cases hn

/-- After a write every valid challenge was shown, still. -/
theorem witnessed_of_write {run : AcmeDb → AcmeDb × Call} {busy : Call} (hl : GoodProof L world E db h (.run pc))
    (hn : pc.stmt E = .write run busy) : Witnessed L world (run db).1 := by
  obtain ⟨⟨hinv, -, hgood⟩, hcommitted, -, haccepted⟩ := hl
  rcases change_of_write hinv hgood hn with ⟨pc', hchange⟩ | hsame
  · intro c' hc' hvalid
    obtain ⟨c, hc, hsame, hfrom⟩ := valid_of_write hn hc' hvalid
    refine shown_of_change hchange hsame ?_
    -- It was valid before, or it is the one that this call was shown.
    rcases hfrom with hfrom | hfrom
    · exact hcommitted c hc hfrom
    · obtain ⟨x, hx, hid, hshown⟩ := haccepted c.id hfrom
      rwa [← Table.eq_of_key hx hc hid]
  · rwa [hsame]

theorem GoodProof.ofAcme {l : Call} (hl : GoodProof L world E db h l) : (acmeDiscipline E).Good db h l := hl.good

/-- **The calls of the ACME server** make no challenge valid that was not shown. -/
def provenDiscipline (L : Libraries) (world : Str → World) (E : Crypto) :
    Discipline (Call.next E) (Attempts L world) where
  Good := GoodProof L world E
  Apart := Call.Apart
  Commits db db' := (∃ pc, Change E db pc db') ∧ Witnessed L world db'
  symm := Call.Apart.symm
  stable hl hm hapart hn := by
    have hstable := (acmeDiscipline E).stable hl.ofAcme hm.ofAcme hapart hn
    obtain ⟨pc, rfl, -⟩ := next_eq_commit hn
    obtain ⟨-, w, hw, hc, -⟩ := hm.good
    obtain rfl := Option.some.inj hw
    -- Another call commits: what this one was shown stays shown.
    refine ⟨hstable, hm.held _ rfl, nofun, fun id hid => ?_⟩
    obtain ⟨c, hmem, hcid, hshown⟩ := hl.accepted id hid
    obtain ⟨c', hmem', hsame⟩ := token_of_change hc hmem
    exact ⟨c', hmem', hsame.id.trans hcid, shown_of_change hc hsame hshown⟩
  select hl hn hC := by
    have hselect := (acmeDiscipline E).select hl.ofAcme hn trivial
    obtain ⟨pc, rfl, hstmt⟩ := next_eq_select hn
    refine ⟨hselect, hl.committed, hl.held, ?_⟩
    obtain ⟨hinv, rfl, hgood⟩ := hl.good
    exact accepted_of_select hinv hgood hstmt hC
  write hl hn _ := by
    have hwrite := (acmeDiscipline E).write hl.ofAcme hn trivial
    obtain ⟨pc, rfl, hstmt⟩ := next_eq_write hn
    refine ⟨hwrite, hl.committed, ?_, ?_⟩
    · rintro w ⟨⟩
      obtain ⟨-, rfl, -⟩ := hl.good
      exact witnessed_of_write hl hstmt
    · rw [(accepted?_of_write hstmt).1 _]
      nofun
  giveUp hl hn := by
    have hgiveUp := (acmeDiscipline E).giveUp hl.ofAcme hn
    obtain ⟨pc, rfl, hstmt⟩ := next_eq_write hn
    refine ⟨hgiveUp, hl.committed, nofun, ?_⟩
    rw [(accepted?_of_write hstmt).2]
    nofun
  commit hl hn _ := by
    obtain ⟨pc, rfl, rfl⟩ := next_eq_commit hn
    obtain ⟨hinv, w, hw, hc, hgood⟩ := hl.good
    obtain rfl := Option.some.inj hw
    refine ⟨⟨⟨pc, hc⟩, hl.held _ rfl⟩, ⟨hinv.of_change hc, rfl, hgood⟩, hl.held _ rfl, nofun, fun id hid => ?_⟩
    cases hc <;> cases hid
  commitNone hl hn := by
    obtain ⟨pc, rfl, -⟩ := next_eq_commit hn
    obtain ⟨-, w, hw, -⟩ := hl.good
    cases hw
  rollback hl hn := by
    have hgood := (acmeDiscipline E).rollback hl.ofAcme hn
    obtain ⟨pc, rfl, rfl⟩ := next_eq_rollback hn
    exact ⟨hgood, hl.committed, nofun, hl.accepted⟩
  apart hl hm hapart hmove := (acmeDiscipline E).apart hl.ofAcme hm.ofAcme hapart hmove
  apartWrite hl hm hapart hn := (acmeDiscipline E).apartWrite hl.ofAcme hm.ofAcme hapart hn

end discipline

/-! ### Every run -/

section runs

variable {ca : Db} {accounts : Table AcmeAccount} {calls : List Incoming} {s : Sessions AcmeDb Call}

theorem allGood_start_proven : (provenDiscipline L world E).AllGood (serverStart ca accounts calls) := by
  have hgood : (acmeDiscipline E).AllGood (serverStart ca accounts calls) := allGood_start
  refine ⟨fun k l hl => ⟨hgood.good k l hl, nofun, nofun, ?_⟩, hgood.apart⟩
  obtain ⟨i, -, rfl⟩ := List.mem_map.1 (List.mem_of_getElem? hl)
  rw [accepted?_of_free (start_free (E := E) i).1]
  nofun

/-- In every run every valid challenge was shown. -/
theorem witnessed_of_reach
    (h : (acmeCalls E).Reach (Sessions.Careful (Attempts L world)) (serverStart ca accounts calls) s) :
    Witnessed L world s.committed := by
  refine Discipline.rel_of_reach (P := provenDiscipline L world E)
    (R := fun a b => Witnessed L world a → Witnessed L world b) h allGood_start_proven (fun _ => id)
    (fun _ _ _ hab hbc ha => hbc (hab ha)) ?_ nofun
  rintro db db' ⟨-, hwitnessed⟩ -
  exact hwitnessed

end runs

/-! ### A run -/

end Acme

end Cabin
