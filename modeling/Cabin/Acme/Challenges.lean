import Cabin.X509.Transparent
import Cabin.Acme.Interleaving

/-!
# Challenges and authorizations

Over every run of the calls, in whatever order the triggers and the tasks they schedule take their
turns, a challenge has one task, which finishes it; an authorization is valid with a valid challenge
and not without; and what is finished stays as it is.

* `challenge_lifecycle` is the result;
* `keeps_task`: a call that has scheduled a task never schedules another.
-/

namespace Cabin

namespace Acme

open X509

variable {E : Crypto} {ca : Db} {accounts : Table AcmeAccount} {calls : List Incoming}
  {s s' : Sessions AcmeDb Call}

theorem task_ofChallenge (challengeId : Str) (outcome : Outcome) (db : AcmeDb) :
    (Pc.ofChallenge challengeId outcome db).task? = some challengeId := by
  unfold Pc.ofChallenge
  split
  · rfl
  · split_ifs
    · rfl
    · split <;> rfl

/-- A call that has scheduled a task never schedules another. -/
theorem keeps_task {challengeId : Str} (l l' : Call) (hl : l.pc.task? = some challengeId)
    (h : (l.next E).Leads l') : l'.pc.task? = some challengeId := by
  cases l with
  | commit pc | rollback pc =>
    cases h
    exact hl
  | run pc =>
    cases pc with
    | validate id outcome =>
      cases h
      cases hl
      exact task_ofChallenge _ outcome _
    | record id authz outcome =>
      cases hl
      cases h <;> rfl
    | recorded | lost => cases h
    | _ => cases hl

/-- A task that is over has finished its challenge, or could not write. -/
theorem finished_of_done {l : Call} {k : ℕ} {challengeId : Str} (hs : (acmeDiscipline E).AllGood s)
    (hl : s.calls[k]? = some l) (htask : l.pc.task? = some challengeId) (hdone : l.next E = .done)
    (hlost : l ≠ .run (.lost challengeId)) :
    ∃ c ∈ s.committed.challenges, c.id = challengeId ∧ (c.status = .valid ∨ c.status = .invalid) := by
  have hgood := hs.good k l hl
  cases l with
  | commit pc | rollback pc => cases hdone
  | run pc =>
    cases pc with
    | recorded id =>
      cases htask
      exact hgood.2.2
    | lost id =>
      cases htask
      exact absurd rfl hlost
    | validate | record => cases hdone
    | _ => cases htask

/-- **Challenges and authorizations.**  In every state of every run of the calls:

* a challenge is the task of at most one call, which keeps it;
* a task that is over, unless it could not write, has left its challenge valid or invalid;
* a challenge is valid only if its authorization is, and an authorization only if a challenge of it
  is;
* the valid challenges are those with a date, the invalid ones those with an error;
* a challenge that is valid or invalid and an authorization that is valid keep their status. -/
theorem challenge_lifecycle (h : (acmeCalls E).Reachable (serverStart ca accounts calls) s) :
    (∀ (j k : ℕ) (l m : Call) (challengeId : Str), s.calls[j]? = some l → s.calls[k]? = some m →
      l.pc.task? = some challengeId → m.pc.task? = some challengeId → j = k) ∧
    (∀ (k : ℕ) (l : Call) (challengeId : Str), s.calls[k]? = some l →
      l.pc.task? = some challengeId → l.next E = .done → l ≠ .run (.lost challengeId) →
      ∃ c ∈ s.committed.challenges, c.id = challengeId ∧
        (c.status = .valid ∨ c.status = .invalid)) ∧
    (∀ c ∈ s.committed.challenges, ∃ a ∈ s.committed.authorizations, a.id = c.authzId ∧
      (c.status = .valid → a.status = .valid)) ∧
    (∀ a ∈ s.committed.authorizations, a.status = .valid →
      ∃ c ∈ s.committed.challenges, c.authzId = a.id ∧ c.status = .valid) ∧
    (∀ c ∈ s.committed.challenges, (c.validatedAt ≠ none ↔ c.status = .valid) ∧
      (c.error ≠ none ↔ c.status = .invalid)) ∧
    ∀ s', (acmeCalls E).Reachable s s' →
      (∀ (k : ℕ) (l : Call) (challengeId : Str), s.calls[k]? = some l →
        l.pc.task? = some challengeId →
        ∃ l', s'.calls[k]? = some l' ∧ l'.pc.task? = some challengeId) ∧
      (∀ c ∈ s.committed.challenges, c.status = .valid ∨ c.status = .invalid →
        ∃ c' ∈ s'.committed.challenges, c'.id = c.id ∧ c'.status = c.status) ∧
      ∀ a ∈ s.committed.authorizations, a.status = .valid →
        ∃ a' ∈ s'.committed.authorizations, a'.id = a.id ∧ a'.status = .valid := by
  have hs := allGood_of_reachable h
  have hinv := inv_of_reachable h
  refine ⟨fun j k l m id hl hm htask htask' => ?_, fun k l id hl htask hdone hlost => ?_,
    fun c hc => ?_, hinv.proven, fun c hc => ⟨(hinv.validatedAt c hc).symm, (hinv.error c hc).symm⟩,
    fun s' h' => ⟨fun k l id hl htask => ?_, fun c hc hdone => ?_, fun a ha hvalid => ?_⟩⟩
  · by_contra hjk
    exact hs.apart j k l m hjk hl hm (.task id) htask htask'
  · exact finished_of_done hs hl htask hdone hlost
  · obtain ⟨a, ha, hproves, hvalid⟩ := hinv.authorization c hc
    exact ⟨a, ha, hproves.authzId.symm, hvalid⟩
  · exact Sessions.call_of_reach h' keeps_task ⟨l, hl, htask⟩
  · obtain ⟨c', hc', hid, -, -, hsame⟩ := (extends_of_reachable hs h').challenge c hc
    exact ⟨c', hc', hid, by rw [hsame hdone]⟩
  · obtain ⟨a', ha', hid, -, hvalid'⟩ := (extends_of_reachable hs h').authorization a ha
    exact ⟨a', ha', hid, hvalid' hvalid⟩

/-! ### A run -/

/-- A CA with a root and an issuer under it. -/
def issuingCa : Db :=
  (caMachine .transparent).final (.start [] [] none)
    [(.hierarchy (.createRoot (Str.of "Root") "ecdsa-p256" 20 1), .sample 1),
      (.hierarchy (.createIntermediateUnder 1 (Str.of "Issuer") "ecdsa-p256" 10 none), .sample 2)]

/-- One account, registered with the issuer. -/
def oneAccount : Table AcmeAccount :=
  Table.empty.upsert ⟨Str.of "account", Str.of "hash", .null, Str.of "thumbprint", .valid, none, 2⟩

/-- The random texts of the order. -/
def orderDraw : OrderDraw where
  orderId := Str.of "order"
  authzId j := Str.of "authz" ++ [j]
  challengeId j i := Str.of "challenge" ++ [j, i]
  token j i := Str.of "token" ++ [j, i]

/-- An order for one name. -/
def orderNas : Request :=
  .newOrder (some (.arr [.obj [(Str.of "type", .str (Str.of "dns")),
    (Str.of "value", .str (Str.of "nas.lan"))]])) (.ok none) (.ok none) orderDraw

/-- The order, two triggers of its first challenge, and one of its second, which will fail. -/
def triggeredTwice : List Incoming :=
  [.request (.sample 3) (Str.of "account") orderNas,
    .request (.sample 4) (Str.of "account")
      (.challenge (orderDraw.challengeId 0 0) true (.success (Instant.days 20000))),
    .request (.sample 5) (Str.of "account")
      (.challenge (orderDraw.challengeId 0 0) true (.crashed "TimeoutError")),
    .request (.sample 6) (Str.of "account")
      (.challenge (orderDraw.challengeId 0 1) true (.crashed "TimeoutError"))]

/-- The triggers have all seen a pending challenge before the first of them writes. -/
def triggersMeet : List Turn :=
  [0, 0, 0, 0, 1, 1, 2, 2, 3, 3, 1, 1, 2, 2, 3, 3, 1, 1, 1, 3, 3, 3].map Turn.go

/-- In this run one of the two triggers of the first challenge has scheduled its task, which has made
the authorization valid; the second challenge is invalid. -/
theorem challenge_lifecycle_triggersMeet :
    ∃ s, (acmeCalls .transparent).Reachable (serverStart issuingCa oneAccount triggeredTwice) s ∧
      (∃ a ∈ s.committed.authorizations, a.status = .valid ∧
        ∃ c ∈ s.committed.challenges, c.authzId = a.id ∧ c.validatedAt ≠ none) ∧
      ∃ c ∈ s.committed.challenges, c.status = .invalid ∧ c.error ≠ none := by
  have h : (acmeCalls .transparent).Reachable (serverStart issuingCa oneAccount triggeredTwice) _ :=
    Machine.reachable_final _ triggersMeet
  obtain ⟨-, -, -, hproven, hfinished, -⟩ := challenge_lifecycle h
  obtain ⟨a, ha, hvalid⟩ : ∃ a ∈ ((acmeCalls .transparent).final
      (serverStart issuingCa oneAccount triggeredTwice) triggersMeet).committed.authorizations,
      a.status = .valid := by decide +kernel
  obtain ⟨c, hc, hauthz, hstatus⟩ := hproven a ha hvalid
  obtain ⟨c', hc', hinvalid⟩ : ∃ c ∈ ((acmeCalls .transparent).final
      (serverStart issuingCa oneAccount triggeredTwice) triggersMeet).committed.challenges,
      c.status = .invalid := by decide +kernel
  exact ⟨_, h, ⟨a, ha, hvalid, c, hc, hauthz, (hfinished c hc).1.2 hstatus⟩, c', hc', hinvalid,
    (hfinished c' hc').2.2 hinvalid⟩

end Acme

end Cabin
