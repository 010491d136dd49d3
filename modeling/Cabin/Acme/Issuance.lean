import Cabin.Acme.Challenges

/-!
# What an order gets

Over every run of the calls, the certificate that an order names is for the order: its names are the
identifiers of the order, each of which was proven, and it is from the issuer of the account.  It is
the only one that was issued for the order, and no other order names it.  A call whose issuance has
raised stores no certificate and takes its claim off again.

* `issuance_sound` is the result;
* `Proven` says how an identifier was proven;
* `failed?` is the order of a call whose issuance has raised and whose claim is not off yet.
-/

namespace Cabin

namespace Acme

open X509

/-! ### Statements -/

/-- An authorization of the order for the identifier is valid, through a challenge that may prove
it. -/
def Proven (db : AcmeDb) (orderId : Str) (i : OrderIdentifier) : Prop :=
  ∃ a ∈ db.authorizations, Covers a orderId i.type i.baseValue i.wildcard ∧ a.status = .valid ∧
    ∃ c ∈ db.challenges, c.authzId = a.id ∧ c.status = .valid ∧
      (i.wildcard = true → c.type = .dns01) ∧
      (i.type = .ip → c.type = .http01 ∨ c.type = .tlsAlpn01)

/-- The order is pending, and has no certificate. -/
def Pending (db : AcmeDb) (orderId : Str) : Prop :=
  ∃ o ∈ db.orders, o.id = orderId ∧ o.status = .pending ∧ o.certificateId = none

/-- The order of a call whose issuance has raised and whose claim is not off yet. -/
def Call.failed? : Call → Option Str
  | .rollback (.release orderId _) | .run (.release orderId _) | .commit (.released orderId _) =>
    some orderId
  | _ => none

variable {E : Crypto} {ca : Db} {accounts : Table AcmeAccount} {calls : List Incoming}
  {db : AcmeDb} {s s' : Sessions AcmeDb Call} {k : ℕ} {l : Call}

/-! ### The certificate of an order -/

theorem Inv.provenIdentifier (hinv : Inv db) {o : AcmeOrder} (ho : o ∈ db.orders)
    (hall : AllValid db o.id) {i : OrderIdentifier} (hi : i ∈ o.identifiers) : Proven db o.id i := by
  obtain ⟨is, -, hwf, heq, hcovers⟩ := hinv.identifiers o ho
  rw [heq] at hi
  obtain ⟨x, hx, rfl⟩ := List.mem_map.1 hi
  obtain ⟨a, ha, hcover⟩ := hcovers x hx
  have hvalid := hall a ha hcover.orderId
  obtain ⟨c, hc, hauthz, hstatus⟩ := hinv.proven a ha hvalid
  obtain ⟨a', ha', hproves, -⟩ := hinv.authorization c hc
  obtain rfl : a' = a := Table.eq_of_key ha' ha (hproves.authzId.symm.trans hauthz)
  have htype := hproves.type
  rw [hcover.identifierType, hcover.wildcard] at htype
  rw [(hwf x hx).wildcard, (hwf x hx).baseValue] at hcover
  refine ⟨a', ha, hcover, hvalid, c, hc, hauthz, hstatus, fun hstar => ?_, fun hip => ?_⟩
  · rw [(hwf x hx).wildcard, hstar] at htype
    simpa [challengeTypesFor] using htype
  · have hstar : x.wildcard = false := by
      rw [(hwf x hx).wildcard]
      simp [OrderIdentifier.wildcard, hip]
    have hip : x.type = .ip := hip
    rw [hstar, hip] at htype
    simpa [challengeTypesFor] using htype

/-- A call that has issued a certificate for an order that has one has issued that one. -/
theorem certificate_unique (hs : (acmeDiscipline E).AllGood s) {o : AcmeOrder} {id id' : ℕ}
    (ho : o ∈ s.committed.orders) (hid : o.certificateId = some id) (hl : s.calls[k]? = some l)
    (horder : l.pc.order? = some o.id) (hcertificate : l.pc.certificate? = some id') : id' = id := by
  -- In what the call is about to commit the order is as it is.
  obtain ⟨db, hmem, hgood⟩ : ∃ db : AcmeDb, o ∈ db.orders ∧ GoodAt db l.pc := by
    have hgood := hs.good k l hl
    cases l with
    | run pc => exact ⟨s.committed, ho, hgood.2.2⟩
    | rollback pc => exact ⟨s.committed, ho, hgood.2⟩
    | commit pc =>
      obtain ⟨-, w, -, hc, hgood⟩ := hgood
      obtain ⟨o', ho', -, -, -, hsame⟩ := (extends_of_change hc).order o ho
      obtain rfl := hsame (by simp [hid])
      exact ⟨w, ho', hgood⟩
  have hnone : ¬ Claimed db o.id := fun hclaimed => by
    rw [certificateId_of_claimed hclaimed hmem rfl] at hid
    cases hid
  generalize l.pc = pc at horder hcertificate hgood
  cases pc with
  | attach orderId c | orphaned orderId c =>
    cases horder
    exact absurd hgood.claimed hnone
  | attached orderId c =>
    cases horder
    cases hcertificate
    obtain ⟨x, hx, hxid, hxc⟩ := hgood
    obtain rfl := Table.eq_of_key hx hmem hxid
    exact Option.some.inj (hxc.symm.trans hid)
  | _ => cases hcertificate

/-! ### A failed issuance -/

/-- A call whose issuance has raised still has its claim. -/
theorem claimed_of_failed (hs : (acmeDiscipline E).AllGood s) (hl : s.calls[k]? = some l)
    {orderId : Str} (hfailed : l.failed? = some orderId) : Claimed s.committed orderId := by
  have hgood := hs.good k l hl
  unfold Call.failed? at hfailed
  split at hfailed
  · cases hfailed
    exact hgood.2
  · cases hfailed
    exact hgood.2.2
  · cases hfailed
    obtain ⟨-, w, -, hc, -⟩ := hgood
    cases hc
    assumption
  · cases hfailed

/-- The state after a turn is in good order. -/
theorem allGood_step {t : Turn} (hs : (acmeDiscipline E).AllGood s)
    (h : (acmeCalls E).step s t = some s') : (acmeDiscipline E).AllGood s' :=
  (Discipline.step hs (by cases t <;> simp [Sessions.Careful]) h).1

/-- The last commit of a failed call: the claim is off, and nothing else is written. -/
theorem released_of_commit {orderId : Str} {e : Failure} (hs : (acmeDiscipline E).AllGood s)
    (hl : s.calls[k]? = some (.commit (.released orderId e))) :
    ∃ s', (acmeCalls E).step s (.go k) = some s' ∧ s'.committed.ca = s.committed.ca ∧
      Pending s'.committed orderId := by
  refine ⟨_, Sessions.step_commit hl rfl, ?_⟩
  obtain ⟨-, w, hw, hc, -⟩ := hs.good k _ hl
  have hview : s.view k = w := by simp [Sessions.view, hw]
  rw [hview]
  cases hc with
  | release hclaimed =>
    obtain ⟨o, ho, hid, -, hnone⟩ := hclaimed
    exact ⟨rfl, _, mem_releaseClaim.2 ⟨o, ho, rfl⟩, by simp [hid, hnone]⟩

/-- A failed call that goes on stores no certificate, and goes on until its claim is off. -/
theorem failed_step {orderId : Str} (hs : (acmeDiscipline E).AllGood s) (hl : s.calls[k]? = some l)
    (hfailed : l.failed? = some orderId) (h : (acmeCalls E).step s (.go k) = some s') :
    s'.committed.ca = s.committed.ca ∧
      ((∃ l', s'.calls[k]? = some l' ∧ l'.failed? = some orderId) ∨ Pending s'.committed orderId) := by
  unfold Call.failed? at hfailed
  split at hfailed
  · cases hfailed
    have hstep : (acmeCalls E).step s (.go k) = some _ := Sessions.step_rollback hl rfl
    obtain rfl := Option.some.inj (hstep.symm.trans h)
    exact ⟨rfl, .inl ⟨_, Sessions.getElem?_set_self hl _, rfl⟩⟩
  · cases hfailed
    have hstep : (acmeCalls E).step s (.go k) = some _ :=
      Sessions.step_write hl rfl (Sessions.free_of_step h hl rfl)
    obtain rfl := Option.some.inj (hstep.symm.trans h)
    exact ⟨rfl, .inl ⟨_, Sessions.getElem?_set_self hl _, rfl⟩⟩
  · cases hfailed
    obtain ⟨x, hx, hca, hpending⟩ := released_of_commit hs hl
    obtain rfl := Option.some.inj (hx.symm.trans h)
    exact ⟨hca, .inr hpending⟩
  · cases hfailed

/-- With the lock free, the next turns of a failed call take its claim off. -/
theorem failed_run {orderId : Str} (hs : (acmeDiscipline E).AllGood s) (hl : s.calls[k]? = some l)
    (hfailed : l.failed? = some orderId) (hfree : s.waits k = false) :
    ∃ n s', (acmeCalls E).run s (List.replicate n (.go k)) = some s' ∧
      s'.committed.ca = s.committed.ca ∧ Pending s'.committed orderId := by
  have hcommit : ∀ {s : Sessions AcmeDb Call} {e : Failure}, (acmeDiscipline E).AllGood s →
      s.calls[k]? = some (.commit (.released orderId e)) →
      ∃ s', (acmeCalls E).run s [.go k] = some s' ∧
        s'.committed.ca = s.committed.ca ∧ Pending s'.committed orderId := by
    intro s e hs hl
    obtain ⟨s', hstep, hrest⟩ := released_of_commit hs hl
    exact ⟨s', by simp [Machine.run, hstep], hrest⟩
  have hrun : ∀ {s : Sessions AcmeDb Call} {e : Failure}, (acmeDiscipline E).AllGood s →
      s.calls[k]? = some (.run (.release orderId e)) → s.waits k = false →
      ∃ s', (acmeCalls E).run s [.go k, .go k] = some s' ∧
        s'.committed.ca = s.committed.ca ∧ Pending s'.committed orderId := by
    intro s e hs hl hfree
    have hstep : (acmeCalls E).step s (.go k) = some _ := Sessions.step_write hl rfl hfree
    obtain ⟨s', hs', hrest⟩ := hcommit (allGood_step hs hstep) (Sessions.getElem?_set_self hl _)
    exact ⟨s', by rw [Machine.run_cons, hstep]; exact hs', hrest⟩
  unfold Call.failed? at hfailed
  split at hfailed
  · cases hfailed
    have hstep : (acmeCalls E).step s (.go k) = some _ := Sessions.step_rollback hl rfl
    obtain ⟨s', hs', hrest⟩ := hrun (allGood_step hs hstep) (Sessions.getElem?_set_self hl _)
      (Sessions.waits_release _ _ hfree)
    exact ⟨3, s', by rw [List.replicate_succ, Machine.run_cons, hstep]; exact hs', hrest⟩
  · cases hfailed
    exact ⟨2, hrun hs hl hfree⟩
  · cases hfailed
    exact ⟨1, hcommit hs hl⟩
  · cases hfailed

/-- The turn in which a certificate is issued: it has been written, or the call has failed. -/
theorem issue_step {d : Draw} {account : AcmeAccount} {order : AcmeOrder} {der : CsrDer} {t : Turn}
    (hl : s.calls[k]? = some (.run (.issue d account order der))) (ht : t = .go k ∨ t = .giveUp k)
    (h : (acmeCalls E).step s t = some s') :
    s'.committed = s.committed ∧ ∃ l', s'.calls[k]? = some l' ∧
      (l'.failed? = some order.id ∨ ∃ id, l' = .commit (.attach order.id id)) := by
  rcases ht with rfl | rfl
  · have hstep : (acmeCalls E).step s (.go k) = some _ :=
      Sessions.step_write hl rfl (Sessions.free_of_step h hl rfl)
    obtain rfl := Option.some.inj (hstep.symm.trans h)
    refine ⟨rfl, _, Sessions.getElem?_set_self hl _, ?_⟩
    unfold Pc.runIssue
    split
    · exact .inr ⟨_, rfl⟩
    · exact .inl rfl
  · obtain rfl := Sessions.eq_of_giveUp h hl rfl
    exact ⟨rfl, _, Sessions.getElem?_set_self hl _, .inl rfl⟩

/-- A call that has issued a certificate for an order issues no other. -/
theorem keeps_certificate {orderId : Str} {id : ℕ} (l l' : Call)
    (hl : l.pc.order? = some orderId ∧ l.pc.certificate? = some id) (h : (l.next E).Leads l') :
    l'.pc.order? = some orderId ∧ l'.pc.certificate? = some id := by
  cases l with
  | commit pc | rollback pc =>
    cases h
    exact hl
  | run pc =>
    cases pc with
    | attach => cases h <;> exact hl
    | attached | orphaned => cases h
    | _ => cases hl.2

/-- **What an order gets.**  In every state of every run of the calls:

* the certificate an order names has exactly the names of the identifiers of the order, each of
  which is proven, and is from the issuer of the account of the order;
* no other order names it, and no call has issued another one for the order;
* a turn that issues leaves what is committed alone, and the call goes on to attach a certificate or
  has failed;
* an order whose call has failed is processing without a certificate, and what the call does next
  stores no certificate and ends, as soon as no other call has the lock, with the order pending. -/
theorem issuance_sound (h : (acmeCalls E).Reachable (serverStart ca accounts calls) s) :
    (∀ o ∈ s.committed.orders, ∀ id, o.certificateId = some id →
      (∃ c ∈ s.committed.ca.certificates, c.id = id ∧ HasNames c o.identifiers ∧
        ∃ account ∈ s.committed.accounts, account.id = o.accountId ∧
          c.issuerId = account.issuerId) ∧
      (∀ i ∈ o.identifiers, Proven s.committed o.id i) ∧
      (∀ o' ∈ s.committed.orders, o'.certificateId = some id → o' = o) ∧
      ∀ (k : ℕ) (l : Call) (id' : ℕ), s.calls[k]? = some l → l.pc.order? = some o.id →
        l.pc.certificate? = some id' → id' = id) ∧
    (∀ (k : ℕ) (l : Call) (orderId : Str) (id : ℕ), s.calls[k]? = some l →
      l.pc.order? = some orderId → l.pc.certificate? = some id →
      ∀ s', (acmeCalls E).Reachable s s' → ∃ l', s'.calls[k]? = some l' ∧
        l'.pc.order? = some orderId ∧ l'.pc.certificate? = some id) ∧
    (∀ (k : ℕ) (d : Draw) (account : AcmeAccount) (order : AcmeOrder) (der : CsrDer) (t : Turn)
      (s' : Sessions AcmeDb Call), s.calls[k]? = some (.run (.issue d account order der)) →
      t = .go k ∨ t = .giveUp k → (acmeCalls E).step s t = some s' →
      s'.committed = s.committed ∧ ∃ l', s'.calls[k]? = some l' ∧
        (l'.failed? = some order.id ∨ ∃ id, l' = .commit (.attach order.id id))) ∧
    ∀ (k : ℕ) (l : Call) (orderId : Str), s.calls[k]? = some l → l.failed? = some orderId →
      Claimed s.committed orderId ∧
      (∀ s', (acmeCalls E).step s (.go k) = some s' → s'.committed.ca = s.committed.ca ∧
        ((∃ l', s'.calls[k]? = some l' ∧ l'.failed? = some orderId) ∨
          Pending s'.committed orderId)) ∧
      (s.waits k = false → ∃ n s', (acmeCalls E).run s (List.replicate n (.go k)) = some s' ∧
        s'.committed.ca = s.committed.ca ∧ Pending s'.committed orderId) := by
  have hs := allGood_of_reachable h
  have hinv := inv_of_reachable h
  refine ⟨fun o ho id hid => ?_, fun k l orderId id hl horder hcertificate s' h' => ?_,
    fun k d account order der t s' hl ht hstep => issue_step hl ht hstep,
    fun k l orderId hl hfailed => ⟨claimed_of_failed hs hl hfailed, fun s' hstep => ?_,
      failed_run hs hl hfailed⟩⟩
  · have hfulfils := hinv.fulfils o ho id hid
    refine ⟨hfulfils.certificate, fun i hi => hinv.provenIdentifier ho hfulfils.allValid hi,
      fun o' ho' hid' => ?_, fun k l id' hl horder hcertificate => ?_⟩
    · exact hinv.distinct o' ho' o ho (by simp [hid']) (hid'.trans hid.symm)
    · exact certificate_unique hs ho hid hl horder hcertificate
  · exact Sessions.call_of_reach h' keeps_certificate ⟨l, hl, horder, hcertificate⟩
  · exact failed_step hs hl hfailed hstep

/-! ### A run -/

/-- A request for the name of the order. -/
def csrNas : CsrDer where
  size := 300
  parsed := .ok {
    subject := []
    publicKey := Crypto.transparent.publicKey ⟨.ec .p256, [7]⟩
    subjectAlternativeName := some [.dns (Str.of "nas.lan")] }

/-- The order, a trigger of its first challenge, and two finalizations. -/
def finalizedTwice : List Incoming :=
  [.request (.sample 3) (Str.of "account") orderNas,
    .request (.sample 4) (Str.of "account")
      (.challenge (orderDraw.challengeId 0 0) true (.success (Instant.days 20000))),
    .request (.sample 5) (Str.of "account") (.finalize orderDraw.orderId (some (.ok csrNas))),
    .request (.sample 6) (Str.of "account") (.finalize orderDraw.orderId (some (.ok csrNas)))]

/-- Both finalizations have seen a ready order before the first of them claims it. -/
def finalizationsMeet : List Turn :=
  [0, 0, 0, 0, 1, 1, 1, 1, 1, 1, 1, 2, 2, 3, 3, 2, 2, 3, 3, 2, 2, 2, 2].map Turn.go

/-- In this run one of the two finalizations has issued, and the order names its certificate. -/
theorem issuance_sound_finalizationsMeet :
    ∃ s, (acmeCalls .transparent).Reachable (serverStart issuingCa oneAccount finalizedTwice) s ∧
      ∃ o ∈ s.committed.orders, o.certificateId = some 1 ∧
        (∃ c ∈ s.committed.ca.certificates, c.id = 1 ∧ HasNames c o.identifiers) ∧
        ∀ i ∈ o.identifiers, Proven s.committed o.id i := by
  have h : (acmeCalls .transparent).Reachable (serverStart issuingCa oneAccount finalizedTwice) _ :=
    Machine.reachable_final _ finalizationsMeet
  obtain ⟨o, ho, hid⟩ : ∃ o ∈ ((acmeCalls .transparent).final
      (serverStart issuingCa oneAccount finalizedTwice) finalizationsMeet).committed.orders,
      o.certificateId = some 1 := by decide +kernel
  obtain ⟨⟨c, hc, hcid, hnames, -⟩, hproven, -⟩ := (issuance_sound h).1 o ho 1 hid
  exact ⟨_, h, o, ho, hid, ⟨c, hc, hcid, hnames⟩, hproven⟩

end Acme

end Cabin
