import Cabin.Acme.Changes

/-!
# The calls of the ACME server, interleaved

What each call relies on between its statements, and what the calls have that no two of them share:
a challenge whose task is theirs, an order they have claimed, a certificate they have issued.  A call
gets such a resource by a conditional statement that the others' would have failed, or by a new key;
and what a call relies on about its own resources no other call's commit can touch.

* `acmeDiscipline` is the argument;
* `allGood_of_reachable`, `extends_of_reachable`: what it gives for every run.
-/

namespace Cabin

namespace Acme

open X509

/-! ### Resources -/

/-- What a call can have for itself. -/
inductive Resource where
  /-- The task of a challenge. -/
  | task (challengeId : Str)
  /-- The claim on an order. -/
  | order (orderId : Str)
  /-- A certificate that was issued for an order. -/
  | certificate (certificateId : ℕ)

/-- What the call has. -/
def Call.Has (c : Call) : Resource → Prop
  | .task challengeId => c.pc.task? = some challengeId
  | .order orderId => c.order? = some orderId
  | .certificate certificateId => c.pc.certificate? = some certificateId

/-- Two calls have nothing in common. -/
def Call.Apart (c c' : Call) : Prop := ∀ r, c.Has r → ¬ c'.Has r

theorem Call.Apart.symm {c c' : Call} (h : c.Apart c') : c'.Apart c := fun r hc' hc => h r hc hc'

theorem Call.Apart.mono {c c' d : Call} (h : c.Apart d) (hsub : ∀ r, c'.Has r → c.Has r) :
    c'.Apart d := fun r hr => h r (hsub r hr)

/-- A call has nothing yet. -/
def Pc.Free (pc : Pc) : Prop := pc.task? = none ∧ pc.order? = none ∧ pc.certificate? = none

theorem Call.not_has_of_free {c : Call} (h : c.pc.Free) (horder : c.order? = none) (r : Resource) :
    ¬ c.Has r := by
  obtain ⟨htask, -, hcertificate⟩ := h
  cases r with
  | task => simp [Call.Has, htask]
  | order => simp [Call.Has, horder]
  | certificate => simp [Call.Has, hcertificate]

/-! ### What a call relies on -/

/-- What a finalization has found out before it claims the order. -/
structure Ready (db : AcmeDb) (account : AcmeAccount) (order : AcmeOrder) : Prop where
  registered : ∃ a ∈ db.accounts, a.id = account.id ∧ a.issuerId = account.issuerId
  placed : ∃ o ∈ db.orders, o.id = order.id ∧ o.accountId = account.id ∧
    o.identifiers = order.identifiers
  allValid : AllValid db order.id
  csr : ∃ csr, checkIdentifiers csr order.identifiers = .ok ()

/-- The certificate is there for the claimed order, and only has to be attached. -/
structure Attachable (db : AcmeDb) (orderId : Str) (certificateId : ℕ) : Prop where
  claimed : Claimed db orderId
  unnamed : Unnamed db certificateId
  fulfils : ∀ o ∈ db.orders, o.id = orderId → Fulfils db o certificateId

/-- What a call relies on at a place of its program. -/
def GoodAt (db : AcmeDb) : Pc → Prop
  | .verified _ account _ => ∃ a ∈ db.accounts, a.id = account.id ∧ a.issuerId = account.issuerId
  | .createOrder accountId is .. =>
    (∃ a ∈ db.accounts, a.id = accountId) ∧ is ≠ [] ∧ ∀ i ∈ is, i.WellFormed
  | .validate challengeId _ | .lost challengeId => Processing db challengeId
  | .record challengeId authz _ =>
    ∃ c ∈ db.challenges, c.id = challengeId ∧ c.status = .processing ∧ c.authzId = authz.id
  | .recorded challengeId =>
    ∃ c ∈ db.challenges, c.id = challengeId ∧ (c.status = .valid ∨ c.status = .invalid)
  | .claim _ account order _ => Ready db account order
  | .issue _ account order _ => Ready db account order ∧ Claimed db order.id
  | .release orderId _ | .stranded orderId => Claimed db orderId
  | .attach orderId certificateId | .orphaned orderId certificateId =>
    Attachable db orderId certificateId
  | .attached orderId certificateId =>
    ∃ o ∈ db.orders, o.id = orderId ∧ o.certificateId = some certificateId
  | _ => True

/-- What a call relies on while `db` is committed; `h` is what it sees if it has the lock. -/
def Good (E : Crypto) (db : AcmeDb) (h : Option AcmeDb) : Call → Prop
  | .run pc => Inv db ∧ h = none ∧ GoodAt db pc
  | .commit pc => Inv db ∧ ∃ w, h = some w ∧ Change E db pc w ∧ GoodAt w pc
  | .rollback pc => Inv db ∧ GoodAt db pc

variable {E : Crypto} {db db' : AcmeDb} {pc pc' : Pc}

/-! ### Commits of the others -/

section others

variable (hc : Change E db pc' db')

include hc

/-- A challenge that is not pending is written by its own task only. -/
theorem challenge_of_change {c : AcmeChallenge} (hmem : c ∈ db.challenges)
    (hstatus : c.status ≠ .pending) (htask : pc'.task? ≠ some c.id) : c ∈ db'.challenges := by
  cases hc with
  | newOrder haccount hne hwf h =>
    obtain ⟨_, -, -, -, -, -, -, hgrown, -⟩ := createOrder_spec h
    exact hgrown.challenges c hmem
  | beginChallenge h =>
    exact mem_claimChallenge.2 ⟨c, hmem, if_neg fun hmatch => hstatus hmatch.2⟩
  | @record challengeId authz outcome h =>
    have hid : c.id ≠ challengeId := fun hid => htask (by simp [Pc.task?, hid])
    cases outcome with
    | success now => exact mem_recordChallengeSuccess.2 ⟨c, hmem, if_neg hid⟩
    | refused error =>
      exact mem_recordChallengeFailure.2 ⟨c, hmem, if_neg fun hmatch => hid hmatch.1⟩
    | crashed name =>
      exact mem_recordChallengeFailure.2 ⟨c, hmem, if_neg fun hmatch => hid hmatch.1⟩
  | _ => exact hmem

/-- An order that is processing is written by the call that has claimed it only. -/
theorem order_of_change {o : AcmeOrder} (hmem : o ∈ db.orders) (hstatus : o.status = .processing)
    (horder : (Call.commit pc').order? ≠ some o.id) : o ∈ db'.orders := by
  cases hc with
  | newOrder haccount hne hwf h =>
    obtain ⟨order, -, -, -, -, -, hfresh, hgrown, -⟩ := createOrder_spec h
    exact hgrown.orders ▸ Table.mem_upsert.2 (.inr ⟨hmem, hfresh o hmem⟩)
  | @record challengeId authz outcome h =>
    cases outcome <;> exact hmem
  | claim h =>
    refine mem_claimForIssuance.2 ⟨o, hmem, if_neg fun hmatch => ?_⟩
    simp [hstatus] at hmatch
  | release h =>
    have hid : o.id ≠ _ := fun hid => horder (congrArg some hid.symm)
    exact mem_releaseClaim.2 ⟨o, hmem, if_neg hid⟩
  | attach h =>
    have hid : o.id ≠ _ := fun hid => horder (congrArg some hid.symm)
    exact mem_attachCertificate.2 ⟨o, hmem, if_neg hid⟩
  | _ => exact hmem

/-- An order gets its certificate from the call that has issued it only. -/
theorem unnamed_of_change {certificateId : ℕ} (h : Unnamed db certificateId)
    (hcertificate : pc'.certificate? ≠ some certificateId) : Unnamed db' certificateId := by
  intro o ho
  cases hc with
  | newOrder haccount hne hwf hnew =>
    obtain ⟨order, -, -, -, -, hnone, -, hgrown, -⟩ := createOrder_spec hnew
    rw [hgrown.orders, Table.mem_upsert] at ho
    rcases ho with rfl | ⟨ho, -⟩
    · simp [hnone]
    · exact h o ho
  | @record challengeId authz outcome hrecord =>
    cases outcome <;> exact h o ho
  | claim hclaim =>
    obtain ⟨x, hx, rfl⟩ := mem_claimForIssuance.1 ho
    have hunnamed := h x hx
    split_ifs <;> exact hunnamed
  | release hclaimed =>
    obtain ⟨x, hx, rfl⟩ := mem_releaseClaim.1 ho
    have hunnamed := h x hx
    split_ifs <;> exact hunnamed
  | attach hclaimed =>
    obtain ⟨x, hx, rfl⟩ := mem_attachCertificate.1 ho
    split_ifs
    · exact hcertificate
    · exact h x hx
  | _ => exact h o ho

theorem processing_of_change {challengeId : Str} (h : Processing db challengeId)
    (htask : pc'.task? ≠ some challengeId) : Processing db' challengeId := by
  obtain ⟨c, hmem, rfl, hstatus⟩ := h
  exact ⟨c, challenge_of_change hc hmem (by simp [hstatus]) htask, rfl, hstatus⟩

theorem claimed_of_change {orderId : Str} (h : Claimed db orderId)
    (horder : (Call.commit pc').order? ≠ some orderId) : Claimed db' orderId := by
  obtain ⟨o, hmem, rfl, hstatus, hnone⟩ := h
  exact ⟨o, order_of_change hc hmem hstatus horder, rfl, hstatus, hnone⟩

theorem attachable_of_change {orderId : Str} {certificateId : ℕ}
    (h : Attachable db orderId certificateId) (horder : (Call.commit pc').order? ≠ some orderId)
    (hcertificate : pc'.certificate? ≠ some certificateId) :
    Attachable db' orderId certificateId := by
  refine ⟨claimed_of_change hc h.claimed horder, unnamed_of_change hc h.unnamed hcertificate,
    fun o' ho' hid' => ?_⟩
  obtain ⟨o, ho, hid, -, -⟩ := h.claimed
  obtain ⟨x, hx, hxid, haccount, his, -⟩ := (extends_of_change hc).order o ho
  obtain rfl : x = o' := Table.eq_of_key hx ho' (by simp [hxid, hid, hid'])
  exact (extends_of_change hc).fulfils ho hxid haccount his (h.fulfils o ho hid)

end others

theorem Extends.ready {account : AcmeAccount} {order : AcmeOrder} (h : Extends db db')
    (hr : Ready db account order) : Ready db' account order := by
  obtain ⟨⟨a, ha, haid, hissuer⟩, ⟨o, ho, hid, haccount, his⟩, hall, hcsr⟩ := hr
  obtain ⟨a', ha', haid', hissuer'⟩ := h.account a ha
  obtain ⟨o', ho', hid', haccount', his', -⟩ := h.order o ho
  exact ⟨⟨a', ha', haid'.trans haid, hissuer'.trans hissuer⟩,
    ⟨o', ho', hid'.trans hid, haccount'.trans haccount, his'.trans his⟩,
    h.allValid ⟨o, ho, hid⟩ hall, hcsr⟩

/-- What a call relies on is stable under the commits of calls that have nothing of it. -/
theorem goodAt_stable (hc : Change E db pc' db') (hapart : (Call.commit pc').Apart (.run pc))
    (h : GoodAt db pc) : GoodAt db' pc := by
  have hext := extends_of_change hc
  have htask : ∀ id, pc.task? = some id → pc'.task? ≠ some id := fun id hid hid' =>
    hapart (.task id) hid' hid
  have hclaim : ∀ id, pc.order? = some id → (Call.commit pc').order? ≠ some id := fun id hid hid' =>
    hapart (.order id) hid' hid
  have hissued : ∀ id, pc.certificate? = some id → pc'.certificate? ≠ some id := fun id hid hid' =>
    hapart (.certificate id) hid' hid
  cases pc with
  | verified d account r =>
    obtain ⟨a, ha, haid, hissuer⟩ := h
    obtain ⟨a', ha', haid', hissuer'⟩ := hext.account a ha
    exact ⟨a', ha', haid'.trans haid, hissuer'.trans hissuer⟩
  | createOrder accountId is notBefore notAfter moment draw =>
    obtain ⟨⟨a, ha, haid⟩, his⟩ := h
    obtain ⟨a', ha', haid', -⟩ := hext.account a ha
    exact ⟨⟨a', ha', haid'.trans haid⟩, his⟩
  | validate challengeId outcome => exact processing_of_change hc h (htask _ rfl)
  | lost challengeId => exact processing_of_change hc h (htask _ rfl)
  | record challengeId authz outcome =>
    obtain ⟨c, hmem, rfl, hstatus, hauthz⟩ := h
    exact ⟨c, challenge_of_change hc hmem (by simp [hstatus]) (htask _ rfl), rfl, hstatus, hauthz⟩
  | recorded challengeId =>
    obtain ⟨c, hmem, rfl, hstatus⟩ := h
    obtain ⟨c', hmem', -, -, -, hsame⟩ := hext.challenge c hmem
    obtain rfl := hsame hstatus
    exact ⟨c', hmem', rfl, hstatus⟩
  | claim d account order der => exact hext.ready h
  | issue d account order der => exact ⟨hext.ready h.1, claimed_of_change hc h.2 (hclaim _ rfl)⟩
  | release orderId e => exact claimed_of_change hc h (hclaim _ rfl)
  | stranded orderId => exact claimed_of_change hc h (hclaim _ rfl)
  | attach orderId certificateId =>
    exact attachable_of_change hc h (hclaim _ rfl) (hissued _ rfl)
  | orphaned orderId certificateId =>
    exact attachable_of_change hc h (hclaim _ rfl) (hissued _ rfl)
  | attached orderId certificateId =>
    obtain ⟨o, ho, rfl, hcertificate⟩ := h
    obtain ⟨o', ho', -, -, -, hsame⟩ := hext.order o ho
    obtain rfl := hsame (by simp [hcertificate])
    exact ⟨o', ho', rfl, hcertificate⟩
  | _ => trivial

/-! ### Queries -/

theorem ownedOrder_eq_ok {account : AcmeAccount} {row : Option AcmeOrder} {order : AcmeOrder}
    (h : ownedOrder account row = .ok order) : row = some order ∧ order.accountId = account.id := by
  unfold ownedOrder at h
  split at h
  · cases h
  · split_ifs at h with hid
    cases h
    exact ⟨rfl, hid⟩

/-- An order is ready only if all its authorizations are valid. -/
theorem allValid_of_ready {order : AcmeOrder} {now : ℤ} (h : orderStatus db order now = .ready) :
    AllValid db order.id := by
  intro a ha horder
  have hmem : authorizationStatus a now ∈
      (authorizationsOf db order.id).map fun a => authorizationStatus a now :=
    List.mem_map_of_mem (Table.mem_select.2 ⟨ha, beq_iff_eq.2 horder⟩)
  unfold orderStatus statusOf at h
  split_ifs at h with hstored hexpired hbad hall
  · exact absurd h hstored.2
  · have hvalid : authorizationStatus a now = .valid := by
      simpa using List.all_eq_true.1 hall.2 _ hmem
    unfold authorizationStatus at hvalid
    split_ifs at hvalid
    exact hvalid

theorem route_cases {d : Draw} {account : AcmeAccount} {r : Request}
    (h : Pc.route E d account db r = .ok pc)
    (haccount : ∃ a ∈ db.accounts, a.id = account.id ∧ a.issuerId = account.issuerId) :
    pc.Free ∧ GoodAt db pc := by
  cases r with
  | newOrder identifiers notBefore notAfter draw =>
    simp only [Pc.route, Pc.newOrder, bind_eq_ok, pure_eq_ok] at h
    obtain ⟨is, his, _, -, _, -, -, -, rfl⟩ := h
    obtain ⟨a, ha, haid, -⟩ := haccount
    exact ⟨⟨rfl, rfl, rfl⟩, ⟨a, ha, haid⟩, parseIdentifiers_wellFormed his⟩
  | challenge challengeId payload outcome =>
    simp only [Pc.route, Pc.challengeResource, bind_eq_ok] at h
    obtain ⟨c, -, a, -, o, -, h⟩ := h
    split_ifs at h
    · simp only [bind_eq_ok, pure_eq_ok] at h
      obtain ⟨starts, -, rfl⟩ := h
      cases starts <;> exact ⟨⟨rfl, rfl, rfl⟩, trivial⟩
    · cases h
      exact ⟨⟨rfl, rfl, rfl⟩, trivial⟩
  | finalize orderId csr =>
    simp only [Pc.route, Pc.finalizeOrder, bind_eq_ok] at h
    obtain ⟨order, horder, h⟩ := h
    obtain ⟨hrow, howner⟩ := ownedOrder_eq_ok horder
    obtain ⟨hmem, -⟩ := Table.get?_eq_some.1 hrow
    split_ifs at h
    · cases h
      exact ⟨⟨rfl, rfl, rfl⟩, trivial⟩
    · simp only [Pc.checkFinalize, bind_eq_ok, refuse_eq_ok, pure_eq_ok] at h
      obtain ⟨-, hready, der, -, request, -, ⟨⟩, hcsr, rfl⟩ := h
      exact ⟨⟨rfl, rfl, rfl⟩, haccount, ⟨order, hmem, rfl, howner, rfl⟩,
        allValid_of_ready (not_not.1 hready), request, hcsr⟩
  | deactivate =>
    cases h
    exact ⟨⟨rfl, rfl, rfl⟩, trivial⟩

/-- A task that looks at its challenge finds it processing, and its authorization. -/
theorem goodAt_ofChallenge {challengeId : Str} {outcome : Outcome} (hinv : Inv db)
    (h : Processing db challengeId) :
    ∃ authz, Pc.ofChallenge challengeId outcome db = .record challengeId authz outcome ∧
      GoodAt db (.record challengeId authz outcome) := by
  obtain ⟨c, hc, rfl, hstatus⟩ := h
  obtain ⟨a, ha, hproves, -⟩ := hinv.authorization c hc
  have hget : db.challenges.get? c.id = some c := Table.get?_key hc
  have hauthz : db.authorizations.get? c.authzId = some a :=
    Table.get?_eq_some.2 ⟨ha, hproves.authzId.symm⟩
  refine ⟨a, ?_, c, hc, rfl, hstatus, hproves.authzId⟩
  simp [Pc.ofChallenge, hget, hstatus, hauthz]

/-- What a query finds. -/
theorem goodAt_select {f : AcmeDb → Call} (hinv : Inv db) (h : GoodAt db pc)
    (hn : pc.stmt E = .select f) :
    ∃ pc', f db = .run pc' ∧ GoodAt db pc' ∧ ∀ r, (Call.run pc').Has r → (Call.run pc).Has r := by
  have hfree : ∀ {pc' : Pc}, pc'.Free → ∀ r, (Call.run pc').Has r → (Call.run pc).Has r :=
    fun {pc'} hf r hr => absurd hr (Call.not_has_of_free (c := .run pc') hf hf.2.1 r)
  cases pc with
  | request d accountId r =>
    cases hn
    refine ⟨_, rfl, ?_⟩
    cases hget : db.accounts.get? accountId with
    | none => exact ⟨trivial, hfree ⟨rfl, rfl, rfl⟩⟩
    | some account =>
      simp only [Pc.ofAccount]
      split_ifs
      · exact ⟨⟨account, (Table.get?_eq_some.1 hget).1, rfl, rfl⟩, hfree ⟨rfl, rfl, rfl⟩⟩
      · exact ⟨trivial, hfree ⟨rfl, rfl, rfl⟩⟩
  | verified d account r =>
    cases hn
    refine ⟨_, rfl, ?_⟩
    cases hroute : Pc.route E d account db r with
    | error e => exact ⟨trivial, hfree ⟨rfl, rfl, rfl⟩⟩
    | ok pc' =>
      obtain ⟨hf, hgood⟩ := route_cases hroute h
      exact ⟨hgood, hfree hf⟩
  | validate challengeId outcome =>
    cases hn
    obtain ⟨authz, heq, hgood⟩ : ∃ authz, Pc.ofChallenge challengeId outcome db =
        .record challengeId authz outcome ∧ GoodAt db (.record challengeId authz outcome) :=
      goodAt_ofChallenge hinv h
    refine ⟨_, rfl, by rw [heq]; exact hgood, fun r hr => ?_⟩
    rw [heq] at hr
    cases r <;> exact hr
  | _ => cases hn

/-! ### Issuance -/

/-- The certificate that is issued on a ready order is for the order. -/
theorem attachable_of_issue {d : Draw} {account : AcmeAccount} {order : AcmeOrder} {der : CsrDer}
    {ca : Db} {issued : Certs.Issued} (hinv : Inv db) (hready : Ready db account order)
    (hclaimed : Claimed db order.id)
    (h : Certs.signCsrAndStore E d db.ca .acme der.parsed .server Leaf.defaultDays
      (Pc.csrOptions order.identifiers) (some account.issuerId) .acme = .ok (ca, issued)) :
    Write E db.ca ca ∧ issued.row.id = db.ca.certificates.nextId ∧
      Attachable { db with ca } order.id issued.row.id := by
  obtain ⟨issuer, hissuer, hresolved, hid, hsigned, hserial, rfl, explicit, fromCsr, cn, resolved,
    key, publicKey, he, hr, hleaf⟩ := signCsrAndStore_spec h
  have hwrite : Write E db.ca { db.ca with certificates := db.ca.certificates.upsert issued.row } :=
    .leaf hissuer hid hsigned hserial
  refine ⟨hwrite, hid, hclaimed, fun o ho hc => ?_, fun o ho hoid => ?_⟩
  · -- A certificate that is named was there before.
    obtain ⟨-, c, hmem, hcid, -⟩ := hinv.fulfils o ho _ hc
    have hlt : c.id < db.ca.certificates.nextId := Table.lt_nextId hmem
    rw [hcid, hid] at hlt
    exact absurd hlt (lt_irrefl _)
  · obtain ⟨hregistered, ⟨x, hx, hxid, haccount, his⟩, hall, csr, hcsr⟩ := hready
    obtain rfl : x = o := Table.eq_of_key hx ho (hxid.trans hoid.symm)
    obtain ⟨is, hne, hwf, heq, -⟩ := hinv.identifiers x hx
    obtain ⟨names, critical, hnames, hext⟩ := hleaf.names
    rw [his] at heq
    rw [heq] at hcsr
    have hsan := names_of_order hne hwf hcsr
      (by simpa [Pc.csrOptions, heq] using he) hr hnames
    obtain ⟨a, ha, haid, hissuerId⟩ := hregistered
    refine ⟨hoid ▸ hall, issued.row, Table.mem_upsert.2 (.inl rfl), rfl,
      ⟨_, critical, hext, ?_⟩, a, ha, haid.trans haccount.symm, ?_⟩
    · rw [his, heq]
      exact hsan
    · rw [hsigned.issuerId, (resolveGrantedIssuer_mem hresolved).2 _ rfl, hissuerId]

/-! ### Writes -/

/-- No call has the resource. -/
def Unowned (db : AcmeDb) : Resource → Prop
  | .task challengeId => ∃ c ∈ db.challenges, c.id = challengeId ∧ c.status = .pending
  | .order orderId => ∃ o ∈ db.orders, o.id = orderId ∧ o.certificateId = none ∧
    (o.status = .pending ∨ o.status = .ready)
  | .certificate certificateId => certificateId = db.ca.certificates.nextId

theorem not_has_of_unowned {r : Resource} (hinv : Inv db) (h : GoodAt db pc) (hr : Unowned db r) :
    ¬ (Call.run pc).Has r := by
  intro hhas
  cases r with
  | task challengeId =>
    obtain ⟨c, hc, hid, hpending⟩ := hr
    have hrow : ∀ x ∈ db.challenges, x.id = challengeId → x.status = .pending := by
      intro x hx hxid
      rw [Table.eq_of_key hx hc (hxid.trans hid.symm), hpending]
    cases pc with
    | validate id outcome | lost id =>
      cases hhas
      obtain ⟨x, hx, hxid, hstatus⟩ := h
      simp [hrow x hx hxid] at hstatus
    | record id authz outcome =>
      cases hhas
      obtain ⟨x, hx, hxid, hstatus, -⟩ := h
      simp [hrow x hx hxid] at hstatus
    | recorded id =>
      cases hhas
      obtain ⟨x, hx, hxid, hstatus⟩ := h
      simp [hrow x hx hxid] at hstatus
    | _ => cases hhas
  | order orderId =>
    obtain ⟨o, ho, hid, hnone, hfree⟩ := hr
    have hclaimed : ¬ Claimed db orderId := by
      rintro ⟨x, hx, hxid, hstatus, -⟩
      obtain rfl := Table.eq_of_key hx ho (hxid.trans hid.symm)
      simp [hstatus] at hfree
    cases pc with
    | issue d account order der =>
      cases hhas
      exact hclaimed h.2
    | release id e | stranded id =>
      cases hhas
      exact hclaimed h
    | attach id certificateId | orphaned id certificateId =>
      cases hhas
      exact hclaimed h.claimed
    | attached id certificateId =>
      cases hhas
      obtain ⟨x, hx, hxid, hcertificate⟩ := h
      obtain rfl := Table.eq_of_key hx ho (hxid.trans hid.symm)
      simp [hnone] at hcertificate
    | _ => cases hhas
  | certificate certificateId =>
    obtain rfl : certificateId = db.ca.certificates.nextId := hr
    have hstored : ∀ o, ¬ Fulfils db o db.ca.certificates.nextId := by
      rintro o ⟨-, c, hc, hid, -⟩
      exact absurd hid (Table.lt_nextId hc).ne
    cases pc with
    | attach id c | orphaned id c =>
      cases hhas
      obtain ⟨o, ho, hid, -⟩ := h.claimed
      exact hstored o (h.fulfils o ho hid)
    | attached id c =>
      cases hhas
      obtain ⟨o, ho, -, hcertificate⟩ := h
      exact hstored o (hinv.fulfils o ho _ hcertificate)
    | _ => cases hhas

/-- What a write leads to, and that what the call gets by it nobody has. -/
theorem good_write {run : AcmeDb → AcmeDb × Call} {busy : Call} (hinv : Inv db) (h : GoodAt db pc)
    (hn : pc.stmt E = .write run busy) :
    Good E db (some (run db).1) (run db).2 ∧
      ∀ r, (run db).2.Has r → (Call.run pc).Has r ∨ Unowned db r := by
  have hsame : ∀ {c : Call}, (∀ r, c.Has r → (Call.run pc).Has r) →
      ∀ r, c.Has r → (Call.run pc).Has r ∨ Unowned db r := fun hsub r hr => .inl (hsub r hr)
  cases pc with
  | createOrder accountId is notBefore notAfter moment draw =>
    cases hn
    obtain ⟨haccount, hne, hwf⟩ := h
    simp only [Pc.runCreateOrder]
    split
    · rename_i db' hnew
      exact ⟨⟨hinv, db', rfl, .newOrder haccount hne hwf hnew, trivial⟩,
        fun r hr => by cases r <;> cases hr⟩
    · exact ⟨⟨hinv, trivial⟩, fun r hr => by cases r <;> cases hr⟩
  | beginChallenge challengeId outcome =>
    cases hn
    simp only [Pc.runBegin]
    split_ifs with hclaim
    · obtain ⟨c, hc, hid, hpending⟩ := claimChallenge_eq_true.1 hclaim
      refine ⟨⟨hinv, _, rfl, .beginChallenge hclaim, ?_⟩, fun r hr => ?_⟩
      · exact ⟨_, mem_claimChallenge.2 ⟨c, hc, rfl⟩, by simp [hid, hpending], by simp [hid, hpending]⟩
      · cases r with
        | task id =>
          cases hr
          exact .inr ⟨c, hc, hid, hpending⟩
        | _ => cases hr
    · rw [claimChallenge_eq_self (by simpa using hclaim)]
      exact ⟨⟨hinv, db, rfl, .same, trivial⟩, fun r hr => by cases r <;> cases hr⟩
  | record challengeId authz outcome =>
    cases hn
    refine ⟨⟨hinv, _, rfl, .record h, ?_⟩, hsame fun r hr => by cases r <;> exact hr⟩
    obtain ⟨c, hc, hid, hstatus, -⟩ := h
    cases outcome with
    | success now => exact ⟨_, mem_recordChallengeSuccess.2 ⟨c, hc, rfl⟩, by simp [hid]⟩
    | refused error => exact ⟨_, mem_recordChallengeFailure.2 ⟨c, hc, rfl⟩, by simp [hid, hstatus]⟩
    | crashed name => exact ⟨_, mem_recordChallengeFailure.2 ⟨c, hc, rfl⟩, by simp [hid, hstatus]⟩
  | claim d account order der =>
    cases hn
    simp only [Pc.runClaim]
    split_ifs with hclaim
    · obtain ⟨o, ho, hid, hnone, hfree⟩ := claimForIssuance_eq_true.1 hclaim
      refine ⟨⟨hinv, _, rfl, .claim hclaim, extends_claimForIssuance.ready h, ?_⟩, fun r hr => ?_⟩
      · exact ⟨_, mem_claimForIssuance.2 ⟨o, ho, rfl⟩, by simp [hid, hnone, hfree]⟩
      · cases r with
        | order id =>
          cases hr
          exact .inr ⟨o, ho, hid, hnone, hfree⟩
        | _ => cases hr
    · rw [claimForIssuance_eq_self (by simpa using hclaim)]
      exact ⟨⟨hinv, db, rfl, .same, trivial⟩, fun r hr => by cases r <;> cases hr⟩
  | issue d account order der =>
    cases hn
    obtain ⟨hready, hclaimed⟩ := h
    simp only [Pc.runIssue]
    split
    · rename_i ca issued hissue
      obtain ⟨hwrite, hid, hattachable⟩ := attachable_of_issue hinv hready hclaimed hissue
      refine ⟨⟨hinv, _, rfl, .issue hwrite, hattachable⟩, fun r hr => ?_⟩
      cases r with
      | task id => cases hr
      | order id => exact .inl hr
      | certificate id =>
        cases hr
        exact .inr hid
    · exact ⟨⟨hinv, hclaimed⟩, hsame fun r hr => by cases r <;> exact hr⟩
  | release orderId e =>
    cases hn
    exact ⟨⟨hinv, _, rfl, .release h, trivial⟩, hsame fun r hr => by cases r <;> exact hr⟩
  | attach orderId certificateId =>
    cases hn
    obtain ⟨hclaimed, hunnamed, hfulfils⟩ := h
    refine ⟨⟨hinv, _, rfl, .attach hclaimed hunnamed hfulfils, ?_⟩,
      hsame fun r hr => by cases r <;> exact hr⟩
    obtain ⟨o, ho, hid, -⟩ := hclaimed
    exact ⟨_, mem_attachCertificate.2 ⟨o, ho, rfl⟩, by simp [hid], by simp [hid]⟩
  | deactivate accountId =>
    cases hn
    exact ⟨⟨hinv, _, rfl, .deactivate, trivial⟩, fun r hr => by cases r <;> cases hr⟩
  | authority d op =>
    cases hn
    have hwrite : Write E db.ca (op.run E d db.ca).1 := caMachine_step (a := (op, d)) rfl
    exact ⟨⟨hinv, _, rfl, .authority hwrite, trivial⟩, fun r hr => by cases r <;> cases hr⟩
  | _ => cases hn

/-- How a call goes on that gives up waiting for the lock. -/
theorem good_giveUp {run : AcmeDb → AcmeDb × Call} {busy : Call} (hinv : Inv db) (h : GoodAt db pc)
    (hn : pc.stmt E = .write run busy) :
    Good E db none busy ∧ ∀ r, busy.Has r → (Call.run pc).Has r := by
  cases pc with
  | record challengeId authz outcome =>
    cases hn
    obtain ⟨c, hc, hid, hstatus, -⟩ := h
    exact ⟨⟨hinv, rfl, c, hc, hid, hstatus⟩, fun r hr => by cases r <;> exact hr⟩
  | issue d account order der =>
    cases hn
    exact ⟨⟨hinv, h.2⟩, fun r hr => by cases r <;> exact hr⟩
  | release orderId e =>
    cases hn
    exact ⟨⟨hinv, rfl, h⟩, fun r hr => by cases r <;> exact hr⟩
  | attach orderId certificateId =>
    cases hn
    exact ⟨⟨hinv, rfl, h⟩, fun r hr => by cases r <;> exact hr⟩
  | createOrder | beginChallenge | claim | deactivate | authority =>
    cases hn
    exact ⟨⟨hinv, rfl, trivial⟩, fun r hr => by cases r <;> cases hr⟩
  | _ => cases hn

/-! ### The argument -/

theorem stmt_ne_commit {l : Call} : pc.stmt E ≠ .commit l := by
  cases pc <;> exact (nomatch ·)

theorem stmt_ne_rollback {l : Call} : pc.stmt E ≠ .rollback l := by
  cases pc <;> exact (nomatch ·)

theorem next_eq_commit {l l' : Call} (h : l.next E = .commit l') : ∃ pc, l = .commit pc ∧ l' = .run pc := by
  cases l with
  | run pc => exact absurd h stmt_ne_commit
  | commit pc =>
    cases h
    exact ⟨pc, rfl, rfl⟩
  | rollback pc => cases h

theorem next_eq_rollback {l l' : Call} (h : l.next E = .rollback l') :
    ∃ pc, l = .rollback pc ∧ l' = .run pc := by
  cases l with
  | run pc => exact absurd h stmt_ne_rollback
  | commit pc => cases h
  | rollback pc =>
    cases h
    exact ⟨pc, rfl, rfl⟩

theorem next_eq_select {l : Call} {f : AcmeDb → Call} (h : l.next E = .select f) :
    ∃ pc, l = .run pc ∧ pc.stmt E = .select f := by
  cases l with
  | run pc => exact ⟨pc, rfl, h⟩
  | commit pc | rollback pc => cases h

theorem next_eq_write {l busy : Call} {run : AcmeDb → AcmeDb × Call}
    (h : l.next E = .write run busy) : ∃ pc, l = .run pc ∧ pc.stmt E = .write run busy := by
  cases l with
  | run pc => exact ⟨pc, rfl, h⟩
  | commit pc | rollback pc => cases h

/-- A call without the lock relies on the invariant and on what holds at its place. -/
theorem good_none {l : Call} (h : Good E db none l) :
    Inv db ∧ GoodAt db l.pc ∧ ∀ r, l.Has r ↔ (Call.run l.pc).Has r := by
  cases l with
  | run pc => exact ⟨h.1, h.2.2, fun _ => .rfl⟩
  | commit pc =>
    obtain ⟨-, w, hw, -⟩ := h
    cases hw
  | rollback pc => exact ⟨h.1, h.2, fun r => by cases r <;> exact .rfl⟩

theorem good_stable {l : Call} (h : Good E db none l) (hinv : Inv db')
    (hc : Change E db pc' db') (hapart : (Call.commit pc').Apart l) : Good E db' none l := by
  obtain ⟨-, hgood, hhas⟩ := good_none h
  have hgood' := goodAt_stable hc (fun r hr hr' => hapart r hr ((hhas r).2 hr')) hgood
  cases l with
  | run pc => exact ⟨hinv, rfl, hgood'⟩
  | commit pc =>
    obtain ⟨-, w, hw, -⟩ := h
    cases hw
  | rollback pc => exact ⟨hinv, hgood'⟩

/-- A move of a call gives it nothing new. -/
theorem has_of_moves {h : Option AcmeDb} {l l' : Call} (hgood : Good E db h l)
    (hmove : (l.next E).Moves (h.getD db) l') : ∀ r, l'.Has r → l.Has r := by
  intro r hr
  generalize hn : l.next E = stmt at hmove
  cases hmove with
  | select =>
    obtain ⟨pc, rfl, hstmt⟩ := next_eq_select hn
    obtain ⟨hinv, rfl, hgoodAt⟩ := hgood
    obtain ⟨pc', heq, -, hsub⟩ := goodAt_select hinv hgoodAt hstmt
    rw [show (none.getD db) = db from rfl, heq] at hr
    exact hsub r hr
  | giveUp =>
    obtain ⟨pc, rfl, hstmt⟩ := next_eq_write hn
    obtain ⟨hinv, -, hgoodAt⟩ := hgood
    exact (good_giveUp hinv hgoodAt hstmt).2 r hr
  | commit =>
    obtain ⟨pc, rfl, rfl⟩ := next_eq_commit hn
    cases r with
    | order id =>
      -- Only the claim that was taken off is gone.
      cases pc <;> first | exact hr | cases hr
    | _ => exact hr
  | rollback =>
    obtain ⟨pc, rfl, rfl⟩ := next_eq_rollback hn
    cases r <;> exact hr

/-- The calls of the ACME server, in any order of their turns. -/
def acmeDiscipline (E : Crypto) : Discipline (Call.next E) fun _ _ => True where
  Good := Good E
  Apart := Call.Apart
  Commits db db' := ∃ pc, Change E db pc db'
  symm := Call.Apart.symm
  stable hl hm hapart hn := by
    obtain ⟨pc, rfl, -⟩ := next_eq_commit hn
    obtain ⟨hinv, w, hw, hc, -⟩ := hm
    obtain rfl := Option.some.inj hw
    exact good_stable hl (hinv.of_change hc) hc hapart
  select hl hn _ := by
    obtain ⟨pc, rfl, hstmt⟩ := next_eq_select hn
    obtain ⟨hinv, rfl, hgood⟩ := hl
    obtain ⟨pc', heq, hgood', -⟩ := goodAt_select hinv hgood hstmt
    rw [Option.getD_none, heq]
    exact ⟨hinv, rfl, hgood'⟩
  write hl hn _ := by
    obtain ⟨pc, rfl, hstmt⟩ := next_eq_write hn
    obtain ⟨hinv, rfl, hgood⟩ := hl
    exact (good_write hinv hgood hstmt).1
  giveUp hl hn := by
    obtain ⟨pc, rfl, hstmt⟩ := next_eq_write hn
    obtain ⟨hinv, -, hgood⟩ := hl
    exact (good_giveUp hinv hgood hstmt).1
  commit hl hn _ := by
    obtain ⟨pc, rfl, rfl⟩ := next_eq_commit hn
    obtain ⟨hinv, w, hw, hc, hgood⟩ := hl
    obtain rfl := Option.some.inj hw
    exact ⟨⟨pc, hc⟩, hinv.of_change hc, rfl, hgood⟩
  commitNone hl hn := by
    obtain ⟨pc, rfl, -⟩ := next_eq_commit hn
    obtain ⟨-, w, hw, -⟩ := hl
    cases hw
  rollback hl hn := by
    obtain ⟨pc, rfl, rfl⟩ := next_eq_rollback hn
    exact ⟨hl.1, rfl, hl.2⟩
  apart hl _ hapart hmove := hapart.mono (has_of_moves hl hmove)
  apartWrite hl hm hapart hn := by
    obtain ⟨pc, rfl, hstmt⟩ := next_eq_write hn
    obtain ⟨hinv, rfl, hgood⟩ := hl
    obtain ⟨-, hother, hhas⟩ := good_none hm
    intro r hr hr'
    rcases (good_write hinv hgood hstmt).2 r hr with hold | hnew
    · exact hapart r hold hr'
    · exact not_has_of_unowned hinv hother hnew ((hhas r).1 hr')

/-! ### Every run -/

section runs

variable {ca : Db} {accounts : Table AcmeAccount} {calls : List Incoming}
  {s s' : Sessions AcmeDb Call}

theorem start_free (i : Incoming) : i.start.pc.Free ∧ i.start.order? = none ∧
    ∀ db, Inv db → Good E db none i.start := by
  cases i with
  | request | authority => exact ⟨⟨rfl, rfl, rfl⟩, rfl, fun _ hinv => ⟨hinv, rfl, trivial⟩⟩

theorem allGood_start : (acmeDiscipline E).AllGood (serverStart ca accounts calls) := by
  have hstart : ∀ (k : ℕ) (l : Call), (serverStart ca accounts calls).calls[k]? = some l →
      ∃ i : Incoming, i.start = l := by
    intro k l hl
    obtain ⟨i, -, rfl⟩ := List.mem_map.1 (List.mem_of_getElem? hl)
    exact ⟨i, rfl⟩
  constructor
  · intro k l hl
    obtain ⟨i, rfl⟩ := hstart k l hl
    exact (start_free i).2.2 _ (.of_empty ca accounts)
  · intro j k l m _ hl hm
    obtain ⟨i, rfl⟩ := hstart j l hl
    obtain ⟨hfree, horder, -⟩ := start_free (E := E) i
    exact fun r hr => absurd hr (Call.not_has_of_free hfree horder r)

theorem careful_of_reachable (h : (acmeCalls E).Reachable s s') :
    (acmeCalls E).Reach (Sessions.Careful fun _ _ => True) s s' :=
  h.mono fun _ t _ => by cases t <;> simp [Sessions.Careful]

/-- In every run every call can rely on what it relies on, and the calls are apart. -/
theorem allGood_of_reachable (h : (acmeCalls E).Reachable (serverStart ca accounts calls) s) :
    (acmeDiscipline E).AllGood s :=
  Discipline.allGood_of_reach (careful_of_reachable h) allGood_start

/-- In every run the tables keep their invariant. -/
theorem inv_of_reachable (h : (acmeCalls E).Reachable (serverStart ca accounts calls) s) :
    Inv s.committed := by
  refine Discipline.rel_of_reach (P := acmeDiscipline E) (R := fun a b => Inv a → Inv b)
    (careful_of_reachable h) allGood_start (fun _ => id) (fun _ _ _ hab hbc ha => hbc (hab ha)) ?_
    (.of_empty ca accounts)
  rintro db db' ⟨pc, hc⟩ hinv
  exact hinv.of_change hc

/-- In every run what is committed goes on. -/
theorem extends_of_reachable (hs : (acmeDiscipline E).AllGood s) (h : (acmeCalls E).Reachable s s') :
    Extends s.committed s'.committed :=
  Discipline.rel_of_reach (careful_of_reachable h) hs Extends.refl (fun _ _ _ => .trans)
    fun _ _ ⟨_, hc⟩ => extends_of_change hc

end runs

end Acme

end Cabin
