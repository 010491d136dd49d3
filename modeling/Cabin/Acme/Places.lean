import Cabin.Acme.OwnRows

/-!
# Where a request is

A request that is verified goes from place to place, and what it works on at each of them is its
account's.  It gets there by looking (`rightful_of_select`), by a write (`rightful_of_placeWrite`), or
because a write is refused or it gives up (`rightful_of_refused`); and it stays so under the writes of
the others (`Place.Rightful.kept`).

* `Place.Rightful` says what a request relies on at a place, `Place.Holds` what it has for itself;
* `PlaceWrite` is what it writes, `untouched_of_placeWrite` what that leaves alone.
-/

namespace Cabin

namespace Acme

open X509

/-! ### What a request relies on -/

/-- Where an order resource gets what it answers from, once it is through. -/
def Pc.Answers (db : AcmeDb) (r : KidRequest) (accountId : Str) : Pc → Prop
  | .createOrder _ _ _ _ _ draw => ∃ identifiers notBefore notAfter,
    r.route = .newOrder identifiers notBefore notAfter draw
  | .record .. => False
  | _ => r.Answerable db accountId

/-- What a request relies on at a place. -/
def Place.Rightful (db : ServerDb) (r : KidRequest) : Place → Prop
  | .ordering account pc =>
    Acme.Rightful db.toAcmeDb account.id pc ∧ pc.Answers db.toAcmeDb r account.id
  | .validating account _ pc => Acme.Rightful db.toAcmeDb account.id pc
  | .revoking account certificateId _ => OwnsCertificate db.toAcmeDb account.id certificateId
  | .maintaining account place => place.IsOf account.id
  | _ => True

/-! ### The account of a request -/

section stays

variable {E : Crypto} {K : Keyring} {r : KidRequest} {account : AcmeAccount}

theorem account?_orRefuse {x : Except Raised Place}
    (h : ∀ place, x = .ok place → place.account? = some account.id) :
    (Place.orRefuse account x).account? = some account.id := by
  cases x with
  | ok place => exact h place rfl
  | error e => rfl

theorem account?_ofPc (pc : Pc) : (Place.ofPc account pc).account? = some account.id := by
  cases pc <;> rfl

theorem account?_ofAccountPlace (p : AccountPlace) :
    (Place.ofAccountPlace account p).account? = some account.id := by
  cases p <;> rfl

theorem account?_ofAnswer {next : Answer → Place} (h : ∀ a, (next a).account? = some account.id)
    (answer : Option Answer) : (Place.ofAnswer account next answer).account? = some account.id := by
  cases answer with
  | some answer => exact h answer
  | none => rfl

theorem account?_withChains {db : ServerDb} {row : Certificate} {now : ℤ}
    {next : Service.ChainSet → Place} (h : ∀ chains, (next chains).account? = some account.id) :
    (Place.withChains db account row now next).account? = some account.id := by
  unfold Place.withChains
  split
  · rfl
  · split_ifs <;> rfl
  · exact h _

theorem account?_dispatch (payload : Option Json) (db : ServerDb) :
    (Place.dispatch E K r account payload db).account? = some account.id := by
  obtain ⟨d, post, route⟩ := r
  cases route with
  | newOrder =>
    simp only [Place.dispatch]
    split_ifs
    · rfl
    · exact account?_ofPc _
  | order | authz | orders =>
    refine account?_orRefuse fun place h => ?_
    simp only [bind_eq_ok, pure_eq_ok] at h
    obtain ⟨answer, -, rfl⟩ := h
    rfl
  | challenge | finalize => exact account?_ofPc _
  | certificate certId =>
    refine account?_orRefuse fun place h => ?_
    simp only [Place.certificateResource, bind_eq_ok, pure_eq_ok] at h
    obtain ⟨-, -, row, -, rfl⟩ := h
    exact account?_withChains fun chains => rfl
  | alternate certId anchorId =>
    refine account?_orRefuse fun place h => ?_
    simp only [Place.certificateAlternate, bind_eq_ok, pure_eq_ok] at h
    obtain ⟨-, -, row, -, anchor, -, rfl⟩ := h
    refine account?_withChains fun chains => ?_
    cases chains.byAnchor anchor <;> rfl
  | revokeCert =>
    refine account?_orRefuse fun place h => ?_
    simp only [Place.revokeCert, bind_eq_ok, pure_eq_ok] at h
    obtain ⟨-, -, submitted, -, reason, -, row, -, rfl⟩ := h
    rfl
  | account | keyChange => exact account?_ofAccountPlace _

theorem runRevoke_eq (E : Crypto) (d : Draw) (account : AcmeAccount) (certificateId : ℕ)
    (reason : RevocationReason) (db : ServerDb) :
    Place.runRevoke E d account certificateId reason db =
      match ((Op.revokeCertificate .acme certificateId reason none).run E d db.ca).2 with
      | .ok _ => .ok
        ({ db with ca := ((Op.revokeCertificate .acme certificateId reason none).run E d db.ca).1 },
          .answered account .revoked)
      | .error e => .error (.refused (some account) (revokeProblem e)) := by
  unfold Place.runRevoke
  generalize (Op.revokeCertificate .acme certificateId reason none).run E d db.ca = out
  obtain ⟨ca, out⟩ := out
  cases out <;> rfl

theorem runRevoke_cases (E : Crypto) (d : Draw) (account : AcmeAccount) (certificateId : ℕ)
    (reason : RevocationReason) (db : ServerDb) :
    Place.runRevoke E d account certificateId reason db =
      .ok ({ db with ca := ((Op.revokeCertificate .acme certificateId reason none).run E d db.ca).1 },
        .answered account .revoked) ∨
    ∃ e, Place.runRevoke E d account certificateId reason db =
      .error (.refused (some account) (revokeProblem e)) := by
  rw [runRevoke_eq]
  cases ((Op.revokeCertificate .acme certificateId reason none).run E d db.ca).2 with
  | ok u => exact .inl rfl
  | error e => exact .inr ⟨e, rfl⟩

/-- A request is for one account. -/
theorem account?_of_leads {A : Str} {place place' : Place} (hA : place.account? = some A)
    (hleads : (place.act E K r).Leads place') : place'.account? = some A := by
  cases place with
  | start => cases hA
  | verified account payload =>
    cases hA
    cases hleads
    exact account?_dispatch payload _
  | ordering account pc =>
    cases hA
    cases pc with
    | validate | returned | attached =>
      cases hleads
      exact account?_ofAnswer (fun _ => rfl) _
    | _ =>
      simp only [Place.act] at hleads
      obtain ⟨pc', -, rfl⟩ := Action.leads_of_zoom hleads
      exact account?_ofPc pc'
  | validating account answer pc =>
    obtain ⟨pc', -, rfl⟩ := Action.leads_of_zoom hleads
    exact hA
  | revoking account certificateId reason =>
    cases hA
    cases hleads with
    | giveUp => rfl
    | @write _ _ db db' _ hrun =>
      rcases runRevoke_cases E r.draw account certificateId reason db with h | ⟨e, h⟩
      · cases h.symm.trans hrun
        rfl
      · cases h.symm.trans hrun
    | @refused _ _ db _ hrun =>
      rcases runRevoke_cases E r.draw account certificateId reason db with h | ⟨e, h⟩
      · cases h.symm.trans hrun
      · cases h.symm.trans hrun
        rfl
  | maintaining account p =>
    cases hA
    cases p with
    | answered =>
      cases hleads
      rfl
    | _ =>
      simp only [Place.act] at hleads
      obtain ⟨p', -, rfl⟩ := Action.leads_of_zoom hleads
      exact account?_ofAccountPlace p'
  | answered | refused | endless => cases hleads

end stays

/-! ### What a request writes -/

/-- What a request writes and commits at a place, and where it goes on. -/
inductive PlaceWrite (E : Crypto) (db : ServerDb) : Place → ServerDb → Place → Prop
  | ordering {account pc pc' w} (h : OrderWrite E db.toAcmeDb pc w pc') :
      PlaceWrite E db (.ordering account pc) (db.withOrders w) (.ofPc account pc')
  | validating {account answer pc pc' w} (h : OrderWrite E db.toAcmeDb pc w pc') :
      PlaceWrite E db (.validating account answer pc) (db.withOrders w) (.validating account answer pc')
  | revoking {account certificateId reason ca}
      (h : ca.certificates = db.ca.certificates ∨ ∃ moment,
        ca.certificates = Crl.mark db.ca.certificates certificateId moment reason) :
      PlaceWrite E db (.revoking account certificateId reason) { db with ca } (.answered account .revoked)
  | maintaining {account place id row f} {hf : ∀ a, key (f a) = key a} (hid : id = account.id)
      (hrow : row.id = account.id) :
      PlaceWrite E db (.maintaining account place) (db.withAccounts (db.accountDb.updateAccount id f hf))
        (.maintaining account (.answered 200 row))

section writes

variable {E : Crypto} {K : Keyring} {r : KidRequest} {db db' : ServerDb} {place place' busy : Place}
  {run : ServerDb → Except Place (ServerDb × Place)}

theorem placeWrite_of_act (hact : place.act E K r = .write run busy) (hrun : run db = .ok (db', place'))
    (h : place.Rightful db r) : PlaceWrite E db place db' place' := by
  cases place with
  | ordering account pc =>
    have hzoom : ∃ run' busy', pc.act E = .write run' busy' ∧ ∃ w pc',
        run' db.toAcmeDb = .ok (w, pc') ∧ db' = db.withOrders w ∧ place' = .ofPc account pc' := by
      cases pc with
      | validate | returned | attached => cases hact
      | _ =>
        simp only [Place.act] at hact
        obtain ⟨run', busy', hact', -, hok, -⟩ := Action.zoom_eq_write hact
        exact ⟨run', busy', hact', hok _ _ _ hrun⟩
    obtain ⟨run', busy', hact', w, pc', hrun', rfl, rfl⟩ := hzoom
    exact .ordering (orderWrite_of_act hact' hrun')
  | validating account answer pc =>
    obtain ⟨run', busy', hact', -, hok, -⟩ := Action.zoom_eq_write hact
    obtain ⟨w, pc', hrun', rfl, rfl⟩ := hok _ _ _ hrun
    exact .validating (orderWrite_of_act hact' hrun')
  | revoking account certificateId reason =>
    cases hact
    rcases runRevoke_cases E r.draw account certificateId reason db with hrevoke | ⟨e, hrevoke⟩
    · cases hrevoke.symm.trans hrun
      refine .revoking ?_
      rcases revokeCertificate_cases (E := E) (d := r.draw) db.ca .acme certificateId reason none with
        ⟨row, -, -, -, state, -, hout⟩ | ⟨row, -, -, -, hout⟩ | ⟨e, hout⟩
      · simp only [Op.run, hout]
        exact .inr ⟨_, rfl⟩
      · simp only [Op.run, hout]
        exact .inl rfl
      · simp only [Op.run, hout]
        exact .inl rfl
    · cases hrevoke.symm.trans hrun
  | maintaining account p =>
    have hzoom : ∃ run' busy', AccountPlace.maintenance p = .write run' busy' ∧ ∃ w p',
        run' db.accountDb = .ok (w, p') ∧ db' = db.withAccounts w ∧
          place' = .ofAccountPlace account p' := by
      cases p with
      | answered => cases hact
      | _ =>
        simp only [Place.act] at hact
        obtain ⟨run', busy', hact', -, hok, -⟩ := Action.zoom_eq_write hact
        exact ⟨run', busy', hact', hok _ _ _ hrun⟩
    obtain ⟨run', busy', hact', w, p', hrun', rfl, rfl⟩ := hzoom
    rcases (maintenance_cases (r := (.keyChange r.post : AccountRequest K.toJose)) db.accountDb
      hact').2 with ⟨w', q, hw, hwrite⟩ | ⟨q, hq, -⟩
    · cases hw.symm.trans hrun'
      cases hwrite with
      | deactivated | contacts | rotated => exact .maintaining h h
    · cases hq.symm.trans hrun'
  | _ => cases hact

/-- What a request has for itself. -/
def Place.Holds : Place → Resource → Prop
  | .ordering _ pc | .validating _ _ pc => pc.Holds
  | _ => fun _ => False

/-- What is not the account's is left as it is, with every external account key. -/
structure Untouched (accountId : Str) (db db' : ServerDb) : Prop
    extends Spares accountId db.toAcmeDb db'.toAcmeDb where
  eabKeys : db'.eabKeys = db.eabKeys

theorem Untouched.refl (accountId : Str) (db : ServerDb) : Untouched accountId db db :=
  ⟨.refl accountId db.toAcmeDb, rfl⟩

theorem untouched_of_placeWrite {A : Str} (hw : PlaceWrite E db place db' place')
    (h : place.Rightful db r) (hA : place.account? = some A) : Untouched A db db' := by
  cases hw with
  | ordering hw =>
    cases hA
    exact ⟨spares_of_orderWrite hw h.1, rfl⟩
  | validating hw =>
    cases hA
    exact ⟨spares_of_orderWrite hw h, rfl⟩
  | @revoking account certificateId reason ca hcertificates =>
    cases hA
    refine ⟨{ Spares.refl account.id db.toAcmeDb with certificate := fun c hc hnot => ?_ }, rfl⟩
    rcases hcertificates with hsame | ⟨moment, hmark⟩
    · exact hsame ▸ hc
    · -- The certificate that is marked is the account's.
      have hne : c.id ≠ certificateId := fun hid => hnot (hid ▸ h)
      exact hmark ▸ mem_mark.2 ⟨c, hc, if_neg hne⟩
  | @maintaining account p id row f hf hid =>
    cases hA
    subst hid
    refine ⟨{ Spares.refl account.id db.toAcmeDb with account := fun a ha hne => ?_ }, rfl⟩
    change a ∈ (db.accountDb.updateAccount account.id f hf).accounts
    exact AccountDb.mem_updateAccount.2 ⟨a, ha, if_neg hne⟩

/-- The certificates that are there stay. -/
theorem certificates_of_mark {ca ca' : Db} {certificateId : ℕ} {reason : RevocationReason}
    (h : ca'.certificates = ca.certificates ∨ ∃ moment,
      ca'.certificates = Crl.mark ca.certificates certificateId moment reason) :
    ∀ c ∈ ca.certificates, ∃ c' ∈ ca'.certificates, c'.id = c.id := by
  intro c hc
  rcases h with hsame | ⟨moment, hmark⟩
  · exact ⟨c, hsame ▸ hc, rfl⟩
  · refine ⟨_, hmark ▸ mem_mark.2 ⟨c, hc, rfl⟩, ?_⟩
    split_ifs <;> rfl

theorem sustains_of_placeWrite (hw : PlaceWrite E db place db' place') (h : place.Rightful db r) :
    Sustains place.Holds db.toAcmeDb db'.toAcmeDb := by
  cases hw with
  | ordering hw => exact sustains_of_orderWrite hw h.1
  | validating hw => exact sustains_of_orderWrite hw h
  | revoking hcertificates => exact sustains_of_eq rfl rfl rfl (certificates_of_mark hcertificates)
  | maintaining => exact sustains_of_eq rfl rfl rfl fun c hc => ⟨c, hc, rfl⟩

theorem named_of_placeWrite (hw : PlaceWrite E db place db' place') (h : place.Rightful db r)
    (hnamed : Named db.toAcmeDb) : Named db'.toAcmeDb := by
  cases hw with
  | ordering hw => exact named_of_orderWrite hw h.1 hnamed
  | validating hw => exact named_of_orderWrite hw h hnamed
  | revoking hcertificates => exact hnamed.kept rfl (certificates_of_mark hcertificates)
  | maintaining => exact hnamed.kept rfl fun c hc => ⟨c, hc, rfl⟩

/-- What a request relies on is kept by the writes of the others. -/
theorem Place.Rightful.kept {has : Resource → Prop} (h : place.Rightful db r)
    (hs : Sustains has db.toAcmeDb db'.toAcmeDb) (hapart : ∀ x, has x → ¬ place.Holds x) :
    place.Rightful db' r := by
  cases place with
  | ordering account pc =>
    refine ⟨h.1.kept hs hapart, ?_⟩
    have hanswers := h.2
    cases pc with
    | createOrder | record => exact hanswers
    | _ => exact KidRequest.Answerable.kept hanswers hs.toPersists
  | validating account answer pc => exact Acme.Rightful.kept h hs hapart
  | revoking account certificateId reason => exact hs.ownsCertificate h
  | maintaining account p => exact h
  | _ => trivial

theorem holds_of_ofPc {account : AcmeAccount} {pc : Pc} {x : Resource}
    (h : (Place.ofPc account pc).Holds x) : pc.Holds x := by
  cases pc with
  | raised | released | crashed | stranded | orphaned => exact h.elim
  | _ => exact h

/-- What a request has after a write it had before, or nobody else can have it. -/
theorem holds_of_placeWrite (hw : PlaceWrite E db place db' place') {x : Resource}
    (hx : place'.Holds x) :
    place.Holds x ∨ ∀ (r : KidRequest) (p : Place), p.Rightful db r → ¬ p.Holds x := by
  have hnobody : (∀ (A : Str) (pc : Pc), Rightful db.toAcmeDb A pc → ¬ pc.Holds x) →
      ∀ (r : KidRequest) (p : Place), p.Rightful db r → ¬ p.Holds x := by
    intro h r p hp
    cases p with
    | ordering account pc => exact h account.id pc hp.1
    | validating account answer pc => exact h account.id pc hp
    | _ => exact id
  cases hw with
  | ordering hw => exact (holds_of_orderWrite hw (holds_of_ofPc hx)).imp_right hnobody
  | validating hw => exact (holds_of_orderWrite hw hx).imp_right hnobody
  | revoking | maintaining => exact hx.elim

theorem rightful_ofPc {account : AcmeAccount} {pc : Pc} (h : Rightful db.toAcmeDb account.id pc)
    (hanswers : pc.Answers db.toAcmeDb r account.id) : (Place.ofPc account pc).Rightful db r := by
  cases pc with
  | raised | released | crashed | stranded | orphaned => trivial
  | _ => exact ⟨h, hanswers⟩

/-- Where a request goes on after a write, it works on what is the account's, too. -/
theorem rightful_of_placeWrite (hw : PlaceWrite E db place db' place') (hnamed : Named db.toAcmeDb)
    (h : place.Rightful db r) : place'.Rightful db' r := by
  cases hw with
  | @ordering account pc pc' w hw =>
    have hpersists := persists_of_orderWrite hw h.1
    refine rightful_ofPc (rightful_of_orderWrite hw hnamed h.1) ?_
    have hanswers := h.2
    cases hw with
    | createOrder hnew =>
      -- The order is the one that is answered with.
      obtain ⟨identifiers, notBefore, notAfter, hroute⟩ := hanswers
      obtain ⟨order, hid, howner, -, -, -, -, hgrown, -⟩ := createOrder_spec hnew
      have howns : OwnsOrder w account.id _ :=
        ⟨order, hgrown.orders ▸ Table.mem_upsert.2 (.inl rfl), hid, howner.trans h.1⟩
      simp only [Pc.Answers, KidRequest.Answerable, hroute]
      exact howns
    | record => exact hanswers.elim
    | deactivate | authority => exact h.1.elim
    | _ => exact KidRequest.Answerable.kept hanswers hpersists
  | validating hw => exact rightful_of_orderWrite hw hnamed h
  | revoking => trivial
  | maintaining hid hrow => exact hrow

end writes

/-! ### Where a request gets to by looking -/

/-- The request is where it should be, and has nothing for itself. -/
def Place.Free (db : ServerDb) (r : KidRequest) (place : Place) : Prop :=
  place.Rightful db r ∧ ∀ x, ¬ place.Holds x

section looking

variable {E : Crypto} {K : Keyring} {r : KidRequest} {db : ServerDb} {account : AcmeAccount}

theorem free_orRefuse {x : Except Raised Place} (h : ∀ place, x = .ok place → place.Free db r) :
    (Place.orRefuse account x).Free db r := by
  cases x with
  | ok place => exact h place rfl
  | error e => exact ⟨trivial, fun _ => id⟩

theorem free_orRaise {x : Except AcmeError Pc}
    (h : ∀ pc, x = .ok pc → (Place.ordering account pc).Free db r) :
    (Place.ofPc account (Pc.orRaise x)).Free db r := by
  cases x with
  | ok pc =>
    obtain ⟨⟨hpc, hanswers⟩, hfree⟩ := h pc rfl
    exact ⟨rightful_ofPc hpc hanswers, fun x hx => hfree x (holds_of_ofPc hx)⟩
  | error e => exact ⟨trivial, fun _ => id⟩

theorem free_ofAccountPlace {p : AccountPlace} (h : (∃ e, p = .raised e) ∨ p.IsOf account.id) :
    (Place.ofAccountPlace account p).Free db r := by
  rcases h with ⟨e, rfl⟩ | h
  · exact ⟨trivial, fun _ => id⟩
  · cases p with
    | raised e => exact h.elim
    | _ => exact ⟨h, fun _ => id⟩

theorem free_ofAnswer {next : Answer → Place} (h : ∀ a, (next a).Free db r) (answer : Option Answer) :
    (Place.ofAnswer account next answer).Free db r := by
  cases answer with
  | some answer => exact h answer
  | none => exact ⟨trivial, fun _ => id⟩

theorem free_withChains {row : Certificate} {now : ℤ} {next : Service.ChainSet → Place}
    (h : ∀ chains, (next chains).Free db r) :
    (Place.withChains db account row now next).Free db r := by
  unfold Place.withChains
  split
  · exact ⟨trivial, fun _ => id⟩
  · split_ifs <;> exact ⟨trivial, fun _ => id⟩
  · exact h _

theorem ownsOrder_of_ownedOrder {orderId : Str} {o : AcmeOrder}
    (h : ownedOrder account (db.orders.get? orderId) = .ok o) :
    o.id = orderId ∧ OwnsOrder db.toAcmeDb account.id orderId := by
  obtain ⟨hget, howner⟩ := ownedOrder_eq_ok h
  obtain ⟨ho, rfl⟩ := Table.get?_eq_some.1 hget
  exact ⟨rfl, o, ho, rfl, howner⟩

theorem found_eq_ok {α : Type} {what : String} {x : Option α} {a : α} :
    Pc.found what x = .ok a ↔ x = some a := by
  cases x <;> simp [Pc.found]

theorem ownsChallenge_of_challengeResource {d : Draw} {challengeId : Str} {payload : Bool}
    {outcome : Outcome} {pc : Pc}
    (h : Pc.challengeResource d account challengeId payload outcome db.toAcmeDb = .ok pc) :
    OwnsChallenge db.toAcmeDb account.id challengeId ∧
      (pc = .returned ∨ pc = .beginChallenge challengeId outcome) := by
  simp only [Pc.challengeResource, bind_eq_ok, found_eq_ok] at h
  obtain ⟨c, hchallenge, a, hauthz, o, horder, h⟩ := h
  obtain ⟨hc, rfl⟩ := Table.get?_eq_some.1 hchallenge
  obtain ⟨ha, hid⟩ := Table.get?_eq_some.1 hauthz
  obtain ⟨-, howns⟩ := ownsOrder_of_ownedOrder horder
  refine ⟨⟨c, hc, rfl, a, ha, hid, howns⟩, ?_⟩
  split_ifs at h
  · simp only [bind_eq_ok, pure_eq_ok] at h
    obtain ⟨starts, -, rfl⟩ := h
    cases starts
    · exact .inl rfl
    · exact .inr rfl
  · exact .inl (pure_eq_ok.1 h).symm

theorem ownsOrder_of_finalizeOrder {d : Draw} {orderId : Str} {csr : Option (Except AcmeError CsrDer)}
    {pc : Pc} (h : Pc.finalizeOrder E d account orderId csr db.toAcmeDb = .ok pc) :
    OwnsOrder db.toAcmeDb account.id orderId ∧
      (pc = .returned ∨ ∃ order der, order.id = orderId ∧ pc = .claim d account order der) := by
  simp only [Pc.finalizeOrder, bind_eq_ok] at h
  obtain ⟨order, horder, h⟩ := h
  obtain ⟨hid, howns⟩ := ownsOrder_of_ownedOrder horder
  refine ⟨howns, ?_⟩
  split_ifs at h
  · exact .inl (pure_eq_ok.1 h).symm
  · simp only [Pc.checkFinalize, bind_eq_ok, pure_eq_ok] at h
    obtain ⟨-, -, der, -, request, -, -, -, rfl⟩ := h
    exact .inr ⟨order, der, hid, rfl⟩

theorem ownsCertificate_of_revocableCertificate {submitted : Cert} {row : Certificate}
    (h : orProblem (revocableCertificate db account submitted) = .ok row) :
    OwnsCertificate db.toAcmeDb account.id row.id := by
  unfold orProblem at h
  split at h
  · rename_i row' hrow
    cases h
    simp only [revocableCertificate, bind_eq_ok, refuse_eq_ok, pure_eq_ok] at hrow
    obtain ⟨x, -, -, hnot, -, -, rfl⟩ := hrow
    cases ho : db.orderForCertificate x.id with
    | none => simp [ho] at hnot
    | some o => exact ownsCertificate_of_orderForCertificate ho (by simpa [ho] using hnot)
  · cases h

theorem isOf_ofOwner (accountId : Str) (payload : Option Json) :
    (∃ e, AccountPlace.ofOwner accountId (account, payload) = .raised e) ∨
      (AccountPlace.ofOwner accountId (account, payload)).IsOf account.id := by
  unfold AccountPlace.ofOwner AccountPlace.ofPayload
  split_ifs
  · exact .inl ⟨_, rfl⟩
  · split
    · split_ifs
      · exact .inr rfl
      · exact .inl ⟨_, rfl⟩
    · split
      · exact .inr rfl
      · rename_i raw _
        cases parseContacts raw with
        | ok contacts =>
          dsimp only [AccountPlace.ofExcept]
          split_ifs <;> exact .inr rfl
        | error e => exact .inl ⟨e, rfl⟩

theorem free_dispatch (payload : Option Json) :
    (Place.dispatch E K r account payload db).Free db r := by
  obtain ⟨d, post, route⟩ := r
  cases route with
  | newOrder identifiers notBefore notAfter draw =>
    simp only [Place.dispatch]
    split_ifs
    · exact ⟨trivial, fun _ => id⟩
    · refine free_orRaise fun pc h => ?_
      simp only [Pc.route, Pc.newOrder, bind_eq_ok, pure_eq_ok] at h
      obtain ⟨is, -, before, -, after, -, -, -, rfl⟩ := h
      exact ⟨⟨rfl, identifiers, notBefore, notAfter, rfl⟩, fun _ => id⟩
  | order | authz | orders =>
    refine free_orRefuse fun place h => ?_
    simp only [bind_eq_ok, pure_eq_ok] at h
    obtain ⟨answer, -, rfl⟩ := h
    exact ⟨trivial, fun _ => id⟩
  | challenge challengeId outcome =>
    refine free_orRaise fun pc h => ?_
    obtain ⟨howns, rfl | rfl⟩ := ownsChallenge_of_challengeResource h
    · exact ⟨⟨trivial, howns⟩, fun _ => id⟩
    · exact ⟨⟨howns, howns⟩, fun _ => id⟩
  | finalize orderId csr =>
    refine free_orRaise fun pc h => ?_
    obtain ⟨howns, rfl | ⟨order, der, rfl, rfl⟩⟩ := ownsOrder_of_finalizeOrder h
    · exact ⟨⟨trivial, howns⟩, fun _ => id⟩
    · exact ⟨⟨howns, howns⟩, fun _ => id⟩
  | certificate certId =>
    refine free_orRefuse fun place h => ?_
    simp only [Place.certificateResource, bind_eq_ok, pure_eq_ok] at h
    obtain ⟨-, -, row, -, rfl⟩ := h
    exact free_withChains fun chains => ⟨trivial, fun _ => id⟩
  | alternate certId anchorId =>
    refine free_orRefuse fun place h => ?_
    simp only [Place.certificateAlternate, bind_eq_ok, pure_eq_ok] at h
    obtain ⟨-, -, row, -, anchor, -, rfl⟩ := h
    refine free_withChains fun chains => ?_
    cases chains.byAnchor anchor <;> exact ⟨trivial, fun _ => id⟩
  | revokeCert certificate reason =>
    refine free_orRefuse fun place h => ?_
    simp only [Place.revokeCert, bind_eq_ok, pure_eq_ok] at h
    obtain ⟨-, -, submitted, -, code, -, row, hrow, rfl⟩ := h
    exact ⟨ownsCertificate_of_revocableCertificate hrow, fun _ => id⟩
  | account accountId => exact free_ofAccountPlace (isOf_ofOwner accountId payload)
  | keyChange =>
    refine free_ofAccountPlace ?_
    cases verifyKeyChange K db.accountDb account payload with
    | ok key => exact .inr rfl
    | error e => exact .inl ⟨e, rfl⟩

/-- A validation finds the authorization of its challenge. -/
theorem rightful_ofChallenge {A challengeId : Str} {outcome : Outcome}
    (h : OwnsChallenge db.toAcmeDb A challengeId) :
    Rightful db.toAcmeDb A (Pc.ofChallenge challengeId outcome db.toAcmeDb) ∧
      ∀ x, ¬ (Pc.ofChallenge challengeId outcome db.toAcmeDb).Holds x := by
  obtain ⟨c, hc, rfl, a, ha, hid, howns⟩ := h
  have hget : db.challenges.get? c.id = some c := Table.get?_key hc
  have hget' : db.authorizations.get? c.authzId = some a := Table.get?_eq_some.2 ⟨ha, hid⟩
  unfold Pc.ofChallenge
  simp only [hget, hget']
  split_ifs
  · exact ⟨trivial, fun _ => id⟩
  · exact ⟨⟨⟨c, hc, rfl, a, ha, hid, howns⟩, a, ha, rfl, howns⟩, fun _ => id⟩

theorem isOf_ofConflict {accountId : Str} {row : AcmeAccount} {newKey : AccountKey}
    (h : row.id = accountId) (found : Option AcmeAccount) :
    (∃ e, AccountPlace.ofConflict row newKey found = .raised e) ∨
      (AccountPlace.ofConflict row newKey found).IsOf accountId := by
  cases found with
  | some a => exact .inl ⟨_, rfl⟩
  | none =>
    unfold AccountPlace.ofConflict
    split_ifs <;> exact .inr h

theorem free_of_answered {place : Place} (h : ∃ account answer, place = .answered account answer) :
    place.Free db r := by
  obtain ⟨account, answer, rfl⟩ := h
  exact ⟨trivial, fun _ => id⟩

/-- A request that looks is where it should be afterwards, and has nothing new. -/
theorem rightful_of_select {place : Place} {f : ServerDb → Place} (hact : place.act E K r = .select f)
    (h : place.Rightful db r) : (f db).Rightful db r ∧ ∀ x, (f db).Holds x → place.Holds x := by
  -- It is enough that it has nothing at all.
  suffices hfree : (f db).Free db r from ⟨hfree.1, fun x hx => absurd hx (hfree.2 x)⟩
  cases place with
  | start =>
    cases hact
    dsimp only
    split <;> exact ⟨trivial, fun _ => id⟩
  | verified account payload =>
    cases hact
    exact free_dispatch payload
  | ordering account pc =>
    cases pc with
    | validate challengeId outcome =>
      cases hact
      have hnext : ∀ answer,
          (Place.validating account answer (.validate challengeId outcome)).Free db r :=
        fun _ => ⟨h.1, fun _ => id⟩
      exact free_ofAnswer hnext _
    | returned | attached =>
      cases hact
      exact free_ofAnswer (fun answer => free_of_answered ⟨_, _, rfl⟩) _
    | request | verified => exact h.1.elim
    | _ => cases hact
  | validating account answer pc =>
    obtain ⟨next, hact', rfl⟩ := Action.zoom_eq_select hact
    cases pc with
    | validate challengeId outcome =>
      cases hact'
      exact rightful_ofChallenge h
    | request | verified => exact h.elim
    | _ => cases hact'
  | maintaining account p =>
    cases p with
    | answered status row =>
      cases hact
      exact free_of_answered ⟨_, _, rfl⟩
    | conflict row newKey =>
      cases hact
      exact free_ofAccountPlace (isOf_ofConflict h _)
    | _ => cases hact
  | _ => cases hact

end looking

/-! ### Where a request gets to without its write -/

/-- Where a call goes if its write is refused, or if it gives up. -/
inductive Pc.Failed : Pc → Pc → Prop
  | crashed {pc} : Failed pc .crashed
  | lost {challengeId authz outcome} :
      Failed (.record challengeId authz outcome) (.lost challengeId)
  | issue {d account order der e} : Failed (.issue d account order der) (.release order.id e)
  | stranded {orderId e} : Failed (.release orderId e) (.stranded orderId)
  | orphaned {orderId certificateId} :
      Failed (.attach orderId certificateId) (.orphaned orderId certificateId)

section refusals

variable {E : Crypto} {K : Keyring} {r : KidRequest}

theorem failed_of_error {db : AcmeDb} {pc pc' busy : Pc} {run : AcmeDb → Except Pc (AcmeDb × Pc)}
    (hact : pc.act E = .write run busy) (hrun : run db = .error pc') : pc.Failed pc' := by
  unfold Pc.act at hact
  cases pc with
  | createOrder accountId is notBefore notAfter moment draw =>
    cases hact
    simp only [Pc.runCreateOrder] at hrun
    cases hnew : createOrder draw accountId is notBefore notAfter moment db with
    | some w => simp [hnew] at hrun
    | none =>
      simp only [hnew] at hrun
      cases hrun
      exact .crashed
  | issue d account order der =>
    cases hact
    simp only [Pc.runIssue] at hrun
    cases hissue : Certs.signCsrAndStore E d db.ca .acme der.parsed .server Leaf.defaultDays
        (Pc.csrOptions order.identifiers) (some account.issuerId) .acme with
    | ok out => simp [hissue] at hrun
    | error e =>
      simp only [hissue] at hrun
      cases hrun
      exact .issue
  | beginChallenge | record | claim | release | attach | deactivate | authority =>
    cases hact
    cases hrun
  | _ => cases hact

theorem failed_of_busy {pc busy : Pc} {run : AcmeDb → Except Pc (AcmeDb × Pc)}
    (hact : pc.act E = .write run busy) : pc.Failed busy := by
  unfold Pc.act at hact
  cases pc with
  | createOrder | beginChallenge | claim | deactivate | authority =>
    cases hact
    exact .crashed
  | record =>
    cases hact
    exact .lost
  | issue =>
    cases hact
    exact .issue
  | release =>
    cases hact
    exact .stranded
  | attach =>
    cases hact
    exact .orphaned
  | _ => cases hact

section failed

variable {db : AcmeDb} {A : Str} {pc pc' : Pc} (hfailed : pc.Failed pc')

include hfailed

theorem rightful_of_failed (h : Rightful db A pc) :
    Rightful db A pc' ∧ ∀ x, pc'.Holds x → pc.Holds x := by
  cases hfailed with
  | issue =>
    refine ⟨h, fun x hx => ?_⟩
    cases x <;> exact hx
  | _ => exact ⟨trivial, fun x => False.elim⟩

theorem rightful_ofPc_of_failed {db : ServerDb} {account : AcmeAccount}
    (h : (Place.ordering account pc).Rightful db r) : (Place.ofPc account pc').Rightful db r := by
  cases hfailed with
  | crashed | stranded | orphaned => trivial
  | lost => exact h.2.elim
  | issue => exact h

end failed

theorem raised_of_maintenance {db : AccountDb} {account : AcmeAccount} {p p' busy : AccountPlace}
    {run : AccountDb → Except AccountPlace (AccountDb × AccountPlace)}
    (hact : AccountPlace.maintenance p = .write run busy) (hrun : run db = .error p') :
    ∃ e, Place.ofAccountPlace account p' = .refused (some account) e := by
  cases p with
  | deactivate row | setContacts row =>
    cases hact
    simp only [AccountDb.change?] at hrun
    split_ifs at hrun <;> cases hrun
    exact ⟨_, rfl⟩
  | rotate row newKey =>
    cases hact
    rcases rotate?_cases db row.id newKey with ⟨-, h⟩ | ⟨-, h⟩ | ⟨-, h⟩
    all_goals
      simp only [h] at hrun
      cases hrun
    · exact ⟨_, rfl⟩
    · exact ⟨_, rfl⟩
  | _ => cases hact

/-- **Where a request gets to if its write is refused**, or if it gives up. -/
theorem rightful_of_refused {db : ServerDb} {place place' busy : Place}
    {run : ServerDb → Except Place (ServerDb × Place)} (hact : place.act E K r = .write run busy)
    (hrefused : run db = .error place' ∨ place' = busy) (h : place.Rightful db r) :
    place'.Rightful db r ∧ ∀ x, place'.Holds x → place.Holds x := by
  cases place with
  | ordering account pc =>
    obtain ⟨pc', hfailed, rfl⟩ : ∃ pc', pc.Failed pc' ∧ place' = .ofPc account pc' := by
      cases pc with
      | validate | returned | attached => cases hact
      | _ =>
        simp only [Place.act] at hact
        obtain ⟨run', busy', hact', rfl, -, herror⟩ := Action.zoom_eq_write hact
        rcases hrefused with hrun | rfl
        · obtain ⟨pc', hrun', rfl⟩ := herror _ _ hrun
          exact ⟨pc', failed_of_error hact' hrun', rfl⟩
        · exact ⟨busy', failed_of_busy hact', rfl⟩
    refine ⟨rightful_ofPc_of_failed hfailed h, fun x hx => ?_⟩
    exact (rightful_of_failed hfailed h.1).2 x (holds_of_ofPc hx)
  | validating account answer pc =>
    obtain ⟨run', busy', hact', rfl, -, herror⟩ := Action.zoom_eq_write hact
    obtain ⟨pc', hfailed, rfl⟩ : ∃ pc', pc.Failed pc' ∧ place' = .validating account answer pc' := by
      rcases hrefused with hrun | rfl
      · obtain ⟨pc', hrun', rfl⟩ := herror _ _ hrun
        exact ⟨pc', failed_of_error hact' hrun', rfl⟩
      · exact ⟨busy', failed_of_busy hact', rfl⟩
    exact rightful_of_failed hfailed h
  | revoking account certificateId reason =>
    cases hact
    rcases hrefused with hrun | rfl
    · rcases runRevoke_cases E r.draw account certificateId reason db with hrevoke | ⟨e, hrevoke⟩
      · cases hrevoke.symm.trans hrun
      · cases hrevoke.symm.trans hrun
        exact ⟨trivial, fun _ => id⟩
    · exact ⟨trivial, fun _ => id⟩
  | maintaining account p =>
    obtain ⟨e, rfl⟩ : ∃ e, place' = .refused (some account) e := by
      cases p with
      | deactivate | setContacts | rotate =>
        simp only [Place.act] at hact
        obtain ⟨run', busy', hact', rfl, -, herror⟩ := Action.zoom_eq_write hact
        rcases hrefused with hrun | rfl
        · obtain ⟨p', hrun', rfl⟩ := herror _ _ hrun
          exact raised_of_maintenance hact' hrun'
        · cases hact'
          exact ⟨_, rfl⟩
      | _ => cases hact
    exact ⟨trivial, fun _ => id⟩
  | _ => cases hact

end refusals

end Acme

end Cabin
