import Cabin.Acme.Places

/-!
# Accounts are isolated

What a request with a `kid` header writes leaves the rows of the other accounts as they are; and where
it goes on, and what it answers at last, it would go on with and answer as well on a database with
nothing but the rows of its account, but for a few problems whose texts are fixed.

* `accounts_isolated` is the result, for every order of the turns of all calls;
* `Untouched` says what a write leaves alone, `Told` what a request can learn at a step;
* `told_of_at?` is the step, `maintains_server` what holds where the calls of a run are.
-/

namespace Cabin

namespace Acme

open X509

/-! ### What a request is told -/

/-- A write of an order resource of which nothing is told but that it is done, or the number of a new
row. -/
inductive Pc.Silent : Pc → Pc → Prop
  | returned {pc} : Silent pc .returned
  | issued {d account order der certificateId} :
      Silent (.issue d account order der) (.attach order.id certificateId)
  | failed {d account order der e} (h : e.kind = .database) :
      Silent (.issue d account order der) (.release order.id e)

/-- Where a request goes at a step for an account. -/
inductive Told (E : Crypto) (K : Keyring) (r : KidRequest) (accountId : Str) (db : ServerDb) :
    Place → Place → Prop
  /-- It goes where the rows of the account alone would take it. -/
  | own {place place'} (h : (place.act E K r).at? (db.ownedBy accountId) = some place') :
      Told E K r accountId db place place'
  /-- It is refused with a fixed text. -/
  | plain {place account e} (h : Plain e) : Told E K r accountId db place (.refused account (.acme e))
  /-- It fails with an exception, of which the client sees nothing. -/
  | failed {place account name} : Told E K r accountId db place (.refused account (.crash name))
  /-- A write is done. -/
  | silent {account pc pc'} (h : pc.Silent pc') :
      Told E K r accountId db (.ordering account pc) (.ordering account pc')
  /-- A certificate is revoked. -/
  | revoked {account certificateId reason} :
      Told E K r accountId db (.revoking account certificateId reason) (.answered account .revoked)
  /-- It has been answered already. -/
  | validating {account answer pc pc'} :
      Told E K r accountId db (.validating account answer pc) (.validating account answer pc')

section told

variable {E : Crypto} {K : Keyring} {r : KidRequest} {db : ServerDb} {account : AcmeAccount}

theorem told_of_select {accountId : Str} {place : Place} {f : ServerDb → Place}
    (hact : place.act E K r = .select f) (h : f (db.ownedBy accountId) = f db) :
    Told E K r accountId db place (f db) := by
  refine .own ?_
  rw [hact]
  exact congrArg some h

section routes

variable {payload : Option Json}

/-- A check on the rows of the account, unless it is refused with a fixed text. -/
theorem told_orRefuse {x y : Except Raised Place} (h : EqUnless Raised.IsPlain x y)
    (hx : Place.dispatch E K r account payload db = Place.orRefuse account x)
    (hy : Place.dispatch E K r account payload (db.ownedBy account.id) = Place.orRefuse account y) :
    Told E K r account.id db (.verified account payload)
      (Place.dispatch E K r account payload db) := by
  rcases h with rfl | ⟨_, ⟨e, he, rfl⟩, rfl⟩
  · exact told_of_select rfl (hy.trans hx.symm)
  · rw [hx]
    exact .plain he

/-- The same for a route that works on an order. -/
theorem told_orRaise {x y : Except AcmeError Pc} (h : EqUnless Plain x y)
    (hx : Place.dispatch E K r account payload db = Place.ofPc account (Pc.orRaise x))
    (hy : Place.dispatch E K r account payload (db.ownedBy account.id) =
      Place.ofPc account (Pc.orRaise y)) :
    Told E K r account.id db (.verified account payload)
      (Place.dispatch E K r account payload db) := by
  rcases h with rfl | ⟨e, he, rfl⟩
  · exact told_of_select rfl (hy.trans hx.symm)
  · rw [hx]
    exact .plain he

theorem told_dispatch :
    Told E K r account.id db (.verified account payload)
      (Place.dispatch E K r account payload db) := by
  obtain ⟨d, post, route⟩ := r
  cases route with
  | newOrder identifiers notBefore notAfter draw => exact told_of_select rfl rfl
  | order orderId =>
    have hown : EqUnless Plain (Place.orderResource db account orderId d.now) _ :=
      eqUnless_orderResource orderId d.now
    have h := eqUnless_orProblem hown
    exact told_orRefuse (eqUnless_bind h fun _ _ => .inl rfl) rfl rfl
  | authz authzId =>
    have hown : EqUnless Plain (Place.authzResource db account authzId d.now) _ :=
      eqUnless_authzResource authzId d.now
    have h := eqUnless_orProblem hown
    exact told_orRefuse (eqUnless_bind h fun _ _ => .inl rfl) rfl rfl
  | challenge challengeId outcome =>
    exact told_orRaise (eqUnless_challengeResource challengeId _ outcome) rfl rfl
  | finalize orderId csr => exact told_orRaise (eqUnless_finalizeOrder orderId _) rfl rfl
  | certificate certId =>
    have hown : EqUnless Plain (certificateOf db certId account.id) _ := eqUnless_certificateOf certId
    have h := eqUnless_orProblem hown
    exact told_orRefuse (eqUnless_bind (.inl rfl) fun _ _ => eqUnless_bind h fun _ _ => .inl rfl)
      rfl rfl
  | alternate certId anchorId =>
    have hown : EqUnless Plain (certificateOf db certId account.id) _ := eqUnless_certificateOf certId
    have h := eqUnless_orProblem hown
    exact told_orRefuse (eqUnless_bind (.inl rfl) fun _ _ => eqUnless_bind h fun _ _ => .inl rfl)
      rfl rfl
  | revokeCert certificate reason =>
    have h : ∀ submitted, EqUnless Raised.IsPlain
        (orProblem (revocableCertificate db account submitted))
        (orProblem (revocableCertificate (db.ownedBy account.id) account submitted)) :=
      fun submitted => eqUnless_orProblem (eqUnless_revocableCertificate submitted)
    refine told_orRefuse (eqUnless_bind (.inl rfl) fun _ _ => eqUnless_bind (.inl rfl)
      fun submitted _ => eqUnless_bind (.inl rfl) fun _ _ => ?_) rfl rfl
    exact eqUnless_bind (h submitted) fun _ _ => .inl rfl
  | account accountId => exact told_of_select rfl rfl
  | orders accountId =>
    refine told_of_select rfl ?_
    simp only [Place.dispatch, Place.accountOrders, ordersOf_ownedBy]
    rfl
  | keyChange => exact told_of_select rfl rfl

end routes

/-! ### What it is told of a write -/

/-- A write of an order resource, done or refused, goes where it would go with the rows of the account
alone, or it is silent. -/
theorem at?_ownedBy {A : Str} {pc pc' busy : Pc} {run : AcmeDb → Except Pc (AcmeDb × Pc)}
    (hact : pc.act E = .write run busy) (h : Rightful db.toAcmeDb A pc)
    (hrun : (pc.act E).at? db.toAcmeDb = some pc') :
    (pc.act E).at? (db.ownedBy A).toAcmeDb = some pc' ∨ pc.Silent pc' ∨ pc' = .crashed := by
  unfold Pc.act at hact hrun ⊢
  cases pc with
  | createOrder accountId is notBefore notAfter moment draw =>
    simp only [Pc.stmt, Action.at?, Pc.runCreateOrder] at hrun
    cases hnew : createOrder draw accountId is notBefore notAfter moment db.toAcmeDb with
    | some w =>
      simp only [hnew] at hrun
      cases hrun
      exact .inr (.inl .returned)
    | none =>
      simp only [hnew, Call.pc] at hrun
      cases hrun
      exact .inr (.inr rfl)
  | beginChallenge challengeId outcome =>
    refine .inl (Eq.trans ?_ hrun)
    simp only [Pc.stmt, Action.at?, Pc.runBegin, claimChallenge_ownedBy h]
  | record challengeId authz outcome => exact .inl hrun
  | claim d account order der =>
    refine .inl (Eq.trans ?_ hrun)
    simp only [Pc.stmt, Action.at?, Pc.runClaim, claimForIssuance_ownedBy h]
  | issue d account order der =>
    simp only [Pc.stmt, Action.at?, Pc.runIssue] at hrun ⊢
    cases hissue : Certs.signCsrAndStore E d db.ca .acme der.parsed .server Leaf.defaultDays
        (Pc.csrOptions order.identifiers) (some account.issuerId) .acme with
    | ok x =>
      simp only [hissue] at hrun
      cases hrun
      exact .inr (.inl .issued)
    | error e =>
      simp only [hissue, Call.pc] at hrun
      cases hrun
      rcases signCsrAndStore_eq_error (db.ownedBy A).ca.certificates .empty hissue with hkind | hissue'
      · exact .inr (.inl (.failed hkind))
      · left
        -- The same error, with the certificates of the account alone.
        have hown : Certs.signCsrAndStore E d (db.ownedBy A).ca .acme der.parsed .server
            Leaf.defaultDays (Pc.csrOptions order.identifiers) (some account.issuerId) .acme =
          .error e := hissue'
        simp only [hown, Call.pc]
  | release orderId e => exact .inl hrun
  | attach orderId certificateId => exact .inl hrun
  | deactivate accountId => exact .inl hrun
  | authority d op => exact .inl hrun
  | _ => cases hact

/-! ### What it is told at a step -/

theorem told_orderAnswer {place : Place} {next : Answer → Place}
    (hact : place.act E K r = .select fun db => Place.ofAnswer account next (Place.orderAnswer r db))
    (h : r.Answerable db.toAcmeDb account.id) :
    Told E K r account.id db place (Place.ofAnswer account next (Place.orderAnswer r db)) :=
  told_of_select hact (by rw [orderAnswer_ownedBy h])

theorem told_ordering {pc : Pc} {place' : Place}
    (hact : (Place.ordering account pc).act E K r =
      (pc.act E).zoom ServerDb.toAcmeDb ServerDb.withOrders (Place.ofPc account))
    (hselect : ∀ next, pc.act E ≠ .select next) (h : Rightful db.toAcmeDb account.id pc)
    (hat : ((Place.ordering account pc).act E K r).at? db = some place') :
    Told E K r account.id db (.ordering account pc) place' := by
  rw [hact, Action.at?_zoom, Option.map_eq_some_iff] at hat
  obtain ⟨pc', hat, rfl⟩ := hat
  cases hwrite : pc.act E with
  | select next => exact absurd hwrite (hselect next)
  | write run busy =>
    rcases at?_ownedBy hwrite h hat with hown | hsilent | rfl
    · refine .own ?_
      rw [hact, Action.at?_zoom, hown]
      rfl
    · cases hsilent with
      | returned => exact .silent .returned
      | issued => exact .silent .issued
      | failed hkind => exact .silent (.failed hkind)
    · exact .failed
  | done =>
    rw [hwrite] at hat
    cases hat

theorem told_maintaining {p : AccountPlace} {place' : Place}
    (hact : (Place.maintaining account p).act E K r =
      (AccountPlace.maintenance p).zoom ServerDb.accountDb ServerDb.withAccounts
        (Place.ofAccountPlace account))
    (h : p.IsOf account.id) (hat : ((Place.maintaining account p).act E K r).at? db = some place') :
    Told E K r account.id db (.maintaining account p) place' := by
  rw [hact, Action.at?_zoom, Option.map_eq_some_iff] at hat
  obtain ⟨p', hat, rfl⟩ := hat
  rcases at?_maintenance_ownedBy h hat with hown | ⟨e, ⟨problem, hplain, rfl⟩ | ⟨name, rfl⟩, rfl⟩
  · refine .own ?_
    rw [hact, Action.at?_zoom, hown]
    rfl
  · exact .plain hplain
  · exact .failed

theorem at?_revoking {certificateId : ℕ} {reason : RevocationReason} (db : ServerDb) :
    ((Place.revoking account certificateId reason).act E K r).at? db =
      match ((Op.revokeCertificate .acme certificateId reason none).run E r.draw db.ca).2 with
      | .ok _ => some (.answered account .revoked)
      | .error e => some (.refused (some account) (revokeProblem e)) := by
  simp only [Place.act, Action.at?, runRevoke_eq]
  cases ((Op.revokeCertificate .acme certificateId reason none).run E r.draw db.ca).2 <;> rfl

theorem told_revoking {certificateId : ℕ} {reason : RevocationReason} {place' : Place}
    (hnamed : Named db.toAcmeDb) (h : OwnsCertificate db.toAcmeDb account.id certificateId)
    (hat : ((Place.revoking account certificateId reason).act E K r).at? db = some place') :
    Told E K r account.id db (.revoking account certificateId reason) place' := by
  have hthere : HasCertificate db.toAcmeDb certificateId := by
    obtain ⟨o, ho, -, hid⟩ := h
    exact hnamed.there o ho certificateId hid
  rw [at?_revoking] at hat
  cases hrun : ((Op.revokeCertificate .acme certificateId reason none).run E r.draw db.ca).2 with
  | ok u =>
    rw [hrun] at hat
    cases hat
    exact .revoked
  | error e =>
    rw [hrun] at hat
    cases hat
    rcases revokeCertificate_eq_error h hthere hrun with hcrash | hrun'
    · simp only [hcrash]
      exact .failed
    · refine .own ?_
      rw [at?_revoking, hrun']

/-- **At every step a request is told of the rows of its account alone**, or of none. -/
theorem told_of_at? {A : Str} {place place' : Place} (hnamed : Named db.toAcmeDb)
    (h : place.Rightful db r) (hA : place.account? = some A)
    (hat : (place.act E K r).at? db = some place') : Told E K r A db place place' := by
  cases place with
  | start => cases hA
  | verified account payload =>
    cases hA
    cases hat
    exact told_dispatch
  | ordering account pc =>
    cases hA
    obtain ⟨h, hanswers⟩ := h
    cases pc with
    | validate | returned | attached =>
      cases hat
      exact told_orderAnswer rfl hanswers
    | request | verified => exact h.elim
    | _ => exact told_ordering rfl nofun h hat
  | validating account answer pc =>
    cases hA
    simp only [Place.act, Action.at?_zoom, Option.map_eq_some_iff] at hat
    obtain ⟨pc', -, rfl⟩ := hat
    exact .validating
  | revoking account certificateId reason =>
    cases hA
    exact told_revoking hnamed h hat
  | maintaining account p =>
    cases hA
    cases p with
    | answered status row =>
      cases hat
      exact .own rfl
    | _ => exact told_maintaining rfl h hat
  | answered | refused | endless => cases hat

/-- The same where it gives up. -/
theorem told_of_busy {A : Str} {place busy : Place} {run : ServerDb → Except Place (ServerDb × Place)}
    (h : place.Rightful db r) (hA : place.account? = some A)
    (hact : place.act E K r = .write run busy) : Told E K r A db place busy := by
  cases place with
  | ordering account pc =>
    cases hA
    obtain ⟨h, hanswers⟩ := h
    cases pc with
    | record => exact hanswers.elim
    | deactivate | authority => exact h.elim
    | createOrder | beginChallenge | claim | release | attach =>
      cases hact
      exact .failed
    | issue =>
      cases hact
      exact .silent (.failed rfl)
    | _ => cases hact
  | validating account answer pc =>
    cases hA
    obtain ⟨-, busy', -, rfl, -⟩ := Action.zoom_eq_write hact
    exact .validating
  | revoking account certificateId reason =>
    cases hact
    exact .failed
  | maintaining account p =>
    cases p with
    | deactivate | setContacts | rotate =>
      cases hact
      exact .failed
    | _ => cases hact
  | _ => cases hact

end told

/-! ### All calls -/

/-- What a call relies on. -/
def ServerCall.Rightful (db : ServerDb) : ServerCall → Prop
  | .request r place => place.Rightful db r
  | _ => True

/-- What a call has for itself. -/
def ServerCall.Holds : ServerCall → Resource → Prop
  | .request _ place => place.Holds
  | _ => fun _ => False

section calls

variable {E : Crypto} {K : Keyring} {r : KidRequest} {place : Place}

theorem request_eq_select {g : ServerDb → ServerCall}
    (h : ServerCall.act E K (.request r place) = .select g) :
    ∃ f, place.act E K r = .select f ∧ g = fun db => .request r (f db) := by
  simp only [ServerCall.act, Action.map_eq_zoom] at h
  exact Action.zoom_eq_select h

theorem request_eq_write {run : ServerDb → Except ServerCall (ServerDb × ServerCall)} {busy : ServerCall}
    (h : ServerCall.act E K (.request r place) = .write run busy) :
    ∃ run' busy', place.act E K r = .write run' busy' ∧ busy = .request r busy' ∧
      (∀ db db' c, run db = .ok (db', c) → ∃ place', c = .request r place' ∧
        run' db = .ok (db', place')) ∧
      ∀ db c, run db = .error c → ∃ place', c = .request r place' ∧ run' db = .error place' := by
  simp only [ServerCall.act, Action.map_eq_zoom] at h
  obtain ⟨run', busy', hact, hbusy, hok, herror⟩ := Action.zoom_eq_write h
  refine ⟨run', busy', hact, hbusy, fun db db' c hrun => ?_, fun db c hrun => ?_⟩
  · obtain ⟨w, place', hrun', rfl, rfl⟩ := hok db db' c hrun
    exact ⟨place', rfl, hrun'⟩
  · obtain ⟨place', hrun', rfl⟩ := herror db c hrun
    exact ⟨place', rfl, hrun'⟩

/-- What the calls rely on is kept by the writes of the others. -/
theorem ServerCall.Rightful.kept {db db' : ServerDb} {c : ServerCall} {has : Resource → Prop}
    (h : c.Rightful db) (hs : Sustains has db.toAcmeDb db'.toAcmeDb)
    (hapart : ∀ x, has x → ¬ c.Holds x) : c.Rightful db' := by
  cases c with
  | request r place => exact Place.Rightful.kept h hs hapart
  | door | settled => trivial

theorem maintains_server :
    MaintainsApart (ServerCall.act E K) (fun _ _ => True) (fun db => Named db.toAcmeDb)
      ServerCall.Rightful ServerCall.Holds where
  select {db c f} hact _ _ h := by
    cases c with
    | request r place =>
      obtain ⟨f, hact', rfl⟩ := request_eq_select hact
      exact rightful_of_select hact' h
    | door | settled => cases hact
  write {db db' c c' run busy} hact hrun _ hnamed h := by
    cases c with
    | request r place =>
      obtain ⟨run', busy', hact', -, hok, -⟩ := request_eq_write hact
      obtain ⟨place', rfl, hrun'⟩ := hok _ _ _ hrun
      have hw := placeWrite_of_act hact' hrun' h
      refine ⟨named_of_placeWrite hw h hnamed, rightful_of_placeWrite hw hnamed h,
        fun c₂ h₂ hapart => h₂.kept (sustains_of_placeWrite hw h) hapart, fun x hx => ?_⟩
      refine (holds_of_placeWrite hw hx).imp_right fun hnobody c₂ h₂ => ?_
      cases c₂ with
      | request r₂ place₂ => exact hnobody r₂ place₂ h₂
      | door | settled => exact id
    | door d =>
      cases hact
      cases hrun
      have hcertificates := d.certificates db
      refine ⟨hnamed.kept (d.orders db) hcertificates, trivial, fun c₂ h₂ _ => ?_, fun x => False.elim⟩
      have hs := sustains_of_eq (d.orders db) (d.authorizations db) (d.challenges db) hcertificates
      exact h₂.kept hs fun x => False.elim
    | settled => cases hact
  refused {db c c' run busy} hact hrun _ _ h := by
    cases c with
    | request r place =>
      obtain ⟨run', busy', hact', -, -, herror⟩ := request_eq_write hact
      obtain ⟨place', rfl, hrun'⟩ := herror _ _ hrun
      exact rightful_of_refused hact' (.inl hrun') h
    | door d =>
      cases hact
      cases hrun
    | settled => cases hact
  busy {db c run busy} hact _ h := by
    cases c with
    | request r place =>
      obtain ⟨run', busy', hact', rfl, -⟩ := request_eq_write hact
      exact rightful_of_refused hact' (.inr rfl) h
    | door d =>
      cases hact
      exact ⟨trivial, fun x => False.elim⟩
    | settled => cases hact

/-- A request that writes is verified. -/
theorem account?_of_write {run : ServerDb → Except Place (ServerDb × Place)} {busy : Place}
    (hact : place.act E K r = .write run busy) : ∃ A, place.account? = some A := by
  cases place with
  | start => cases hact
  | answered | refused | endless => cases hact
  | _ => exact ⟨_, rfl⟩

/-- The calls of a run are where they should be. -/
theorem exists_rightful {ca : Db} {accounts : Table AcmeAccount} {eabKeys : Table AcmeEabKey}
    {requireEab : Bool} {baseUrl : Str} {calls : List ServerIncoming}
    {s : Sessions ServerDb (Phase ServerCall)}
    (h : (server E K).Reachable (serverBegin ca accounts eabKeys requireEab baseUrl calls) s) :
    ∃ a, MaintainsApart.Holds (fun db => Named db.toAcmeDb) ServerCall.Rightful ServerCall.Holds a ∧
      Sim (ServerCall.act E K) (fun _ _ => True) s a := by
  have hcalls : ∀ c ∈ calls.map ServerIncoming.start,
      (∀ db, c.Rightful db) ∧ ∀ x, ¬ c.Holds x := by
    intro c hc
    obtain ⟨incoming, -, rfl⟩ := List.mem_map.1 hc
    cases incoming <;> exact ⟨fun _ => trivial, fun x => id⟩
  refine maintains_server.reach (h.mono fun _ t _ => Sessions.heeds_true t) ?_
    (fun c hc => (hcalls c hc).1 _) fun c hc => (hcalls c hc).2
  exact ⟨fun _ ho => absurd ho Table.not_mem_empty, fun _ ho => absurd ho Table.not_mem_empty⟩

section runs

variable {ca : Db} {accounts : Table AcmeAccount} {eabKeys : Table AcmeEabKey} {requireEab : Bool}
  {baseUrl : Str} {calls : List ServerIncoming} {s s' : Sessions ServerDb (Phase ServerCall)} {t : Turn}
  {l : Phase ServerCall} {A : Str}

/-- What a turn of a request for an account leaves alone. -/
theorem untouched_of_step
    (h : (server E K).Reachable (serverBegin ca accounts eabKeys requireEab baseUrl calls) s)
    (hstep : (server E K).step s t = some s') (hl : s.calls[t.call]? = some l)
    (hcall : l.pc = .request r place) (hA : place.account? = some A) :
    Untouched A s.committed s'.committed := by
  obtain ⟨a, hholds, hsim⟩ := exists_rightful h
  -- Only the commit of a write changes what is committed.
  rcases hsim.commit_cases hstep with hsame | ⟨k, c, pc, run, busy, rfl, hl', hc, hact, hrun⟩
  · rw [hsame]
    exact .refl A s.committed
  · obtain rfl := Option.some.inj (hl'.symm.trans hl)
    obtain rfl : pc = .request r place := hcall
    have hrightful : c.Rightful s.committed := hsim.db ▸ hholds.calls c (List.mem_of_getElem? hc)
    cases c with
    | request r₀ p =>
      obtain ⟨run', busy', hact', -, hok, -⟩ := request_eq_write hact
      obtain ⟨place', hplace, hrun'⟩ := hok _ _ _ hrun
      cases hplace
      obtain ⟨B, hB⟩ := account?_of_write hact'
      have hleads : (p.act E K r).Leads place := by
        rw [hact']
        exact .write hrun'
      obtain rfl : B = A := Option.some.inj ((account?_of_leads hB hleads).symm.trans hA)
      exact untouched_of_placeWrite (placeWrite_of_act hact' hrun' hrightful) hrightful hB
    | door d =>
      cases hact
      simp at hrun
    | settled => cases hact

/-- What a request for an account is told at its turn. -/
theorem told_of_step
    (h : (server E K).Reachable (serverBegin ca accounts eabKeys requireEab baseUrl calls) s)
    (hstep : (server E K).step s t = some s') (hl : s.calls[t.call]? = some l)
    (hcall : l.pc = .request r place) (hA : place.account? = some A) :
    ∃ l' place', s'.calls[t.call]? = some l' ∧ l'.pc = .request r place' ∧
      place'.account? = some A ∧ (place' = place ∨ Told E K r A s.committed place place') := by
  obtain ⟨a, hholds, hsim⟩ := exists_rightful h
  have hnamed : Named s.committed.toAcmeDb := hsim.db ▸ hholds.db
  obtain ⟨l', hl', hmove⟩ := hsim.place_of_step hstep hl
  rcases hmove with hsame | ⟨c, rfl, hat⟩
  · exact ⟨l', place, hl', hsame.trans hcall, hA, .inl rfl⟩
  · obtain rfl : c = .request r place := hcall
    have hrightful : place.Rightful s.committed r :=
      hsim.db ▸ hholds.calls _ (List.mem_of_getElem? (hsim.run hl))
    rcases hat with hat | ⟨run, hact⟩
    · simp only [ServerCall.act, Action.map_eq_zoom, Action.at?_zoom, Option.map_eq_some_iff] at hat
      obtain ⟨place', hat, hpc⟩ := hat
      exact ⟨l', place', hl', hpc.symm, account?_of_leads hA (Action.leads_of_at? hat),
        .inr (told_of_at? hnamed hrightful hA hat)⟩
    · obtain ⟨run', busy', hact', hbusy, -⟩ := request_eq_write hact
      have hleads : (place.act E K r).Leads busy' := by
        rw [hact']
        exact .giveUp
      exact ⟨l', busy', hl', hbusy, account?_of_leads hA hleads,
        .inr (told_of_busy hrightful hA hact')⟩

/-- Whatever a request ends with, it has been told it step by step. -/
theorem told_of_reach {k : ℕ}
    (h : (server E K).Reachable (serverBegin ca accounts eabKeys requireEab baseUrl calls) s)
    (hreach : (server E K).Reachable s s') (hl : s.calls[k]? = some l)
    (hcall : l.pc = .request r place) (hA : place.account? = some A) :
    ∃ l' place', s'.calls[k]? = some l' ∧ l'.pc = .request r place' ∧ place'.account? = some A ∧
      Relation.ReflTransGen (fun p p' => ∃ x, (server E K).Reachable s x ∧
        Told E K r A x.committed p p') place place' := by
  -- By induction on the run; at the turns of the others the request stays where it is.
  induction hreach with
  | refl => exact ⟨l, place, hl, hcall, hA, .refl⟩
  | @tail x y t hx _ hstep ih =>
    obtain ⟨l', place', hl', hcall', hA', htold⟩ := ih
    by_cases hk : t.call = k
    · subst hk
      obtain ⟨l'', place'', hl'', hcall'', hA'', hmove⟩ :=
        told_of_step (h.trans hx) hstep hl' hcall' hA'
      refine ⟨l'', place'', hl'', hcall'', hA'', ?_⟩
      rcases hmove with rfl | hmove
      · exact htold
      · exact htold.tail ⟨x, hx, hmove⟩
    · exact ⟨l', place', (Sessions.getElem?_of_step hstep hk).trans hl', hcall', hA', htold⟩

/-- **Accounts are isolated.**  Whatever calls there are and in whatever order they have their turns,
a turn of a request for an account leaves alone what is not the account's; and where the request goes
on, up to what it is answered or refused with, it would go on if there were no rows but those of its
account. -/
theorem accounts_isolated
    (h : (server E K).Reachable (serverBegin ca accounts eabKeys requireEab baseUrl calls) s)
    (hstep : (server E K).step s t = some s') (hl : s.calls[t.call]? = some l)
    (hcall : l.pc = .request r place) (hA : place.account? = some A) :
    Untouched A s.committed s'.committed ∧
      ∃ l' place', s'.calls[t.call]? = some l' ∧ l'.pc = .request r place' ∧
        place'.account? = some A ∧ (place' = place ∨ Told E K r A s.committed place place') :=
  ⟨untouched_of_step h hstep hl hcall hA, told_of_step h hstep hl hcall hA⟩

end runs

end calls

/-! ### Two accounts -/

/-- An account. -/
def sampleAccount : AcmeAccount :=
  ⟨sampleId, sampleHash, okpJwk sampleX, sampleThumbprint, .valid, none, 1⟩

/-- Another one. -/
def otherAccount : AcmeAccount := ⟨otherId, otherHash, okpJwk otherX, otherThumbprint, .valid, none, 1⟩

/-- The request to deactivate the first one. -/
def deactivation : KidRequest where
  draw := ⟨0, 0, 0, 0, 0, none⟩
  post := ⟨.ok sampleHash,
    fun _ => .ok (some (.obj [(Str.of "status", .str (Str.of "deactivated"))]))⟩
  route := .account sampleId

/-- The server with both accounts, after so many turns of the request. -/
def deactivating (n : ℕ) : Sessions ServerDb (Phase ServerCall) :=
  (server .transparent .sample).final
    (serverBegin .empty ((Table.empty.upsert sampleAccount).upsert otherAccount) .empty false
      sampleOrigin [.request deactivation]) (List.replicate n (.go 0))

/-- The commit of the deactivation. -/
theorem accounts_isolated_deactivation :
    Untouched sampleId (deactivating 3).committed (deactivating 4).committed ∧
      ∃ l' place', (deactivating 4).calls[(Turn.go 0).call]? = some l' ∧
        l'.pc = .request deactivation place' ∧ place'.account? = some sampleId ∧
        (place' = .maintaining sampleAccount (.answered 200 { sampleAccount with status := .deactivated }) ∨
          Told .transparent .sample deactivation sampleId (deactivating 3).committed
            (.maintaining sampleAccount (.answered 200 { sampleAccount with status := .deactivated }))
            place') :=
  accounts_isolated (Machine.reachable_final _ _) rfl rfl rfl rfl

end Acme

end Cabin
