import Cabin.Acme.Server

/-!
# What belongs to an account

An order belongs to the account that has placed it, an authorization to the account of its order, a
challenge to that of its authorization, and a certificate to that of the order that names it.

A call that works for an account writes what belongs to it and nothing else (`spares_of_orderWrite`).
What a call has found stays so, because rows keep their links (`Persists`); that an order keeps its
claim, and a certificate waits for its order alone, is because the calls have these for themselves.

* `Rightful` says what a call relies on at a place; `Rightful.kept`, that the writes of the others
  keep it; `rightful_of_orderWrite`, that its own do.
-/

namespace Cabin

namespace Acme

open X509

/-! ### What belongs to an account -/

/-- The account has placed the order. -/
def OwnsOrder (db : AcmeDb) (accountId orderId : Str) : Prop :=
  ∃ o ∈ db.orders, o.id = orderId ∧ o.accountId = accountId

/-- The authorization is for an order of the account. -/
def OwnsAuthz (db : AcmeDb) (accountId authzId : Str) : Prop :=
  ∃ a ∈ db.authorizations, a.id = authzId ∧ OwnsOrder db accountId a.orderId

/-- The challenge is for an authorization of the account. -/
def OwnsChallenge (db : AcmeDb) (accountId challengeId : Str) : Prop :=
  ∃ c ∈ db.challenges, c.id = challengeId ∧ OwnsAuthz db accountId c.authzId

/-- An order of the account names the certificate. -/
def OwnsCertificate (db : AcmeDb) (accountId : Str) (certificateId : ℕ) : Prop :=
  ∃ o ∈ db.orders, o.accountId = accountId ∧ o.certificateId = some certificateId

section owns

variable {db : AcmeDb} {accountId : Str}

instance (orderId : Str) : Decidable (OwnsOrder db accountId orderId) :=
  inferInstanceAs (Decidable (∃ o ∈ db.orders, _))

instance (authzId : Str) : Decidable (OwnsAuthz db accountId authzId) :=
  inferInstanceAs (Decidable (∃ a ∈ db.authorizations, _))

instance (certificateId : ℕ) : Decidable (OwnsCertificate db accountId certificateId) :=
  inferInstanceAs (Decidable (∃ o ∈ db.orders, _))

theorem ownsOrder_iff {o : AcmeOrder} (ho : o ∈ db.orders) :
    OwnsOrder db accountId o.id ↔ o.accountId = accountId := by
  refine ⟨fun ⟨x, hx, hid, haccount⟩ => ?_, fun h => ⟨o, ho, rfl, h⟩⟩
  exact Table.eq_of_key hx ho hid ▸ haccount

theorem ownsAuthz_iff {a : AcmeAuthorization} (ha : a ∈ db.authorizations) :
    OwnsAuthz db accountId a.id ↔ OwnsOrder db accountId a.orderId := by
  refine ⟨fun ⟨x, hx, hid, howns⟩ => ?_, fun h => ⟨a, ha, rfl, h⟩⟩
  exact Table.eq_of_key hx ha hid ▸ howns

theorem ownsChallenge_iff {c : AcmeChallenge} (hc : c ∈ db.challenges) :
    OwnsChallenge db accountId c.id ↔ OwnsAuthz db accountId c.authzId := by
  refine ⟨fun ⟨x, hx, hid, howns⟩ => ?_, fun h => ⟨c, hc, rfl, h⟩⟩
  exact Table.eq_of_key hx hc hid ▸ howns

end owns

/-- What is not the account's is left as it is. -/
structure Spares (accountId : Str) (db db' : AcmeDb) : Prop where
  account : ∀ a ∈ db.accounts, a.id ≠ accountId → a ∈ db'.accounts
  order : ∀ o ∈ db.orders, o.accountId ≠ accountId → o ∈ db'.orders
  authorization : ∀ a ∈ db.authorizations, ¬ OwnsOrder db accountId a.orderId → a ∈ db'.authorizations
  challenge : ∀ c ∈ db.challenges, ¬ OwnsAuthz db accountId c.authzId → c ∈ db'.challenges
  certificate : ∀ c ∈ db.ca.certificates, ¬ OwnsCertificate db accountId c.id → c ∈ db'.ca.certificates

theorem Spares.refl (accountId : Str) (db : AcmeDb) : Spares accountId db db :=
  ⟨fun _ h _ => h, fun _ h _ => h, fun _ h _ => h, fun _ h _ => h, fun _ h _ => h⟩

/-- There is a certificate with this id. -/
def HasCertificate (db : AcmeDb) (certificateId : ℕ) : Prop :=
  ∃ c ∈ db.ca.certificates, c.id = certificateId

/-! ### What every write keeps -/

/-- Rows keep their links, and an order its certificate. -/
structure Persists (db db' : AcmeDb) : Prop where
  order : ∀ o ∈ db.orders, ∃ o' ∈ db'.orders, o'.id = o.id ∧ o'.accountId = o.accountId ∧
    (o.certificateId ≠ none → o'.certificateId = o.certificateId)
  authorization : ∀ a ∈ db.authorizations, ∃ a' ∈ db'.authorizations, a'.id = a.id ∧
    a'.orderId = a.orderId
  challenge : ∀ c ∈ db.challenges, ∃ c' ∈ db'.challenges, c'.id = c.id ∧ c'.authzId = c.authzId
  certificate : ∀ c ∈ db.ca.certificates, ∃ c' ∈ db'.ca.certificates, c'.id = c.id

variable {E : Crypto} {K : Keyring} {db db' : AcmeDb} {A : Str}

namespace Persists

theorem refl (db : AcmeDb) : Persists db db :=
  ⟨fun o h => ⟨o, h, rfl, rfl, fun _ => rfl⟩, fun a h => ⟨a, h, rfl, rfl⟩,
    fun c h => ⟨c, h, rfl, rfl⟩, fun c h => ⟨c, h, rfl⟩⟩

theorem of_extends (h : Extends db db') : Persists db db' where
  order o ho := by
    obtain ⟨o', ho', hid, haccount, -, hsame⟩ := h.order o ho
    exact ⟨o', ho', hid, haccount, fun hc => by rw [hsame hc]⟩
  authorization a ha := by
    obtain ⟨a', ha', hid, hcovers, -⟩ := h.authorization a ha
    exact ⟨a', ha', hid, hcovers.orderId⟩
  challenge c hc := by
    obtain ⟨c', hc', hid, hauthz, -⟩ := h.challenge c hc
    exact ⟨c', hc', hid, hauthz⟩
  certificate c hc := by
    obtain ⟨c', hc', hid, -⟩ := h.certificate c hc
    exact ⟨c', hc', hid⟩

variable (h : Persists db db')

include h

theorem ownsOrder {orderId : Str} (ho : OwnsOrder db A orderId) : OwnsOrder db' A orderId := by
  obtain ⟨o, ho, hid, haccount⟩ := ho
  obtain ⟨o', ho', hid', haccount', -⟩ := h.order o ho
  exact ⟨o', ho', hid'.trans hid, haccount'.trans haccount⟩

theorem ownsAuthz {authzId : Str} (ha : OwnsAuthz db A authzId) : OwnsAuthz db' A authzId := by
  obtain ⟨a, ha, hid, ho⟩ := ha
  obtain ⟨a', ha', hid', horder⟩ := h.authorization a ha
  exact ⟨a', ha', hid'.trans hid, horder ▸ h.ownsOrder ho⟩

theorem ownsChallenge {challengeId : Str} (hc : OwnsChallenge db A challengeId) :
    OwnsChallenge db' A challengeId := by
  obtain ⟨c, hc, hid, ha⟩ := hc
  obtain ⟨c', hc', hid', hauthz⟩ := h.challenge c hc
  exact ⟨c', hc', hid'.trans hid, hauthz ▸ h.ownsAuthz ha⟩

theorem ownsCertificate {id : ℕ} (hc : OwnsCertificate db A id) : OwnsCertificate db' A id := by
  obtain ⟨o, ho, haccount, hid⟩ := hc
  obtain ⟨o', ho', -, haccount', hsame⟩ := h.order o ho
  exact ⟨o', ho', haccount'.trans haccount, (hsame (by simp [hid])).trans hid⟩

theorem hasCertificate {id : ℕ} (hc : HasCertificate db id) : HasCertificate db' id := by
  obtain ⟨c, hc, hid⟩ := hc
  obtain ⟨c', hc', hid'⟩ := h.certificate c hc
  exact ⟨c', hc', hid'.trans hid⟩

end Persists

/-! ### The writes of the order resources -/

/-- What a call writes and commits at a place, and where it goes on. -/
inductive OrderWrite (E : Crypto) (db : AcmeDb) : Pc → AcmeDb → Pc → Prop
  | createOrder {accountId is notBefore notAfter moment draw db'}
      (h : createOrder draw accountId is notBefore notAfter moment db = some db') :
      OrderWrite E db (.createOrder accountId is notBefore notAfter moment draw) db' .returned
  | beginChallenge {challengeId outcome} (h : (claimChallenge db challengeId).2 = true) :
      OrderWrite E db (.beginChallenge challengeId outcome) (claimChallenge db challengeId).1
        (.validate challengeId outcome)
  | begun {challengeId outcome} (h : (claimChallenge db challengeId).2 = false) :
      OrderWrite E db (.beginChallenge challengeId outcome) db .returned
  | record {challengeId authz outcome} :
      OrderWrite E db (.record challengeId authz outcome) (Pc.runRecord challengeId authz outcome db)
        (.recorded challengeId)
  | claim {d account order der} (h : (claimForIssuance db order.id).2 = true) :
      OrderWrite E db (.claim d account order der) (claimForIssuance db order.id).1
        (.issue d account order der)
  | claimed {d account order der} (h : (claimForIssuance db order.id).2 = false) :
      OrderWrite E db (.claim d account order der) db .returned
  | issue {d account order der row}
      (h : row.id = db.ca.certificates.nextId) :
      OrderWrite E db (.issue d account order der)
        { db with ca := { db.ca with certificates := db.ca.certificates.upsert row } }
        (.attach order.id row.id)
  | release {orderId e} : OrderWrite E db (.release orderId e) (releaseClaim db orderId)
      (.released orderId e)
  | attach {orderId certificateId} :
      OrderWrite E db (.attach orderId certificateId) (attachCertificate db orderId certificateId)
        (.attached orderId certificateId)
  | deactivate {accountId db'} : OrderWrite E db (.deactivate accountId) db' .returned
  | authority {d op db'} : OrderWrite E db (.authority d op) db' .returned

theorem orderWrite_of_act {pc pc' busy : Pc} {run : AcmeDb → Except Pc (AcmeDb × Pc)}
    (hact : pc.act E = .write run busy) (hrun : run db = .ok (db', pc')) :
    OrderWrite E db pc db' pc' := by
  unfold Pc.act at hact
  cases pc with
  | createOrder accountId is notBefore notAfter moment draw =>
    cases hact
    simp only [Pc.runCreateOrder] at hrun
    cases h : createOrder draw accountId is notBefore notAfter moment db with
    | none => simp [h] at hrun
    | some w =>
      simp only [h] at hrun
      cases hrun
      exact .createOrder h
  | beginChallenge challengeId outcome =>
    cases hact
    simp only [Pc.runBegin] at hrun
    cases hrun
    cases h : (claimChallenge db challengeId).2 with
    | true => exact .beginChallenge h
    | false =>
      rw [claimChallenge_eq_self h]
      exact .begun h
  | record challengeId authz outcome =>
    cases hact
    cases hrun
    exact .record
  | claim d account order der =>
    cases hact
    simp only [Pc.runClaim] at hrun
    cases hrun
    cases h : (claimForIssuance db order.id).2 with
    | true => exact .claim h
    | false =>
      rw [claimForIssuance_eq_self h]
      exact .claimed h
  | issue d account order der =>
    cases hact
    simp only [Pc.runIssue] at hrun
    cases h : Certs.signCsrAndStore E d db.ca .acme der.parsed .server Leaf.defaultDays
        (Pc.csrOptions order.identifiers) (some account.issuerId) .acme with
    | error e => simp [h] at hrun
    | ok x =>
      obtain ⟨ca, issued⟩ := x
      obtain ⟨issuer, hissuer, hresolved, hid, hsigned, hserial, rfl, -⟩ := signCsrAndStore_spec h
      simp only [h] at hrun
      cases hrun
      exact .issue hid
  | release orderId e =>
    cases hact
    cases hrun
    exact .release
  | attach orderId certificateId =>
    cases hact
    cases hrun
    exact .attach
  | deactivate accountId =>
    cases hact
    cases hrun
    exact .deactivate
  | authority d op =>
    cases hact
    cases hrun
    exact .authority
  | _ => cases hact

/-- What a call relies on at a place: what it works on belongs to the account, and what it has claimed
or issued nobody else has. -/
def Rightful (db : AcmeDb) (accountId : Str) : Pc → Prop
  | .createOrder owner .. => owner = accountId
  | .beginChallenge challengeId _ | .validate challengeId _ => OwnsChallenge db accountId challengeId
  | .record challengeId authz _ =>
    OwnsChallenge db accountId challengeId ∧ OwnsAuthz db accountId authz.id
  | .claim _ _ order _ => OwnsOrder db accountId order.id
  | .issue _ _ order _ => OwnsOrder db accountId order.id ∧ Claimed db order.id
  | .release orderId _ => OwnsOrder db accountId orderId ∧ Claimed db orderId
  | .attach orderId certificateId => OwnsOrder db accountId orderId ∧ Claimed db orderId ∧
    Unnamed db certificateId ∧ HasCertificate db certificateId
  | .request .. | .verified .. | .deactivate _ | .authority .. => False
  | _ => True

/-- What a call has for itself: a claim, a certificate that is not attached yet. -/
def Pc.Holds : Pc → Resource → Prop
  | .issue _ _ order _, .order orderId => order.id = orderId
  | .release claimed _, .order orderId | .attach claimed _, .order orderId => claimed = orderId
  | .attach _ issued, .certificate certificateId => issued = certificateId
  | _, _ => False

/-- A certificate that an order names is there, and no other order names it. -/
structure Named (db : AcmeDb) : Prop where
  there : ∀ o ∈ db.orders, ∀ id, o.certificateId = some id → HasCertificate db id
  distinct : ∀ o ∈ db.orders, ∀ o' ∈ db.orders, o.certificateId ≠ none →
    o.certificateId = o'.certificateId → o = o'

section writes

variable {pc pc' : Pc} (hw : OrderWrite E db pc db' pc')

include hw

theorem persists_of_orderWrite (h : Rightful db A pc) : Persists db db' := by
  cases hw with
  | createOrder hnew => exact .of_extends (extends_createOrder hnew)
  | beginChallenge | begun =>
    first | exact .of_extends extends_claimChallenge | exact .refl db
  | @record challengeId authz outcome =>
    cases outcome with
    | success now =>
      refine { Persists.refl db with authorization := fun a ha => ?_, challenge := fun c hc => ?_ }
      · refine ⟨_, mem_recordChallengeSuccess_authorizations.2 ⟨a, ha, rfl⟩, ?_⟩
        split_ifs <;> exact ⟨rfl, rfl⟩
      · refine ⟨_, mem_recordChallengeSuccess.2 ⟨c, hc, rfl⟩, ?_⟩
        split_ifs <;> exact ⟨rfl, rfl⟩
    | refused error => exact .of_extends extends_recordChallengeFailure
    | crashed name => exact .of_extends extends_recordChallengeFailure
  | claim => exact .of_extends extends_claimForIssuance
  | claimed => exact .refl db
  | @issue d account order der row hid =>
    refine { Persists.refl db with certificate := fun c hc => ?_ }
    have hlt : c.id < row.id := hid ▸ Table.lt_nextId hc
    exact ⟨c, Table.mem_upsert.2 (.inr ⟨hc, hlt.ne⟩), rfl⟩
  | release => exact .of_extends (extends_releaseClaim h.2)
  | attach => exact .of_extends (extends_attachCertificate h.2.1)
  | deactivate | authority => exact h.elim

/-- A claim comes off by the call that has it only. -/
theorem claimed_of_orderWrite (h : Rightful db A pc) {orderId : Str} (hclaimed : Claimed db orderId)
    (hapart : ¬ pc.Holds (.order orderId)) : Claimed db' orderId := by
  obtain ⟨o, ho, rfl, hstatus, hnone⟩ := hclaimed
  cases hw with
  | createOrder hnew =>
    obtain ⟨order, -, -, -, -, -, hfresh, hgrown, -⟩ := createOrder_spec hnew
    exact ⟨o, hgrown.orders ▸ Table.mem_upsert.2 (.inr ⟨ho, hfresh o ho⟩), rfl, hstatus, hnone⟩
  | @record challengeId authz outcome => cases outcome <;> exact ⟨o, ho, rfl, hstatus, hnone⟩
  | @claim d account order der hclaim =>
    have hmem : o ∈ (claimForIssuance db order.id).1.orders :=
      mem_claimForIssuance.2 ⟨o, ho, if_neg fun hmatch => by simp [hstatus] at hmatch⟩
    exact ⟨o, hmem, rfl, hstatus, hnone⟩
  | release =>
    exact ⟨o, mem_releaseClaim.2 ⟨o, ho, if_neg (Ne.symm hapart)⟩, rfl, hstatus, hnone⟩
  | attach =>
    exact ⟨o, mem_attachCertificate.2 ⟨o, ho, if_neg (Ne.symm hapart)⟩, rfl, hstatus, hnone⟩
  | deactivate | authority => exact h.elim
  | beginChallenge | begun | claimed | issue => exact ⟨o, ho, rfl, hstatus, hnone⟩

/-- An order gets its certificate from the call that has it only. -/
theorem unnamed_of_orderWrite (h : Rightful db A pc) {id : ℕ} (hunnamed : Unnamed db id)
    (hapart : ¬ pc.Holds (.certificate id)) : Unnamed db' id := by
  intro o ho
  cases hw with
  | createOrder hnew =>
    obtain ⟨order, -, -, -, -, hnone, -, hgrown, -⟩ := createOrder_spec hnew
    rw [hgrown.orders, Table.mem_upsert] at ho
    rcases ho with rfl | ⟨ho, -⟩
    · simp [hnone]
    · exact hunnamed o ho
  | @record challengeId authz outcome => cases outcome <;> exact hunnamed o ho
  | claim =>
    obtain ⟨x, hx, rfl⟩ := mem_claimForIssuance.1 ho
    have hx := hunnamed x hx
    split_ifs <;> exact hx
  | release =>
    obtain ⟨x, hx, rfl⟩ := mem_releaseClaim.1 ho
    have hx := hunnamed x hx
    split_ifs <;> exact hx
  | attach =>
    obtain ⟨x, hx, rfl⟩ := mem_attachCertificate.1 ho
    split_ifs
    · exact fun heq => hapart (Option.some.inj heq)
    · exact hunnamed x hx
  | deactivate | authority => exact h.elim
  | beginChallenge | begun | claimed | issue => exact hunnamed o ho

theorem named_of_orderWrite (h : Rightful db A pc) (hnamed : Named db) : Named db' := by
  have hpersists := persists_of_orderWrite hw h
  cases hw with
  | createOrder hnew =>
    obtain ⟨order, -, -, -, -, hnone, -, hgrown, -⟩ := createOrder_spec hnew
    have hold : ∀ o ∈ db'.orders, o.certificateId ≠ none → o ∈ db.orders := by
      intro o ho hne
      rw [hgrown.orders, Table.mem_upsert] at ho
      rcases ho with rfl | ⟨ho, -⟩
      · exact absurd hnone hne
      · exact ho
    refine ⟨fun o ho id hid => ?_, fun o ho o' ho' hne heq => ?_⟩
    · exact hpersists.hasCertificate (hnamed.there o (hold o ho (by simp [hid])) id hid)
    · exact hnamed.distinct o (hold o ho hne) o' (hold o' ho' (heq ▸ hne)) hne heq
  | @record challengeId authz outcome => cases outcome <;> exact ⟨hnamed.there, hnamed.distinct⟩
  | @claim d account order der hclaim =>
    have hold : ∀ o ∈ (claimForIssuance db order.id).1.orders, o.certificateId ≠ none → o ∈ db.orders := by
      intro o ho hne
      obtain ⟨x, hx, rfl⟩ := mem_claimForIssuance.1 ho
      split_ifs at hne ⊢ with hmatch
      · exact absurd hmatch.1.2 hne
      · exact hx
    refine ⟨fun o ho id hid => hnamed.there o (hold o ho (by simp [hid])) id hid,
      fun o ho o' ho' hne heq => ?_⟩
    exact hnamed.distinct o (hold o ho hne) o' (hold o' ho' (heq ▸ hne)) hne heq
  | @release orderId e =>
    have hold : ∀ o ∈ (releaseClaim db orderId).orders, o.certificateId ≠ none → o ∈ db.orders := by
      intro o ho hne
      obtain ⟨x, hx, rfl⟩ := mem_releaseClaim.1 ho
      split_ifs at hne ⊢ with hid
      · exact absurd (certificateId_of_claimed h.2 hx hid) hne
      · exact hx
    refine ⟨fun o ho id hid => hnamed.there o (hold o ho (by simp [hid])) id hid,
      fun o ho o' ho' hne heq => ?_⟩
    exact hnamed.distinct o (hold o ho hne) o' (hold o' ho' (heq ▸ hne)) hne heq
  | @attach orderId certificateId =>
    obtain ⟨-, -, hunnamed, hthere⟩ := h
    have hold : ∀ o ∈ (attachCertificate db orderId certificateId).orders,
        (o.id = orderId ∧ o.certificateId = some certificateId) ∨ o ∈ db.orders := by
      intro o ho
      obtain ⟨x, hx, rfl⟩ := mem_attachCertificate.1 ho
      split_ifs with hid
      · exact .inl ⟨hid, rfl⟩
      · exact .inr hx
    refine ⟨fun o ho id hid => ?_, fun o ho o' ho' hne heq => ?_⟩
    · rcases hold o ho with ⟨-, hc⟩ | ho
      · obtain rfl := Option.some.inj (hc.symm.trans hid)
        exact hthere
      · exact hnamed.there o ho id hid
    · rcases hold o ho with ⟨hid, hc⟩ | hold₁
      · rcases hold o' ho' with ⟨hid', -⟩ | hold₂
        · exact Table.eq_of_key ho ho' (hid.trans hid'.symm)
        · exact absurd (heq ▸ hc) (hunnamed o' hold₂)
      · rcases hold o' ho' with ⟨-, hc'⟩ | hold₂
        · exact absurd (heq.trans hc') (hunnamed o hold₁)
        · exact hnamed.distinct o hold₁ o' hold₂ hne heq
  | issue => exact ⟨fun o ho id hid => hpersists.hasCertificate (hnamed.there o ho id hid),
      hnamed.distinct⟩
  | deactivate | authority => exact h.elim
  | beginChallenge | begun | claimed => exact ⟨hnamed.there, hnamed.distinct⟩

/-- What the call works on is the account's, and nothing else is written. -/
theorem spares_of_orderWrite (h : Rightful db A pc) : Spares A db db' := by
  cases hw with
  | createOrder hnew =>
    obtain ⟨order, -, -, -, -, -, hfresh, hgrown, -⟩ := createOrder_spec hnew
    exact
      { account := fun a ha _ => hgrown.accounts ▸ ha
        order := fun o ho _ => hgrown.orders ▸ Table.mem_upsert.2 (.inr ⟨ho, hfresh o ho⟩)
        authorization := fun a ha _ => hgrown.authorizations a ha
        challenge := fun c hc _ => hgrown.challenges c hc
        certificate := fun c hc _ => hgrown.ca ▸ hc }
  | beginChallenge hwon =>
    refine { Spares.refl A db with challenge := fun c hc hnot => mem_claimChallenge.2 ⟨c, hc, if_neg ?_⟩ }
    rintro ⟨rfl, -⟩
    exact hnot ((ownsChallenge_iff hc).1 h)
  | @record challengeId authz outcome =>
    have hfailure : ∀ problem, Spares A db (recordChallengeFailure db challengeId problem) := fun problem => by
      refine { Spares.refl A db with
        challenge := fun c hc hnot => mem_recordChallengeFailure.2 ⟨c, hc, if_neg ?_⟩ }
      rintro ⟨rfl, -⟩
      exact hnot ((ownsChallenge_iff hc).1 h.1)
    cases outcome with
    | success now =>
      refine { Spares.refl A db with authorization := fun a ha hnot => ?_, challenge := fun c hc hnot => ?_ }
      · refine mem_recordChallengeSuccess_authorizations.2 ⟨a, ha, if_neg ?_⟩
        exact fun hid => hnot ((ownsAuthz_iff ha).1 (hid ▸ h.2))
      · refine mem_recordChallengeSuccess.2 ⟨c, hc, if_neg ?_⟩
        exact fun hid => hnot ((ownsChallenge_iff hc).1 (hid ▸ h.1))
    | refused error => exact hfailure _
    | crashed name => exact hfailure _
  | claim =>
    refine { Spares.refl A db with order := fun o ho hnot => mem_claimForIssuance.2 ⟨o, ho, if_neg ?_⟩ }
    exact fun hmatch => hnot ((ownsOrder_iff ho).1 (hmatch.1.1 ▸ h))
  | @issue d account order der row hid =>
    refine { Spares.refl A db with certificate := fun c hc _ => Table.mem_upsert.2 (.inr ⟨hc, ?_⟩) }
    exact (hid ▸ Table.lt_nextId hc : c.id < row.id).ne
  | release =>
    refine { Spares.refl A db with order := fun o ho hnot => mem_releaseClaim.2 ⟨o, ho, if_neg ?_⟩ }
    exact fun hid => hnot ((ownsOrder_iff ho).1 (hid ▸ h.1))
  | attach =>
    refine { Spares.refl A db with order := fun o ho hnot => mem_attachCertificate.2 ⟨o, ho, if_neg ?_⟩ }
    exact fun hid => hnot ((ownsOrder_iff ho).1 (hid ▸ h.1))
  | deactivate | authority => exact h.elim
  | begun | claimed => exact .refl A db

end writes

/-! ### What the others rely on -/

/-- What a write keeps, but for the claims and certificates its call has: the links of rows, claims, and
certificates that no order names. -/
structure Sustains (has : Resource → Prop) (db db' : AcmeDb) : Prop extends Persists db db' where
  claimed : ∀ orderId, Claimed db orderId → ¬ has (.order orderId) → Claimed db' orderId
  unnamed : ∀ id, Unnamed db id → ¬ has (.certificate id) → Unnamed db' id

/-- What a call relies on is kept by the writes of the others. -/
theorem Rightful.kept {has : Resource → Prop} {pc : Pc} (h : Rightful db A pc) (hs : Sustains has db db')
    (hapart : ∀ x, has x → ¬ pc.Holds x) : Rightful db' A pc := by
  have hclaimed : ∀ orderId, pc.Holds (.order orderId) → Claimed db orderId → Claimed db' orderId :=
    fun orderId hholds hclaimed => hs.claimed orderId hclaimed fun hhas => hapart _ hhas hholds
  cases pc with
  | createOrder => exact h
  | beginChallenge | validate => exact hs.ownsChallenge h
  | record => exact ⟨hs.ownsChallenge h.1, hs.ownsAuthz h.2⟩
  | claim => exact hs.ownsOrder h
  | issue => exact ⟨hs.ownsOrder h.1, hclaimed _ rfl h.2⟩
  | release => exact ⟨hs.ownsOrder h.1, hclaimed _ rfl h.2⟩
  | attach orderId certificateId =>
    obtain ⟨howns, hclaim, hunnamed, hthere⟩ := h
    exact ⟨hs.ownsOrder howns, hclaimed _ rfl hclaim,
      hs.unnamed _ hunnamed fun hhas => hapart _ hhas rfl, hs.hasCertificate hthere⟩
  | request | verified | deactivate | authority => exact h.elim
  | _ => trivial

/-- A write that leaves orders alone, with all that belongs to them, and deletes no certificate. -/
theorem sustains_of_eq (horders : db'.orders = db.orders)
    (hauthz : db'.authorizations = db.authorizations) (hchallenges : db'.challenges = db.challenges)
    (hcertificates : ∀ c ∈ db.ca.certificates, ∃ c' ∈ db'.ca.certificates, c'.id = c.id) :
    Sustains (fun _ => False) db db' where
  order o ho := ⟨o, horders ▸ ho, rfl, rfl, fun _ => rfl⟩
  authorization a ha := ⟨a, hauthz ▸ ha, rfl, rfl⟩
  challenge c hc := ⟨c, hchallenges ▸ hc, rfl, rfl⟩
  certificate := hcertificates
  claimed _ h _ := by
    unfold Claimed at h ⊢
    rwa [horders]
  unnamed _ h _ := by
    unfold Unnamed at h ⊢
    rwa [horders]

theorem Named.kept (h : Named db) (horders : db'.orders = db.orders)
    (hcertificates : ∀ c ∈ db.ca.certificates, ∃ c' ∈ db'.ca.certificates, c'.id = c.id) : Named db' where
  there o ho id hid := by
    obtain ⟨c, hc, hcid⟩ := h.there o (horders ▸ ho) id hid
    obtain ⟨c', hc', hcid'⟩ := hcertificates c hc
    exact ⟨c', hc', hcid'.trans hcid⟩
  distinct o ho o' ho' := h.distinct o (horders ▸ ho) o' (horders ▸ ho')

theorem sustains_of_orderWrite {pc pc' : Pc} (hw : OrderWrite E db pc db' pc') (h : Rightful db A pc) :
    Sustains pc.Holds db db' :=
  { persists_of_orderWrite hw h with
    claimed := fun _ hclaimed hapart => claimed_of_orderWrite hw h hclaimed hapart
    unnamed := fun _ hunnamed hapart => unnamed_of_orderWrite hw h hunnamed hapart }

/-- Where a call goes on after a write, it works on what is the account's, too. -/
theorem rightful_of_orderWrite {pc pc' : Pc} (hw : OrderWrite E db pc db' pc') (hnamed : Named db)
    (h : Rightful db A pc) : Rightful db' A pc' := by
  have hpersists := persists_of_orderWrite hw h
  cases hw with
  | beginChallenge => exact hpersists.ownsChallenge h
  | @claim d account order der hwon =>
    refine ⟨hpersists.ownsOrder h, ?_⟩
    obtain ⟨o, ho, hid, hnone, hstatus⟩ := claimForIssuance_eq_true.1 hwon
    have hmem : { o with status := .processing } ∈ (claimForIssuance db order.id).1.orders :=
      mem_claimForIssuance.2 ⟨o, ho, if_pos ⟨⟨hid, hnone⟩, hstatus⟩⟩
    exact ⟨_, hmem, hid, rfl, hnone⟩
  | @issue d account order der row hid =>
    refine ⟨h.1, h.2, fun o ho hname => ?_, ⟨row, Table.mem_upsert.2 (.inl rfl), rfl⟩⟩
    -- An order names only certificates that are there.
    obtain ⟨c, hc, hcid⟩ := hnamed.there o ho row.id hname
    exact absurd hcid (hid ▸ Table.lt_nextId hc : c.id < row.id).ne
  | _ => trivial

/-- What a call has after a write it had before, or nobody else can have it. -/
theorem holds_of_orderWrite {pc pc' : Pc} (hw : OrderWrite E db pc db' pc') {x : Resource}
    (hx : pc'.Holds x) : pc.Holds x ∨ ∀ (A : Str) (pc₂ : Pc), Rightful db A pc₂ → ¬ pc₂.Holds x := by
  cases hw with
  | @claim d account order der hwon =>
    refine .inr fun A pc₂ hG hholds => ?_
    cases x with
    | order orderId =>
      obtain rfl : order.id = orderId := hx
      obtain ⟨o, ho, hid, -, hstatus⟩ := claimForIssuance_eq_true.1 hwon
      have hclaimed : Claimed db order.id := by
        cases pc₂ with
        | issue _ _ order₂ _ =>
          have heq : order₂.id = order.id := hholds
          exact heq ▸ hG.2
        | release orderId₂ _ =>
          have heq : orderId₂ = order.id := hholds
          exact heq ▸ hG.2
        | attach orderId₂ _ =>
          have heq : orderId₂ = order.id := hholds
          exact heq ▸ hG.2.1
        | _ => exact hholds.elim
      obtain ⟨o', ho', hid', hprocessing, -⟩ := hclaimed
      obtain rfl : o = o' := Table.eq_of_key ho ho' (hid.trans hid'.symm)
      rw [hprocessing] at hstatus
      rcases hstatus with h | h <;> cases h
    | _ => exact hx.elim
  | @issue d account order der row hid =>
    cases x with
    | order orderId => exact .inl hx
    | certificate id =>
      refine .inr fun A pc₂ hG hholds => ?_
      obtain rfl : row.id = id := hx
      cases pc₂ with
      | attach orderId certificateId =>
        obtain rfl : certificateId = row.id := hholds
        obtain ⟨c, hc, hcid⟩ := hG.2.2.2
        exact absurd hcid (hid ▸ Table.lt_nextId hc : c.id < row.id).ne
      | _ => exact hholds.elim
    | task => exact hx.elim
  | _ => exact hx.elim

end Acme

end Cabin
