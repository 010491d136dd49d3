import Cabin.Acme.Accounts

/-!
# The steps of the calls on accounts

What a call on accounts can do at each of its places, once and for all.

* `AccountLook` : what a query sees and where the call goes, `accountLook_of_select`;
* `AccountWrite`, `AccountRefusal` : what a write does that is accepted or refused,
  `accountWrite_of_run`, `accountRefusal_of_run`;
* `AcmeAccount.Became` : what a write leaves of a row, `AccountWrite.origin`.
-/

namespace Cabin

namespace Acme

open AccountDb AccountPlace

/-! ### Problems -/

/-- A problem for the client, and not an exception that escapes. -/
def Raised.IsProblem : Raised → Prop
  | .acme _ => True
  | .crash _ => False

instance : DecidablePred Raised.IsProblem
  | .acme _ => .isTrue trivial
  | .crash _ => .isFalse id

/-- A problem of another kind than an external account binding that is refused. -/
def Raised.IsOther (e : Raised) : Prop := e.IsProblem ∧ e ≠ eabRefused

theorem raises_problem {α : Type} {x : Except Raised α} (h : Raises Raised.IsOther x) :
    Raises Raised.IsProblem x := fun e he => (h e he).1

theorem isOther_malformed (detail : String) : (malformed detail).IsOther :=
  ⟨trivial, by simp [malformed, eabRefused, unauthorized]⟩

theorem raises_parseContacts (raw : Json) : Raises Raised.IsOther (parseContacts raw) := by
  have hcontact : ∀ entry, Raises Raised.IsOther (parseContact entry) := by
    intro entry
    unfold parseContact
    split
    · exact raises_error (isOther_malformed _)
    · refine raises_bind (raises_refuse (isOther_malformed _)) fun _ _ => ?_
      exact raises_bind (raises_refuse (isOther_malformed _)) fun _ _ => raises_pure
  unfold parseContacts
  split
  · refine raises_bind (raises_refuse (isOther_malformed _)) fun _ _ => ?_
    exact raises_mapM fun entry _ => hcontact entry
  · exact raises_error (isOther_malformed _)

/-! ### Queries -/

section looks

variable (K : Keyring)

/-- What a query finds, and where the call goes. -/
inductive AccountLook (db : AccountDb) : AccountRequest K.toJose → AccountPlace → AccountPlace → Prop
  | other {r p e} (h : e.IsOther) : AccountLook db r p (.raised e)
  | unverified {issuerId verified newId e} (h : verified = .error e) :
      AccountLook db (.newAccount issuerId verified newId) .start (.raised e)
  | verified {issuerId verified newId issuer payload} {key : LoadedKey K.toJose}
      (h : verified = .ok (key, some payload)) :
      AccountLook db (.newAccount issuerId verified newId) .start (.existing issuer key.1 payload)
  | found {issuerId verified newId issuer key payload a}
      (hfound : db.findAccountByKey key.thumbprint = some a) (hvalid : a.status = .valid)
      (hissuer : a.issuerId = issuerId) :
      AccountLook db (.newAccount issuerId verified newId) (.existing issuer key payload)
        (.answered 200 a)
  | bare {issuerId verified newId issuer key payload}
      (hnone : db.findAccountByKey key.thumbprint = none)
      (hbinding : payload.externalAccountBinding = none) :
      AccountLook db (.newAccount issuerId verified newId) (.existing issuer key payload)
        (.requirement key payload)
  | presented {issuerId verified newId issuer key payload binding}
      (hnone : db.findAccountByKey key.thumbprint = none)
      (hbinding : payload.externalAccountBinding = some binding) :
      AccountLook db (.newAccount issuerId verified newId) (.existing issuer key payload)
        (.external key payload binding)
  | free {issuerId verified newId key payload contacts} (h : db.requireEab = false) :
      AccountLook db (.newAccount issuerId verified newId) (.requirement key payload)
        (.getOrCreate ⟨key, contacts, none⟩)
  | refused {issuerId verified newId key payload binding e}
      (h : verifyEab K db binding key.jwk issuerId = .error e) :
      AccountLook db (.newAccount issuerId verified newId) (.external key payload binding) (.raised e)
  | accepted {issuerId verified newId key payload binding row contacts}
      (h : verifyEab K db binding key.jwk issuerId = .ok row) :
      AccountLook db (.newAccount issuerId verified newId) (.external key payload binding)
        (.getOrCreate ⟨key, contacts, some row⟩)
  | raced {issuerId verified newId form a}
      (hfound : db.findAccountByKey form.key.thumbprint = some a) :
      AccountLook db (.newAccount issuerId verified newId) (.getOrCreate form)
        (ofAccount form.binding a false)
  | fresh {issuerId verified newId form} (hnone : db.findAccountByKey form.key.thumbprint = none) :
      AccountLook db (.newAccount issuerId verified newId) (.getOrCreate form) (.insert form)
  | vanished {issuerId verified newId form} (hnone : db.findAccountByKey form.key.thumbprint = none) :
      AccountLook db (.newAccount issuerId verified newId) (.readBack form) (crash "IntegrityError")
  | winner {issuerId verified newId form a}
      (hfound : db.findAccountByKey form.key.thumbprint = some a) (hbinding : form.binding = none) :
      AccountLook db (.newAccount issuerId verified newId) (.readBack form) (.answered 200 a)
  | expired {issuerId verified newId form a b}
      (hfound : db.findAccountByKey form.key.thumbprint = some a) (hbinding : form.binding = some b) :
      AccountLook db (.newAccount issuerId verified newId) (.readBack form) (.reload b a)
  | deleted {issuerId verified newId b a} (hnone : db.eabKeys.get? b.id = none) :
      AccountLook db (.newAccount issuerId verified newId) (.reload b a) (crash "ObjectDeletedError")
  | reloaded {issuerId verified newId b b' a} (hfound : db.eabKeys.get? b.id = some b') :
      AccountLook db (.newAccount issuerId verified newId) (.reload b a) (ofAccount (some b') a false)
  | unauthenticated {accountId post e} (h : accountOf db post = .error e) :
      AccountLook db (.account accountId post) .start (.raised e)
  | read {accountId post a payload} (h : accountOf db post = .ok (a, payload)) :
      AccountLook db (.account accountId post) .start (.answered 200 a)
  | deactivating {accountId post a payload} (h : accountOf db post = .ok (a, payload)) :
      AccountLook db (.account accountId post) .start (.deactivate a)
  | updating {accountId post a payload contacts} (h : accountOf db post = .ok (a, payload)) :
      AccountLook db (.account accountId post) .start (.setContacts a contacts)
  | strange {post e} (h : accountOf db post = .error e) :
      AccountLook db (.keyChange post) .start (.raised e)
  | unproven {post a payload e} (h : accountOf db post = .ok (a, payload))
      (hkey : verifyKeyChange K db a payload = .error e) :
      AccountLook db (.keyChange post) .start (.raised e)
  | proven {post a payload key} (h : accountOf db post = .ok (a, payload))
      (hkey : verifyKeyChange K db a payload = .ok key) :
      AccountLook db (.keyChange post) .start (.conflict a key)
  | same {r a key} (hnone : db.findAccountByKey key.thumbprint = none) :
      AccountLook db r (.conflict a key) (.answered 200 a)
  | changing {r a key} (hnone : db.findAccountByKey key.thumbprint = none) :
      AccountLook db r (.conflict a key) (.rotate a key)
  | settled {keyId now} : AccountLook db (.revokeKey keyId now) .start .settled
  | revoking {keyId now key} (h : db.eabKeys.get? keyId = some key) :
      AccountLook db (.revokeKey keyId now) .start (.revoke key)

variable {K} {db : AccountDb} {issuerId : ℕ} {newId : NewId K.toJose}
  {verified : Except Raised (LoadedKey K.toJose × Option NewAccountPayload)}

theorem look_newAccount :
    AccountLook K db (.newAccount issuerId verified newId) .start
      (ofRequest K (.newAccount issuerId verified newId) db) := by
  simp only [ofRequest, ofIssuer]
  cases db.cas.get? issuerId with
  | none => exact .other ⟨trivial, by decide⟩
  | some issuer =>
    dsimp only
    split_ifs
    · exact .other ⟨trivial, by decide⟩
    · cases verified with
      | error e => exact .unverified rfl
      | ok v =>
        obtain ⟨key, payload⟩ := v
        cases payload with
        | none => exact .other (isOther_malformed _)
        | some payload => exact .verified rfl

theorem AccountLook.ofExcept {α : Type} {r : AccountRequest K.toJose} {p : AccountPlace}
    {next : α → AccountPlace} {x : Except Raised α} (hraises : Raises Raised.IsOther x)
    (h : ∀ a, x = .ok a → AccountLook K db r p (next a)) :
    AccountLook K db r p (AccountPlace.ofExcept next x) := by
  cases x with
  | ok a => exact h a rfl
  | error e => exact .other (hraises e rfl)

theorem isOther_rejectUnusable (a : AcmeAccount) : Raises Raised.IsOther (rejectUnusable a) := by
  refine raises_refuse ⟨trivial, ?_⟩
  cases a.status with
  | valid | deactivated | revoked => decide

/-- A refusal with a text that does not begin like that of an external account binding. -/
theorem isOther_unauthorized {detail : String}
    (h : detail.toList.head? ≠ some 't') : (unauthorized detail).IsOther := by
  refine ⟨trivial, fun heq => h ?_⟩
  have hdetail : detail = "the external account binding does not authorize this registration" := by
    simpa [unauthorized, eabRefused] using heq
  rw [hdetail]
  rfl

theorem look_existing (issuer : CaCertificate) (key : AccountKey) (payload : NewAccountPayload) :
    AccountLook K db (.newAccount issuerId verified newId) (.existing issuer key payload)
      (match db.findAccountByKey key.thumbprint with
        | some account => ofExisting issuerId account
        | none => ofNone issuer key payload) := by
  cases hfound : db.findAccountByKey key.thumbprint with
  | some a =>
    refine .ofExcept ?_ fun u hchecks => ?_
    · refine raises_bind (isOther_rejectUnusable a) fun _ _ => ?_
      exact raises_refuse ⟨trivial, by decide⟩
    · simp only [bind_eq_ok, rejectUnusable, rejectOtherIssuer, refuse_eq_ok, not_not] at hchecks
      obtain ⟨-, hvalid, hissuer⟩ := hchecks
      exact .found hfound hvalid hissuer
  | none =>
    dsimp only [ofNone]
    split_ifs
    · exact .other ⟨trivial, by decide⟩
    · exact .other (isOther_unauthorized (by simp [toString]))
    · cases hbinding : payload.externalAccountBinding with
      | none => exact .bare hfound hbinding
      | some binding => exact .presented hfound hbinding

/-- The contacts are read on the way to `get_or_create_account`. -/
theorem look_ofBinding {r : AccountRequest K.toJose} {p : AccountPlace} {key : AccountKey}
    {binding : Option AcmeEabKey}
    (h : ∀ contacts, AccountLook K db r p (.getOrCreate ⟨key, contacts, binding⟩))
    (payload : NewAccountPayload) : AccountLook K db r p (ofBinding key payload binding) := by
  unfold ofBinding
  cases payload.contact with
  | none => exact h none
  | some raw => exact .ofExcept (raises_parseContacts raw) fun contacts _ => h (some contacts)

theorem look_registration {p : AccountPlace} {f : AccountDb → AccountPlace}
    (hact : registration K issuerId newId p = .select f) :
    AccountLook K db (.newAccount issuerId verified newId) p (f db) := by
  cases p with
  | existing issuer key payload =>
    cases hact
    exact look_existing issuer key payload
  | requirement key payload =>
    cases hact
    dsimp only
    split_ifs with hrequired
    · exact .other ⟨trivial, by decide⟩
    · exact look_ofBinding (fun contacts => .free (by simpa using hrequired)) payload
  | external key payload binding =>
    cases hact
    dsimp only
    cases hverify : verifyEab K db binding key.jwk issuerId with
    | error e => exact .refused hverify
    | ok row => exact look_ofBinding (fun contacts => .accepted hverify) payload
  | getOrCreate form =>
    cases hact
    dsimp only
    cases hfound : db.findAccountByKey form.key.thumbprint with
    | some a => exact .raced hfound
    | none => exact .fresh hfound
  | readBack form =>
    cases hact
    dsimp only
    cases hfound : db.findAccountByKey form.key.thumbprint with
    | none => exact .vanished hfound
    | some a =>
      unfold ofReadBack
      cases hbinding : form.binding with
      | none => exact .winner hfound hbinding
      | some b => exact .expired hfound hbinding
  | reload b a =>
    cases hact
    dsimp only
    cases hfound : db.eabKeys.get? b.id with
    | none => exact .deleted hfound
    | some b' => exact .reloaded hfound
  | _ => cases hact

theorem look_account (accountId : Str) (post : KidPost) :
    AccountLook K db (.account accountId post) .start
      (ofRequest K (.account accountId post) db) := by
  simp only [ofRequest]
  cases hfound : accountOf db post with
  | error e => exact .unauthenticated hfound
  | ok found =>
    obtain ⟨a, payload⟩ := found
    simp only [AccountPlace.ofExcept, ofOwner]
    split_ifs
    · exact .other ⟨trivial, by decide⟩
    · unfold ofPayload
      split
      · split_ifs
        · exact .deactivating hfound
        · exact .other (isOther_malformed _)
      · split
        · exact .read hfound
        · refine .ofExcept (raises_parseContacts _) fun contacts _ => ?_
          split_ifs
          · exact .read hfound
          · exact .updating hfound

theorem look_keyChange (post : KidPost) :
    AccountLook K db (.keyChange post) .start (ofRequest K (.keyChange post) db) := by
  simp only [ofRequest]
  cases hfound : accountOf db post with
  | error e => exact .strange hfound
  | ok found =>
    obtain ⟨a, payload⟩ := found
    simp only [AccountPlace.ofExcept]
    cases hkey : verifyKeyChange K db a payload with
    | error e => exact .unproven hfound hkey
    | ok key => exact .proven hfound hkey

theorem look_maintenance {r : AccountRequest K.toJose} {p : AccountPlace}
    {f : AccountDb → AccountPlace} (hact : maintenance p = .select f) :
    AccountLook K db r p (f db) := by
  cases p with
  | conflict a key =>
    cases hact
    dsimp only
    cases hfound : db.findAccountByKey key.thumbprint with
    | some a' => exact .other ⟨trivial, by decide⟩
    | none =>
      unfold ofConflict
      split_ifs
      · exact .same hfound
      · exact .changing hfound
  | _ => cases hact

/-- **What a query of a call finds.** -/
theorem accountLook_of_select {r : AccountRequest K.toJose} {p : AccountPlace}
    {f : AccountDb → AccountPlace} (hact : AccountPlace.act K r p = .select f) (db : AccountDb) :
    AccountLook K db r p (f db) := by
  cases r with
  | newAccount issuerId verified newId =>
    cases p with
    | start =>
      cases hact
      exact look_newAccount
    | _ => exact look_registration hact
  | account accountId post =>
    cases p with
    | start =>
      cases hact
      exact look_account accountId post
    | _ => exact look_maintenance hact
  | keyChange post =>
    cases p with
    | start =>
      cases hact
      exact look_keyChange post
    | _ => exact look_maintenance hact
  | revokeKey keyId now =>
    cases p with
    | start =>
      cases hact
      simp only [ofRequest, ofRevocation]
      cases hkey : db.eabKeys.get? keyId with
      | none => exact .settled
      | some key =>
        dsimp only
        split_ifs
        · exact .settled
        · exact .revoking hkey
    | _ => cases hact

end looks

/-! ### Writes -/

section writes

variable {J : Jose}

/-- What an accepted write does, and where the call goes. -/
inductive AccountWrite (db : AccountDb) :
    AccountRequest J → AccountPlace → AccountPlace → AccountDb → Prop
  | inserted {issuerId verified newId form}
      (hfresh : ∀ a ∈ db.accounts, ¬ Clash a (newRow issuerId newId form)) :
      AccountWrite db (.newAccount issuerId verified newId) (.insert form)
        (ofAccount form.binding (newRow issuerId newId form) true)
        { db with accounts := db.accounts.upsert (newRow issuerId newId form) }
  | bound {issuerId verified newId b a isNew} (hspend : db.Spendable b.id) (hkey : ¬ db.HasKey a.id)
      (haccount : db.HasAccount a.id) :
      AccountWrite db (.newAccount issuerId verified newId) (.bind b a isNew)
        (.answered (created isNew) a) (db.spend b.id a.id)
  | lost {issuerId verified newId b a isNew} (hspend : ¬ db.Spendable b.id) :
      AccountWrite db (.newAccount issuerId verified newId) (.bind b a isNew)
        (if isNew then .discard a else .raised eabRefused) db
  | discarded {issuerId verified newId a} (hkey : ¬ db.HasKey a.id) :
      AccountWrite db (.newAccount issuerId verified newId) (.discard a) (.raised eabRefused)
        { db with accounts := db.accounts.delete fun x => x.id == a.id }
  | deactivated {r a} :
      AccountWrite db r (.deactivate a) (.answered 200 { a with status := .deactivated })
        (db.updateAccount a.id (fun x => { x with status := .deactivated }) fun _ => rfl)
  | contacts {r a cs} :
      AccountWrite db r (.setContacts a cs) (.answered 200 { a with contacts := some cs })
        (db.updateAccount a.id (fun x => { x with contacts := some cs }) fun _ => rfl)
  | rotated {r a k} (hfresh : ∀ x ∈ db.accounts, x.id ≠ a.id → x.jwkThumbprint ≠ k.thumbprint) :
      AccountWrite db r (.rotate a k) (.answered 200 (rekeyed k a))
        (db.updateAccount a.id (rekeyed k) fun _ => rfl)
  | revoked {keyId now k} :
      AccountWrite db (.revokeKey keyId now) (.revoke k) .settled (db.revokeKey k.id now)

/-- Where a call goes whose write is refused. -/
inductive AccountRefusal (db : AccountDb) : AccountRequest J → AccountPlace → AccountPlace → Prop
  | insert {issuerId verified newId form}
      (hclash : ∃ a ∈ db.accounts, Clash a (newRow issuerId newId form)) :
      AccountRefusal db (.newAccount issuerId verified newId) (.insert form) (.readBack form)
  | bind {issuerId verified newId b a isNew} (hspend : db.Spendable b.id)
      (h : db.HasKey a.id ∨ ¬ db.HasAccount a.id) :
      AccountRefusal db (.newAccount issuerId verified newId) (.bind b a isNew) (.raised eabRefused)
  | discard {issuerId verified newId a} (hkey : db.HasKey a.id) :
      AccountRefusal db (.newAccount issuerId verified newId) (.discard a) (crash "IntegrityError")
  | deactivate {r a} (h : ¬ db.HasAccount a.id) :
      AccountRefusal db r (.deactivate a) (crash "StaleDataError")
  | setContacts {r a cs} (h : ¬ db.HasAccount a.id) :
      AccountRefusal db r (.setContacts a cs) (crash "StaleDataError")
  | stale {r a k} (h : ¬ db.HasAccount a.id) : AccountRefusal db r (.rotate a k) (crash "StaleDataError")
  | taken {r a k} (h : ∃ x ∈ db.accounts, x.id ≠ a.id ∧ x.jwkThumbprint = k.thumbprint) :
      AccountRefusal db r (.rotate a k) (crash "IntegrityError")

end writes

section

variable {K : Keyring} {db db' : AccountDb} {r : AccountRequest K.toJose} {p p' : AccountPlace}
  {run : AccountDb → Except AccountPlace (AccountDb × AccountPlace)} {busy : AccountPlace}

theorem rotate?_cases (db : AccountDb) (id : Str) (k : AccountKey) :
    ((∀ x ∈ db.accounts, x.id ≠ id → x.jwkThumbprint ≠ k.thumbprint) ∧
      db.rotate? id k = .ok (db.updateAccount id (rekeyed k) fun _ => rfl)) ∨
    (¬ db.HasAccount id ∧ db.rotate? id k = .error "StaleDataError") ∨
    (∃ x ∈ db.accounts, x.id ≠ id ∧ x.jwkThumbprint = k.thumbprint) ∧
      db.rotate? id k = .error "IntegrityError" := by
  unfold rotate?
  by_cases h : db.HasAccount id
  · by_cases htaken : ∃ x ∈ db.accounts, x.id ≠ id ∧ x.jwkThumbprint = k.thumbprint
    · exact .inr (.inr ⟨htaken, by simp [h, htaken]⟩)
    · refine .inl ⟨fun x hx hid heq => htaken ⟨x, hx, hid, heq⟩, ?_⟩
      rw [if_neg (not_not.2 h), if_neg htaken]
  · exact .inr (.inl ⟨h, by simp [h]⟩)

theorem bind?_cases (db : AccountDb) (keyId id : Str) :
    (db.Spendable keyId ∧ ¬ db.HasKey id ∧ db.HasAccount id ∧
      db.bind? keyId id = some (db.spend keyId id, true)) ∨
    (¬ db.Spendable keyId ∧ db.bind? keyId id = some (db, false)) ∨
    db.Spendable keyId ∧ (db.HasKey id ∨ ¬ db.HasAccount id) ∧ db.bind? keyId id = none := by
  unfold bind?
  split_ifs with hspend h
  · exact .inr (.inr ⟨hspend, h, rfl⟩)
  · rw [not_or, not_not] at h
    exact .inl ⟨hspend, h.1, h.2, rfl⟩
  · exact .inr (.inl ⟨hspend, rfl⟩)

theorem maintenance_cases (db : AccountDb) (hact : maintenance p = .write run busy) :
    busy = locked ∧ ((∃ db' p', run db = .ok (db', p') ∧ AccountWrite db r p p' db') ∨
      ∃ p', run db = .error p' ∧ AccountRefusal db r p p') := by
  cases p with
  | deactivate a =>
    cases hact
    refine ⟨rfl, ?_⟩
    by_cases h : db.HasAccount a.id
    · exact .inl ⟨_, _, by simp only [AccountDb.change?, if_pos h, ofUpdate], .deactivated⟩
    · exact .inr ⟨_, by simp only [AccountDb.change?, if_neg h, ofUpdate], .deactivate h⟩
  | setContacts a cs =>
    cases hact
    refine ⟨rfl, ?_⟩
    by_cases h : db.HasAccount a.id
    · exact .inl ⟨_, _, by simp only [AccountDb.change?, if_pos h, ofUpdate], .contacts⟩
    · exact .inr ⟨_, by simp only [AccountDb.change?, if_neg h, ofUpdate], .setContacts h⟩
  | rotate a k =>
    cases hact
    refine ⟨rfl, ?_⟩
    rcases rotate?_cases db a.id k with ⟨hfresh, h⟩ | ⟨hnone, h⟩ | ⟨htaken, h⟩
    · exact .inl ⟨_, _, by simp only [h, ofUpdate], .rotated hfresh⟩
    · exact .inr ⟨_, by simp only [h, ofUpdate], .stale hnone⟩
    · exact .inr ⟨_, by simp only [h, ofUpdate], .taken htaken⟩
  | _ => cases hact

/-- **What a write of a call does**, accepted or refused. -/
theorem accountWrite_cases (db : AccountDb) (hact : AccountPlace.act K r p = .write run busy) :
    busy = locked ∧ ((∃ db' p', run db = .ok (db', p') ∧ AccountWrite db r p p' db') ∨
      ∃ p', run db = .error p' ∧ AccountRefusal db r p p') := by
  cases r with
  | newAccount issuerId verified newId =>
    cases p with
    | insert form =>
      cases hact
      refine ⟨rfl, ?_⟩
      by_cases h : ∃ a ∈ db.accounts, Clash a (newRow issuerId newId form)
      · exact .inr ⟨_, by simp [insert?, h, ofInsert], .insert h⟩
      · refine .inl ⟨_, _, by simp only [insert?, if_neg h, ofInsert], .inserted ?_⟩
        exact fun a ha hclash => h ⟨a, ha, hclash⟩
    | bind b a isNew =>
      cases hact
      refine ⟨rfl, ?_⟩
      rcases bind?_cases db b.id a.id with
        ⟨hspend, hkey, haccount, h⟩ | ⟨hspend, h⟩ | ⟨hspend, hrefused, h⟩
      · exact .inl ⟨_, _, by simp only [h, ofBind], .bound hspend hkey haccount⟩
      · exact .inl ⟨_, _, by simp only [h, ofBind], .lost hspend⟩
      · exact .inr ⟨_, by simp only [h, ofBind], .bind hspend hrefused⟩
    | discard a =>
      cases hact
      refine ⟨rfl, ?_⟩
      by_cases h : db.HasKey a.id
      · exact .inr ⟨_, by simp only [deleteAccount?, if_pos h, ofDiscard], .discard h⟩
      · exact .inl ⟨_, _, by simp only [deleteAccount?, if_neg h, ofDiscard], .discarded h⟩
    | _ => cases hact
  | account accountId post =>
    cases p with
    | start => cases hact
    | _ => exact maintenance_cases db hact
  | keyChange post =>
    cases p with
    | start => cases hact
    | _ => exact maintenance_cases db hact
  | revokeKey keyId now =>
    cases p with
    | revoke k =>
      cases hact
      exact ⟨rfl, .inl ⟨_, _, rfl, .revoked⟩⟩
    | _ => cases hact

theorem accountWrite_of_run (hact : AccountPlace.act K r p = .write run busy)
    (hrun : run db = .ok (db', p')) : AccountWrite db r p p' db' := by
  rcases (accountWrite_cases db hact).2 with ⟨w, q, hw, h⟩ | ⟨q, hq, -⟩
  · obtain ⟨rfl, rfl⟩ : w = db' ∧ q = p' := by simpa using hw.symm.trans hrun
    exact h
  · cases hq.symm.trans hrun

theorem accountRefusal_of_run (hact : AccountPlace.act K r p = .write run busy)
    (hrun : run db = .error p') : AccountRefusal db r p p' := by
  rcases (accountWrite_cases db hact).2 with ⟨w, q, hw, -⟩ | ⟨q, hq, h⟩
  · cases hw.symm.trans hrun
  · obtain rfl : q = p' := by simpa using hq.symm.trans hrun
    exact h

end

/-! ### Rows over time -/

/-- What a write leaves of a row. -/
structure AcmeAccount.Became (a a' : AcmeAccount) : Prop where
  id : a'.id = a.id
  kidHash : a'.kidHash = a.kidHash
  issuerId : a'.issuerId = a.issuerId
  /-- The status is the same, or the account is deactivated now. -/
  status : a'.status = a.status ∨ a'.status = .deactivated

namespace AcmeAccount.Became

theorem refl (a : AcmeAccount) : a.Became a := ⟨rfl, rfl, rfl, .inl rfl⟩

theorem trans {a b c : AcmeAccount} (hab : a.Became b) (hbc : b.Became c) : a.Became c where
  id := hbc.id.trans hab.id
  kidHash := hbc.kidHash.trans hab.kidHash
  issuerId := hbc.issuerId.trans hab.issuerId
  status := by
    rcases hbc.status with h | h
    · rw [h]
      exact hab.status
    · exact .inr h

/-- A deactivated account stays deactivated. -/
theorem deactivated {a b : AcmeAccount} (h : a.Became b) (ha : a.status = .deactivated) :
    b.status = .deactivated := by
  rcases h.status with h | h
  · exact h.trans ha
  · exact h

end AcmeAccount.Became

namespace AccountDb

variable {db : AccountDb} {id : Str} {a a' : AcmeAccount}

theorem mem_updateAccount {f : AcmeAccount → AcmeAccount} {hf : ∀ a, key (f a) = key a} :
    a' ∈ (db.updateAccount id f hf).accounts ↔
      ∃ a ∈ db.accounts, (if a.id = id then f a else a) = a' := by
  simp [updateAccount, Table.mem_update]

theorem became_updateAccount {f : AcmeAccount → AcmeAccount} {hf : ∀ a, key (f a) = key a}
    (h : a' ∈ (db.updateAccount id f hf).accounts) (hbecame : ∀ a : AcmeAccount, a.Became (f a)) :
    ∃ a ∈ db.accounts, a.Became a' := by
  obtain ⟨a, ha, rfl⟩ := mem_updateAccount.1 h
  refine ⟨a, ha, ?_⟩
  split_ifs
  · exact hbecame a
  · exact .refl a

end AccountDb

/-- A row after a write is new, or what was left of one. -/
theorem AccountWrite.origin {J : Jose} {db db' : AccountDb} {r : AccountRequest J}
    {p p' : AccountPlace} (h : AccountWrite db r p p' db') {a' : AcmeAccount}
    (ha' : a' ∈ db'.accounts) :
    (a'.status = .valid ∧ ∀ a ∈ db.accounts, ¬ Clash a a') ∨ ∃ a ∈ db.accounts, a.Became a' := by
  have hself : a' ∈ db.accounts → ∃ a ∈ db.accounts, a.Became a' := fun h =>
    ⟨a', h, .refl a'⟩
  cases h with
  | inserted hfresh =>
    rcases Table.mem_upsert.1 ha' with rfl | ⟨ha', -⟩
    · exact .inl ⟨rfl, hfresh⟩
    · exact .inr (hself ha')
  | bound | lost | revoked => exact .inr (hself ha')
  | discarded => exact .inr (hself (Table.mem_delete.1 ha').1)
  | deactivated => exact .inr (became_updateAccount ha' fun _ => ⟨rfl, rfl, rfl, .inr rfl⟩)
  | contacts | rotated => exact .inr (became_updateAccount ha' fun _ => ⟨rfl, rfl, rfl, .inl rfl⟩)

/-- What a write leaves of a row that is still there. -/
theorem AccountWrite.became {J : Jose} {db db' : AccountDb} {r : AccountRequest J}
    {p p' : AccountPlace} (h : AccountWrite db r p p' db') {a a' : AcmeAccount}
    (ha : a ∈ db.accounts) (ha' : a' ∈ db'.accounts) (hid : a'.id = a.id) : a.Became a' := by
  rcases h.origin ha' with ⟨-, hfresh⟩ | ⟨b, hb, hbecame⟩
  · exact absurd (.inl hid.symm) (hfresh a ha)
  · obtain rfl : b = a := Table.eq_of_key hb ha (hbecame.id.symm.trans hid)
    exact hbecame

/-- What a run leaves of a row, as long as it is there. -/
theorem became_of_reach {K : Keyring}
    {s s' : Sessions AccountDb (Phase (AccountRequest K.toJose × AccountPlace))} {id : Str}
    {a a' : AcmeAccount} (hs : ∃ x, Sim (tagged (AccountPlace.act K)) (fun _ _ => True) s x)
    (h : (accountCalls K).Reach (fun x _ => x.committed.HasAccount id) s s')
    (ha : a ∈ s.committed.accounts) (hid : a.id = id) (ha' : a' ∈ s'.committed.accounts)
    (hid' : a'.id = id) : a.Became a' := by
  -- By induction on the run, with the simulation carried along.
  suffices hboth : (∃ x, Sim (tagged (AccountPlace.act K)) (fun _ _ => True) s' x) ∧
      ∀ a' ∈ s'.committed.accounts, a'.id = id → a.Became a' from
    hboth.2 a' ha' hid'
  clear ha' hid'
  induction h with
  | refl =>
    refine ⟨hs, fun a' ha' hid' => ?_⟩
    obtain rfl : a' = a := Table.eq_of_key ha' ha (hid'.trans hid.symm)
    exact .refl a'
  | tail _ hthere hstep ih =>
    obtain ⟨⟨x, hsim⟩, hbecame⟩ := ih
    obtain ⟨hsim', hmove⟩ := hsim.committed (Sessions.heeds_true _) hstep
    refine ⟨hsim', fun a' ha' hid' => ?_⟩
    rcases hmove with heq | ⟨⟨r, p⟩, c', run, busy, hact, hrun⟩
    · exact hbecame a' (heq ▸ ha') hid'
    · obtain ⟨run', busy', hact', -, hok, -⟩ := tagged_eq_write hact
      obtain ⟨p', -, hrun'⟩ := hok _ _ _ hrun
      obtain ⟨b, hb, hbid⟩ := hthere
      have hwrite := accountWrite_of_run hact' hrun'
      exact (hbecame b hb hbid).trans (hwrite.became hb ha' (hid'.trans hbid.symm))

theorem AccountDb.findAccountByKey_eq_some {db : AccountDb} {thumbprint : Str} {a : AcmeAccount}
    (h : db.findAccountByKey thumbprint = some a) :
    a ∈ db.accounts ∧ a.jwkThumbprint = thumbprint := by
  have hmem := List.mem_of_head? h
  simpa using hmem

end Acme

end Cabin
