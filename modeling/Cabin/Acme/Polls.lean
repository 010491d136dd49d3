import Cabin.Acme.Issuance

/-!
# What an order is reported as

The status of an order is computed again for every answer, from the row that the request has loaded,
the authorizations and the clock.  `watch` is the server with its clock and with the requests that
answer with an order: they load its row in one step and compute what they report in a later one.

An order that nobody finalizes in time is reported invalid from then on, and a finalization checks
that.  But it claims the order in a later step, which does not look at the clock again, so that an
order can be reported invalid and processing after that.  And a request can report from a row that
is not the stored one any more.  Without these two, what is reported of an order only ever moves on.

* `Timely` is the condition, `reported_moves_on` the result;
* `follows_of_change`: what one commit does to the status of every order.
-/

namespace Cabin

namespace Acme

open X509

/-! ### The way of an order -/

/-- The edges of the status of an order. -/
inductive OrderStatus.Next : OrderStatus → OrderStatus → Prop
  | proven : Next .pending .ready
  | claimed : Next .ready .processing
  | attached : Next .processing .valid
  | abandoned : Next .pending .invalid
  | expired : Next .ready .invalid

/-- A failed issuance gives the order back. -/
inductive OrderStatus.GivenBack : OrderStatus → OrderStatus → Prop
  | pending : GivenBack .processing .pending
  | ready : GivenBack .processing .ready
  | invalid : GivenBack .processing .invalid

/-- Along the edges. -/
abbrev OrderStatus.Forward : OrderStatus → OrderStatus → Prop := Relation.ReflTransGen OrderStatus.Next

/-- Along the edges, and back by failed issuances. -/
abbrev OrderStatus.Leads : OrderStatus → OrderStatus → Prop :=
  Relation.ReflTransGen fun a b => a.Next b ∨ a.GivenBack b

theorem OrderStatus.Forward.leads {a b : OrderStatus} (h : a.Forward b) : a.Leads b :=
  Relation.ReflTransGen.mono (fun _ _ hnext => .inl hnext) _ _ h

theorem OrderStatus.Leads.eq_of_invalid {a b : OrderStatus} (h : a.Leads b) (ha : a = .invalid) :
    b = .invalid := by
  induction h with
  | refl => exact ha
  | tail _ hstep ih =>
    subst ih
    rcases hstep with hnext | hback
    · cases hnext
    · cases hback

theorem OrderStatus.Leads.eq_of_valid {a b : OrderStatus} (h : a.Leads b) (ha : a = .valid) :
    b = .valid := by
  induction h with
  | refl => exact ha
  | tail _ hstep ih =>
    subst ih
    rcases hstep with hnext | hback
    · cases hnext
    · cases hback

/-! ### The server, watched -/

/-- What is seen of the orders. -/
inductive OrderEvent where
  /-- An answer has this status and names this certificate. -/
  | reported (orderId : Str) (status : OrderStatus) (certificateId : Option ℕ)
  /-- A failed issuance has taken its claim off. -/
  | released (orderId : Str)
  deriving DecidableEq, Repr

/-- The server, its clock, and the requests that answer with an order. -/
structure Watch where
  /-- The calls and the database. -/
  sessions : Sessions AcmeDb Call
  /-- What the clock says. -/
  clock : ℤ
  /-- The rows that requests have loaded and not reported yet. -/
  loaded : List AcmeOrder
  /-- What was seen, the latest first. -/
  events : List OrderEvent

/-- What can happen. -/
inductive WatchStep where
  /-- The clock goes on. -/
  | tick (now : ℤ)
  /-- A call has its turn. -/
  | turn (t : Turn)
  /-- A request loads the row of an order. -/
  | load (orderId : Str)
  /-- The request that has loaded this row answers. -/
  | report (i : ℕ)

/-- The moment a request goes by when it looks at the tables. -/
def Call.now? : Call → Option ℤ
  | .run (.verified d _ _) => some d.now
  | _ => none

/-- The order that the call is about to claim. -/
def Call.claims? : Call → Option Str
  | .commit (.issue _ _ order _) => some order.id
  | _ => none

/-- What is seen of the next statement of a call: a claim comes off. -/
def Call.shows : Call → List OrderEvent
  | .commit (.released orderId _) => [.released orderId]
  | _ => []

namespace Watch

/-- The call that moves. -/
def mover (w : Watch) : Turn → Option Call
  | .go k => w.sessions.calls[k]?
  | .giveUp _ => none

/-- A request goes by the clock. -/
def onTime (w : Watch) (t : Turn) : Bool :=
  ((w.mover t).bind Call.now?).all fun now => now == w.clock

/-- What is seen of a turn. -/
def seen (w : Watch) (t : Turn) : List OrderEvent := (w.mover t).elim [] Call.shows

/-- What is reported of a row. -/
def answer (w : Watch) (order : AcmeOrder) : OrderEvent :=
  .reported order.id (orderStatus w.sessions.committed order w.clock) order.certificateId

/-- Nothing was seen yet. -/
def start (sessions : Sessions AcmeDb Call) (clock : ℤ) : Watch := ⟨sessions, clock, [], []⟩

end Watch

/-- The server, its clock that never goes back, and the requests that answer with an order. -/
def watch (E : Crypto) : Machine Watch WatchStep where
  step w
    | .tick now => if w.clock ≤ now then some { w with clock := now } else none
    | .turn t =>
      if w.onTime t then
        ((acmeCalls E).step w.sessions t).map fun sessions =>
          { w with sessions, events := w.seen t ++ w.events }
      else none
    | .load orderId =>
      (w.sessions.committed.orders.get? orderId).map fun order =>
        { w with loaded := w.loaded ++ [order] }
    | .report i =>
      w.loaded[i]?.map fun order =>
        { w with loaded := w.loaded.eraseIdx i, events := w.answer order :: w.events }

/-! ### Statements -/

/-- The order or an authorization of it has expired. -/
def Lapsed (db : AcmeDb) (order : AcmeOrder) (now : ℤ) : Prop :=
  hasExpired order.expiresAt now = true ∨
    ∃ a ∈ db.authorizations, a.orderId = order.id ∧ hasExpired a.expiresAt now = true

instance (db : AcmeDb) (order : AcmeOrder) (now : ℤ) : Decidable (Lapsed db order now) :=
  inferInstanceAs (Decidable (_ ∨ _))

/-- An order is claimed before it lapses, and what is reported is the stored row. -/
def Timely (w : Watch) : WatchStep → Prop
  | .turn t => ∀ orderId ∈ (w.mover t).bind Call.claims?,
    ∀ o ∈ w.sessions.committed.orders, o.id = orderId → ¬ Lapsed w.sessions.committed o w.clock
  | .report i => ∀ o ∈ w.loaded[i]?, w.sessions.committed.orders.get? o.id = some o
  | _ => True

instance (w : Watch) : (a : WatchStep) → Decidable (Timely w a)
  | .turn t => inferInstanceAs (Decidable (∀ orderId ∈ (w.mover t).bind Call.claims?,
    ∀ o ∈ w.sessions.committed.orders, o.id = orderId → ¬ Lapsed w.sessions.committed o w.clock))
  | .report i => inferInstanceAs (Decidable (∀ o ∈ w.loaded[i]?,
    w.sessions.committed.orders.get? o.id = some o))
  | .tick _ => inferInstanceAs (Decidable True)
  | .load _ => inferInstanceAs (Decidable True)

/-- What an answer may say after another one, with these events in between. -/
structure Follows (orderId : Str) (status : OrderStatus) (certificateId : Option ℕ)
    (between : List OrderEvent) (status' : OrderStatus) (certificateId' : Option ℕ) : Prop where
  /-- It has moved on, or was given back. -/
  leads : status.Leads status'
  /-- It was given back by a failed issuance only. -/
  forward : .released orderId ∉ between → status.Forward status'
  /-- What is invalid is so forever. -/
  invalid : status = .invalid → status' = .invalid
  /-- What is valid is so forever, with the same certificate. -/
  valid : status = .valid → status' = .valid ∧ certificateId' = certificateId ∧ certificateId ≠ none

/-- Of any two answers about an order, the later one may be said after the earlier one. -/
def MovesOn (events : List OrderEvent) : Prop :=
  ∀ (after between before : List OrderEvent) (orderId : Str) (status status' : OrderStatus)
    (certificateId certificateId' : Option ℕ),
    events = after ++ .reported orderId status' certificateId' ::
      (between ++ .reported orderId status certificateId :: before) →
    Follows orderId status certificateId between status' certificateId'

variable {E : Crypto} {ca : Db} {accounts : Table AcmeAccount} {calls : List Incoming}
  {db db' : AcmeDb} {s s' : Sessions AcmeDb Call} {w w' : Watch} {pc : Pc}

/-! ### What is stored -/

/-- What the tables never hold. -/
structure Regular (db : AcmeDb) : Prop where
  /-- An authorization is never stored as invalid or expired. -/
  authorization : ∀ a ∈ db.authorizations, a.status = .pending ∨ a.status = .valid
  /-- An order is valid with a certificate only. -/
  order : ∀ o ∈ db.orders, o.status = .valid → o.certificateId ≠ none

theorem Regular.of_change (h : Regular db) (hc : Change E db pc db') : Regular db' := by
  cases hc with
  | newOrder haccount hne hwf hnew =>
    obtain ⟨order, -, -, hpending, -, -, -, hgrown, -⟩ := createOrder_spec hnew
    refine ⟨fun a ha => ?_, fun o ho hvalid => ?_⟩
    · rcases hgrown.newAuthorization a ha with hold | ⟨-, hstatus⟩
      · exact h.authorization a hold
      · exact .inl hstatus
    · rw [hgrown.orders, Table.mem_upsert] at ho
      rcases ho with rfl | ⟨ho, -⟩
      · rw [hpending] at hvalid
        cases hvalid
      · exact h.order o ho hvalid
  | @record challengeId authz outcome hrecord =>
    cases outcome with
    | success now =>
      refine ⟨fun a ha => ?_, h.order⟩
      obtain ⟨x, hx, rfl⟩ := mem_recordChallengeSuccess_authorizations.1 ha
      split_ifs
      · exact .inr rfl
      · exact h.authorization x hx
    | refused error => exact ⟨h.authorization, h.order⟩
    | crashed name => exact ⟨h.authorization, h.order⟩
  | claim hclaim =>
    refine ⟨h.authorization, fun o ho hvalid => ?_⟩
    obtain ⟨x, hx, rfl⟩ := mem_claimForIssuance.1 ho
    split_ifs at hvalid ⊢
    exact h.order x hx hvalid
  | release hclaimed =>
    refine ⟨h.authorization, fun o ho hvalid => ?_⟩
    obtain ⟨x, hx, rfl⟩ := mem_releaseClaim.1 ho
    split_ifs at hvalid ⊢
    exact h.order x hx hvalid
  | attach hclaimed =>
    refine ⟨h.authorization, fun o ho hvalid => ?_⟩
    obtain ⟨x, hx, rfl⟩ := mem_attachCertificate.1 ho
    split_ifs at hvalid ⊢
    · simp
    · exact h.order x hx hvalid
  | same | beginChallenge | deactivate | issue | authority => exact ⟨h.authorization, h.order⟩

theorem regular_of_reachable (h : (acmeCalls E).Reachable (serverStart ca accounts calls) s) :
    Regular s.committed := by
  refine Discipline.rel_of_reach (P := acmeDiscipline E) (R := fun a b => Regular a → Regular b)
    (careful_of_reachable h) allGood_start (fun _ => id) (fun _ _ _ hab hbc ha => hbc (hab ha)) ?_
    ⟨fun _ h => absurd h Table.not_mem_empty, fun _ h => absurd h Table.not_mem_empty⟩
  rintro db db' ⟨pc, hc⟩ hregular
  exact hregular.of_change hc

/-- The authorizations of the order are the same, some of them valid by now. -/
structure Kept (db db' : AcmeDb) (orderId : Str) : Prop where
  there : ∀ a ∈ db.authorizations, a.orderId = orderId → ∃ a' ∈ db'.authorizations,
    a'.orderId = orderId ∧ a'.expiresAt = a.expiresAt
  origin : ∀ a' ∈ db'.authorizations, a'.orderId = orderId → ∃ a ∈ db.authorizations,
    a.orderId = orderId ∧ a'.expiresAt = a.expiresAt ∧ (a.status = .valid → a'.status = .valid)

theorem Kept.of_eq {orderId : Str} (h : db'.authorizations = db.authorizations) :
    Kept db db' orderId :=
  ⟨fun a ha ho => ⟨a, h ▸ ha, ho, rfl⟩, fun a ha ho => ⟨a, h ▸ ha, ho, rfl, id⟩⟩

theorem Kept.of_change (hc : Change E db pc db') {o : AcmeOrder} (ho : o ∈ db.orders) :
    Kept db db' o.id := by
  cases hc with
  | newOrder haccount hne hwf hnew =>
    obtain ⟨order, hid, -, -, -, -, hfresh, hgrown, -⟩ := createOrder_spec hnew
    refine ⟨fun a ha horder => ⟨a, hgrown.authorizations a ha, horder, rfl⟩, fun a ha horder => ?_⟩
    rcases hgrown.newAuthorization a ha with hold | ⟨hnew, -⟩
    · exact ⟨a, hold, horder, rfl, id⟩
    · exact absurd (horder.symm.trans (hnew.trans hid.symm)) (hfresh o ho)
  | @record challengeId authz outcome hrecord =>
    cases outcome with
    | success now =>
      refine ⟨fun a ha horder => ?_, fun a' ha' horder => ?_⟩
      · refine ⟨_, mem_recordChallengeSuccess_authorizations.2 ⟨a, ha, rfl⟩, ?_⟩
        split_ifs <;> exact ⟨horder, rfl⟩
      · obtain ⟨a, ha, rfl⟩ := mem_recordChallengeSuccess_authorizations.1 ha'
        refine ⟨a, ha, ?_⟩
        split_ifs at horder ⊢
        · exact ⟨horder, rfl, fun _ => rfl⟩
        · exact ⟨horder, rfl, id⟩
    | refused error => exact .of_eq rfl
    | crashed name => exact .of_eq rfl
  | same | beginChallenge | claim | release | attach | deactivate | issue | authority =>
    exact .of_eq rfl

/-! ### The status of an order, from what is stored -/

theorem hasExpired_mono {expiresAt now now' : ℤ} (hle : now ≤ now')
    (h : hasExpired expiresAt now = true) : hasExpired expiresAt now' = true := by
  simp only [hasExpired, decide_eq_true_eq] at h ⊢
  exact h.trans (Instant.seconds_mono hle)

/-- What is written of an order is what it is. -/
theorem orderStatus_of_written {o : AcmeOrder} {now : ℤ}
    (h : o.status ≠ .pending ∧ o.status ≠ .ready) : orderStatus db o now = o.status := by
  rw [orderStatus, if_pos h]

theorem authorizationStatus_eq (hregular : Regular db) {a : AcmeAuthorization} {now : ℤ}
    (ha : a ∈ db.authorizations) :
    authorizationStatus a now = if hasExpired a.expiresAt now then .expired else a.status := by
  simp [authorizationStatus, hregular.authorization a ha]

open Classical in
/-- What the status of an order is that nobody has claimed. -/
theorem orderStatus_of_open (hregular : Regular db) {o : AcmeOrder} {now : ℤ}
    (hopen : o.status = .pending ∨ o.status = .ready) :
    orderStatus db o now = if Lapsed db o now then .invalid
      else if (∃ a ∈ db.authorizations, a.orderId = o.id) ∧ AllValid db o.id then .ready
      else .pending := by
  have hmem : ∀ a, a ∈ authorizationsOf db o.id ↔ a ∈ db.authorizations ∧ a.orderId = o.id := by
    intro a
    simp [authorizationsOf]
  have hwritten : ¬ (o.status ≠ .pending ∧ o.status ≠ .ready) := by
    rcases hopen with h | h <;> simp [h]
  by_cases hexpired : hasExpired o.expiresAt now = true
  · rw [orderStatus, if_neg hwritten, if_pos hexpired, if_pos (.inl hexpired)]
  rw [orderStatus, if_neg hwritten, if_neg hexpired, statusOf]
  by_cases hlapsed : Lapsed db o now
  · rw [if_pos hlapsed, if_pos]
    obtain ⟨a, ha, horder, hexp⟩ := hlapsed.resolve_left hexpired
    rw [List.any_map, List.any_eq_true]
    exact ⟨a, (hmem a).2 ⟨ha, horder⟩, by simp [authorizationStatus_eq hregular ha, hexp]⟩
  · -- No authorization has expired, so that each is what is stored.
    have hstored : ∀ a ∈ authorizationsOf db o.id, authorizationStatus a now = a.status := by
      intro a ha
      obtain ⟨ha, horder⟩ := (hmem a).1 ha
      rw [authorizationStatus_eq hregular ha, if_neg]
      exact fun hexp => hlapsed (.inr ⟨a, ha, horder, hexp⟩)
    rw [List.map_congr_left hstored, if_neg hlapsed, if_neg]
    · refine if_congr (and_congr ?_ ?_) rfl rfl
      · simp [List.eq_nil_iff_forall_not_mem, hmem]
      · simp [AllValid, hmem]
    · rw [List.any_map, List.any_eq_true]
      rintro ⟨a, ha, hbad⟩
      rcases hregular.authorization a ((hmem a).1 ha).1 with h | h <;> simp [h] at hbad

theorem written_or_open (o : AcmeOrder) :
    (o.status ≠ .pending ∧ o.status ≠ .ready) ∨ (o.status = .pending ∨ o.status = .ready) := by
  cases o.status <;> simp

/-- Only what is written as valid is valid. -/
theorem status_of_valid (hregular : Regular db) {o : AcmeOrder} {now : ℤ}
    (h : orderStatus db o now = .valid) : o.status = .valid := by
  rcases written_or_open o with hwritten | hopen
  · rwa [orderStatus_of_written hwritten] at h
  · rw [orderStatus_of_open hregular hopen] at h
    split_ifs at h

theorem status_of_claimed {orderId : Str} (h : Claimed db orderId) {o : AcmeOrder}
    (ho : o ∈ db.orders) (hid : o.id = orderId) : o.status = .processing := by
  obtain ⟨x, hx, hxid, hstatus, -⟩ := h
  obtain rfl : x = o := Table.eq_of_key hx ho (hxid.trans hid.symm)
  exact hstatus

theorem Lapsed.mono {o o' : AcmeOrder} {now now' : ℤ} (h : Lapsed db o now) (hid : o'.id = o.id)
    (hexpires : o'.expiresAt = o.expiresAt) (hkept : Kept db db' o.id) (hle : now ≤ now') :
    Lapsed db' o' now' := by
  rcases h with hexpired | ⟨a, ha, horder, hexpired⟩
  · exact .inl (hexpires ▸ hasExpired_mono hle hexpired)
  · obtain ⟨a', ha', horder', hsame⟩ := hkept.there a ha horder
    exact .inr ⟨a', ha', horder'.trans hid.symm, hsame ▸ hasExpired_mono hle hexpired⟩

/-- An order that nobody writes moves on with its authorizations and the clock. -/
theorem forward_of_kept (hregular : Regular db) (hregular' : Regular db') {o o' : AcmeOrder}
    {now now' : ℤ} (hid : o'.id = o.id) (hstatus : o'.status = o.status)
    (hexpires : o'.expiresAt = o.expiresAt) (hkept : Kept db db' o.id) (hle : now ≤ now') :
    (orderStatus db o now).Forward (orderStatus db' o' now') := by
  rcases written_or_open o with hwritten | hopen
  · rw [orderStatus_of_written hwritten, orderStatus_of_written (hstatus ▸ hwritten), hstatus]
  rw [orderStatus_of_open hregular hopen, orderStatus_of_open hregular' (hstatus ▸ hopen)]
  by_cases hlapsed : Lapsed db o now
  · rw [if_pos hlapsed, if_pos (hlapsed.mono hid hexpires hkept hle)]
  rw [if_neg hlapsed]
  by_cases hlapsed' : Lapsed db' o' now'
  · rw [if_pos hlapsed']
    split_ifs
    · exact .single .expired
    · exact .single .abandoned
  rw [if_neg hlapsed']
  by_cases hready : (∃ a ∈ db.authorizations, a.orderId = o.id) ∧ AllValid db o.id
  · -- The authorizations are still there, and still valid.
    obtain ⟨⟨a, ha, horder⟩, hall⟩ := hready
    have hready' : (∃ a ∈ db'.authorizations, a.orderId = o'.id) ∧ AllValid db' o'.id := by
      rw [hid]
      obtain ⟨a', ha', horder', -⟩ := hkept.there a ha horder
      refine ⟨⟨a', ha', horder'⟩, fun x' hx' hxorder' => ?_⟩
      obtain ⟨x, hx, hxorder, -, hvalid⟩ := hkept.origin x' hx' hxorder'
      exact hvalid (hall x hx hxorder)
    rw [if_pos ⟨⟨a, ha, horder⟩, hall⟩, if_pos hready']
  · rw [if_neg hready]
    split_ifs
    · exact .single .proven
    · exact .refl

/-! ### What one commit does -/

theorem Follows.of_leads {orderId : Str} {status status' : OrderStatus}
    {certificateId certificateId' : Option ℕ} {between : List OrderEvent}
    (hleads : status.Leads status')
    (hforward : .released orderId ∉ between → status.Forward status')
    (hvalid : status = .valid → certificateId' = certificateId ∧ certificateId ≠ none) :
    Follows orderId status certificateId between status' certificateId' :=
  ⟨hleads, hforward, hleads.eq_of_invalid, fun h => ⟨hleads.eq_of_valid h, hvalid h⟩⟩

theorem Follows.of_forward {orderId : Str} {status status' : OrderStatus}
    {certificateId certificateId' : Option ℕ} {between : List OrderEvent}
    (hforward : status.Forward status')
    (hvalid : status = .valid → certificateId' = certificateId ∧ certificateId ≠ none) :
    Follows orderId status certificateId between status' certificateId' :=
  .of_leads hforward.leads (fun _ => hforward) hvalid

theorem Follows.trans {orderId : Str} {a b c : OrderStatus} {i j k : Option ℕ}
    {xs ys : List OrderEvent} (hab : Follows orderId a i xs b j) (hbc : Follows orderId b j ys c k) :
    Follows orderId a i (ys ++ xs) c k := by
  refine .of_leads (hab.leads.trans hbc.leads) (fun hnone => ?_) fun hvalid => ?_
  · rw [List.mem_append, not_or] at hnone
    exact (hab.forward hnone.2).trans (hbc.forward hnone.1)
  · obtain ⟨hb, hji, hi⟩ := hab.valid hvalid
    obtain ⟨-, hkj, -⟩ := hbc.valid hb
    exact ⟨hkj.trans hji, hi⟩

/-- **One commit.**  Every order moves on, unless it is given back. -/
theorem follows_of_change (hinv : Inv db) (hregular : Regular db) (hc : Change E db pc db')
    (hgood : GoodAt db' pc) {now : ℤ}
    (htimely : ∀ orderId ∈ (Call.commit pc).claims?, ∀ o ∈ db.orders, o.id = orderId →
      ¬ Lapsed db o now) {o : AcmeOrder} (ho : o ∈ db.orders) :
    ∃ o' ∈ db'.orders, o'.id = o.id ∧
      Follows o.id (orderStatus db o now) o.certificateId (Call.commit pc).shows
        (orderStatus db' o' now) o'.certificateId := by
  have hregular' := hregular.of_change hc
  have hkept := Kept.of_change hc ho
  have hext := extends_of_change hc
  -- A valid order has its certificate, and is not written any more.
  have hvalid : ∀ o' ∈ db'.orders, o'.id = o.id → orderStatus db o now = .valid →
      o'.certificateId = o.certificateId ∧ o.certificateId ≠ none := by
    intro o' ho' hid hstatus
    have hcertificate := hregular.order o ho (status_of_valid hregular hstatus)
    obtain ⟨x, hx, hxid, -, -, hsame⟩ := hext.order o ho
    obtain rfl : x = o' := Table.eq_of_key hx ho' (hxid.trans hid.symm)
    rw [hsame hcertificate]
    exact ⟨rfl, hcertificate⟩
  -- An order that is not written.
  have hsame : o ∈ db'.orders → ∃ o' ∈ db'.orders, o'.id = o.id ∧
      Follows o.id (orderStatus db o now) o.certificateId (Call.commit pc).shows
        (orderStatus db' o' now) o'.certificateId := fun ho' =>
    ⟨o, ho', rfl, .of_forward (forward_of_kept hregular hregular' rfl rfl rfl hkept le_rfl)
      (hvalid o ho' rfl)⟩
  cases hc with
  | newOrder haccount hne hwf hnew =>
    obtain ⟨order, -, -, -, -, -, hfresh, hgrown, -⟩ := createOrder_spec hnew
    exact hsame (hgrown.orders ▸ Table.mem_upsert.2 (.inr ⟨ho, hfresh o ho⟩))
  | @record challengeId authz outcome hrecord => exact hsame (by cases outcome <;> exact ho)
  | @claim d account order der hclaim =>
    by_cases hmatch : (o.id = order.id ∧ o.certificateId = none) ∧
        (o.status = .pending ∨ o.status = .ready)
    · -- It is ready still: it has not lapsed, and its authorizations are valid.
      have hmem : { o with status := .processing } ∈ (claimForIssuance db order.id).1.orders :=
        mem_claimForIssuance.2 ⟨o, ho, if_pos hmatch⟩
      have hready : orderStatus db o now = .ready := by
        obtain ⟨is, hne, -, -, hcovers⟩ := hinv.identifiers o ho
        obtain ⟨i, hi⟩ := List.exists_mem_of_ne_nil is hne
        obtain ⟨a, ha, hcover⟩ := hcovers i hi
        have hall : AllValid db o.id := hmatch.1.1 ▸ hgood.1.allValid
        rw [orderStatus_of_open hregular hmatch.2, if_neg (htimely _ rfl o ho hmatch.1.1),
          if_pos ⟨⟨a, ha, hcover.orderId⟩, hall⟩]
      refine ⟨_, hmem, rfl, .of_forward ?_ (hvalid _ hmem rfl)⟩
      rw [hready, orderStatus_of_written (o := { o with status := .processing }) (by simp)]
      exact .single .claimed
    · exact hsame (mem_claimForIssuance.2 ⟨o, ho, if_neg hmatch⟩)
  | @release orderId e hclaimed =>
    by_cases hid : o.id = orderId
    · have hmem : { o with status := .pending } ∈ (releaseClaim db orderId).orders :=
        mem_releaseClaim.2 ⟨o, ho, if_pos hid⟩
      refine ⟨_, hmem, rfl, .of_leads (.single (.inr ?_)) (fun hnone => ?_) (hvalid _ hmem rfl)⟩
      · rw [orderStatus_of_written (by simp [status_of_claimed hclaimed ho hid]),
          status_of_claimed hclaimed ho hid,
          orderStatus_of_open (o := { o with status := .pending }) hregular' (.inl rfl)]
        split_ifs
        · exact .invalid
        · exact .ready
        · exact .pending
      · simp [Call.shows, hid] at hnone
    · exact hsame (mem_releaseClaim.2 ⟨o, ho, if_neg hid⟩)
  | @attach orderId certificateId hclaimed =>
    by_cases hid : o.id = orderId
    · have hmem : { o with certificateId := some certificateId, status := .valid } ∈
          (attachCertificate db orderId certificateId).orders :=
        mem_attachCertificate.2 ⟨o, ho, if_pos hid⟩
      refine ⟨_, hmem, rfl, .of_forward ?_ (hvalid _ hmem rfl)⟩
      rw [orderStatus_of_written (by simp [status_of_claimed hclaimed ho hid]),
        status_of_claimed hclaimed ho hid, orderStatus_of_written (by simp)]
      exact .single .attached
    · exact hsame (mem_attachCertificate.2 ⟨o, ho, if_neg hid⟩)
  | same | beginChallenge | deactivate | issue | authority => exact hsame ho

/-! ### What one step does -/

/-- A turn commits what a call has written, or leaves what is committed alone and shows nothing. -/
theorem commit_cases {t : Turn} (hs : (acmeDiscipline E).AllGood w.sessions)
    (h : (acmeCalls E).step w.sessions t = some s') :
    (∃ pc, w.mover t = some (.commit pc) ∧ Change E w.sessions.committed pc s'.committed ∧
      GoodAt s'.committed pc) ∨
    (s'.committed = w.sessions.committed ∧ w.seen t = []) := by
  by_cases hcommit : ∃ pc, w.mover t = some (.commit pc)
  · obtain ⟨pc, hpc⟩ := hcommit
    cases t with
    | go k =>
      obtain ⟨-, v, hv, hc, hgood⟩ := hs.good k _ hpc
      have hstep : (acmeCalls E).step w.sessions (.go k) = some _ := Sessions.step_commit hpc rfl
      obtain rfl := Option.some.inj (hstep.symm.trans h)
      have hview : w.sessions.view k = v := by simp [Sessions.view, hv]
      rw [← hview] at hc hgood
      exact .inl ⟨pc, hpc, hc, hgood⟩
    | giveUp k => cases hpc
  · refine .inr ⟨Sessions.committed_of_step h fun k l l' ht hl hn => ?_, ?_⟩
    · obtain ⟨pc, rfl, -⟩ := next_eq_commit hn
      exact hcommit ⟨pc, ht ▸ hl⟩
    · unfold Watch.seen
      rcases hmover : w.mover t with _ | l
      · rfl
      · cases l with
        | commit pc => exact absurd ⟨pc, hmover⟩ hcommit
        | run pc | rollback pc => rfl

/-- What the status of an order is now. -/
def Watch.status (w : Watch) (o : AcmeOrder) : OrderStatus :=
  orderStatus w.sessions.committed o w.clock

/-- What holds of a watched run: an order that was reported is still there, and may be reported as
what it is now. -/
structure Watched (E : Crypto) (ca : Db) (accounts : Table AcmeAccount) (calls : List Incoming)
    (w : Watch) : Prop where
  reached : (acmeCalls E).Reachable (serverStart ca accounts calls) w.sessions
  current : ∀ (between before : List OrderEvent) (orderId : Str) (status : OrderStatus)
    (certificateId : Option ℕ),
    w.events = between ++ .reported orderId status certificateId :: before →
    ∃ o ∈ w.sessions.committed.orders, o.id = orderId ∧
      Follows orderId status certificateId between (w.status o) o.certificateId
  movesOn : MovesOn w.events

/-- What is not among the first events is among the others. -/
theorem split_of_not_mem {α : Type*} {new xs ys zs : List α} {r : α}
    (h : new ++ xs = ys ++ r :: zs) (hr : r ∉ new) : ∃ rest, ys = new ++ rest ∧ xs = rest ++ r :: zs := by
  rcases List.append_eq_append_iff.1 h with ⟨rest, hys, hxs⟩ | ⟨rest, hnew, hzs⟩
  · exact ⟨rest, hys, hxs⟩
  · cases rest with
    | nil => exact ⟨[], by simp [hnew], by simpa using hzs.symm⟩
    | cons x rest =>
      obtain ⟨rfl, -⟩ := List.cons.inj hzs
      exact absurd (by simp [hnew]) hr

section steps

variable (hw : Watched E ca accounts calls w)

include hw

/-- A step that reports nothing, and lets the orders move on. -/
theorem Watched.of_silent {new : List OrderEvent} (hevents : w'.events = new ++ w.events)
    (hsilent : ∀ orderId status certificateId, .reported orderId status certificateId ∉ new)
    (hreached : (acmeCalls E).Reachable (serverStart ca accounts calls) w'.sessions)
    (hstep : ∀ o ∈ w.sessions.committed.orders, ∃ o' ∈ w'.sessions.committed.orders, o'.id = o.id ∧
      Follows o.id (w.status o) o.certificateId new (w'.status o') o'.certificateId) :
    Watched E ca accounts calls w' := by
  refine ⟨hreached, fun between before orderId status certificateId h => ?_,
    fun after between before orderId status status' certificateId certificateId' h => ?_⟩
  · rw [hevents] at h
    obtain ⟨rest, rfl, hrest⟩ := split_of_not_mem h (hsilent _ _ _)
    obtain ⟨o, ho, rfl, hfollows⟩ := hw.current rest before orderId status certificateId hrest
    obtain ⟨o', ho', hid, hfollows'⟩ := hstep o ho
    exact ⟨o', ho', hid, hfollows.trans hfollows'⟩
  · rw [hevents] at h
    obtain ⟨rest, rfl, hrest⟩ := split_of_not_mem h (hsilent _ _ _)
    exact hw.movesOn rest between before orderId status status' certificateId certificateId' hrest

/-- A report of a stored row. -/
theorem Watched.of_report {o : AcmeOrder} (ho : o ∈ w.sessions.committed.orders)
    (hsessions : w'.sessions = w.sessions) (hclock : w'.clock = w.clock)
    (hevents : w'.events = w.answer o :: w.events) : Watched E ca accounts calls w' := by
  have hstatus : w'.status = w.status := by
    funext x
    rw [Watch.status, hsessions, hclock, Watch.status]
  refine ⟨hsessions ▸ hw.reached, fun between before orderId status certificateId h => ?_,
    fun after between before orderId status status' certificateId certificateId' h => ?_⟩
  · rw [hevents] at h
    rw [hsessions, hstatus]
    cases between with
    | nil =>
      -- The report itself.
      obtain ⟨heq, -⟩ := List.cons.inj h
      obtain ⟨rfl, rfl, rfl⟩ := OrderEvent.reported.inj heq
      refine ⟨o, ho, rfl, .of_forward .refl fun hvalid => ⟨rfl, ?_⟩⟩
      have hregular := regular_of_reachable hw.reached
      exact hregular.order o ho (status_of_valid hregular hvalid)
    | cons e between =>
      obtain ⟨rfl, hrest⟩ := List.cons.inj h
      obtain ⟨x, hx, rfl, hfollows⟩ := hw.current between before orderId status certificateId hrest
      have hsame : Follows x.id (w.status x) x.certificateId [w.answer o] (w.status x)
          x.certificateId := by
        refine .of_forward .refl fun hvalid => ⟨rfl, ?_⟩
        have hregular := regular_of_reachable hw.reached
        exact hregular.order x hx (status_of_valid hregular hvalid)
      exact ⟨x, hx, rfl, hfollows.trans hsame⟩
  · rw [hevents] at h
    cases after with
    | nil =>
      obtain ⟨heq, hrest⟩ := List.cons.inj h
      obtain ⟨rfl, rfl, rfl⟩ := OrderEvent.reported.inj heq
      obtain ⟨x, hx, hid, hfollows⟩ := hw.current between before _ status certificateId hrest
      obtain rfl : x = o := Table.eq_of_key hx ho hid
      exact hfollows
    | cons e after =>
      obtain ⟨-, hrest⟩ := List.cons.inj h
      exact hw.movesOn after between before orderId status status' certificateId certificateId' hrest

/-- **One step.** -/
theorem Watched.step {a : WatchStep} (htimely : Timely w a) (h : (watch E).step w a = some w') :
    Watched E ca accounts calls w' := by
  have hregular := regular_of_reachable hw.reached
  -- What a step does to an order that it does not write.
  have hsame : ∀ {now : ℤ}, w.clock ≤ now → ∀ o ∈ w.sessions.committed.orders,
      ∃ o' ∈ w.sessions.committed.orders, o'.id = o.id ∧
        Follows o.id (w.status o) o.certificateId []
          (orderStatus w.sessions.committed o' now) o'.certificateId := by
    intro now hle o ho
    have hforward : (w.status o).Forward (orderStatus w.sessions.committed o now) :=
      forward_of_kept hregular hregular rfl rfl rfl (.of_eq rfl) hle
    exact ⟨o, ho, rfl, .of_forward hforward fun hvalid =>
      ⟨rfl, hregular.order o ho (status_of_valid hregular hvalid)⟩⟩
  cases a with
  | tick now =>
    obtain ⟨hle, rfl⟩ : w.clock ≤ now ∧ { w with clock := now } = w' := by
      simpa [watch, Option.ite_none_right_eq_some] using h
    exact hw.of_silent rfl (by simp) hw.reached (hsame hle)
  | turn t =>
    simp only [watch, Option.ite_none_right_eq_some, Option.map_eq_some_iff] at h
    obtain ⟨-, s', hstep, rfl⟩ := h
    have hs := allGood_of_reachable hw.reached
    have hreached := hw.reached.tail trivial hstep
    have hsilent : ∀ orderId status certificateId,
        .reported orderId status certificateId ∉ w.seen t := by
      intro orderId status certificateId
      unfold Watch.seen
      rcases w.mover t with _ | l
      · exact List.not_mem_nil
      · simp only [Option.elim_some]
        unfold Call.shows
        split <;> simp
    refine hw.of_silent rfl hsilent hreached ?_
    rcases commit_cases hs hstep with ⟨pc, hmover, hc, hgood⟩ | ⟨hcommitted, hseen⟩
    · intro o ho
      have hseen : w.seen t = (Call.commit pc).shows := by simp [Watch.seen, hmover]
      rw [hseen]
      refine follows_of_change (inv_of_reachable hw.reached) hregular hc hgood ?_ ho
      intro orderId hclaims
      exact htimely orderId (by simpa [hmover] using hclaims)
    · intro o ho
      rw [hseen]
      simp only [Watch.status, hcommitted]
      exact hsame le_rfl o ho
  | load orderId =>
    obtain ⟨o, -, rfl⟩ := Option.map_eq_some_iff.1 h
    exact hw.of_silent rfl (by simp) hw.reached (hsame le_rfl)
  | report i =>
    obtain ⟨o, hloaded, rfl⟩ := Option.map_eq_some_iff.1 h
    have hstored := htimely o hloaded
    exact hw.of_report (Table.get?_eq_some.1 hstored).1 rfl rfl rfl

end steps

/-- **What an order is reported as** only moves on, in every run in which orders are claimed before
they lapse and reported as they are stored: from pending to ready, processing and valid, or from
pending or ready to invalid, and back from processing by a failed issuance only.  An invalid order
stays so, and a valid one with its certificate. -/
theorem reported_moves_on {clock : ℤ}
    (h : (watch E).Reach Timely (.start (serverStart ca accounts calls) clock) w) :
    MovesOn w.events := by
  have hstart : Watched E ca accounts calls (.start (serverStart ca accounts calls) clock) := by
    refine ⟨.refl, fun between before orderId status certificateId h => ?_,
      fun after between before orderId status status' certificateId certificateId' h => ?_⟩
    · simp [Watch.start] at h
    · simp [Watch.start] at h
  exact (h.invariant hstart fun _ _ _ hw htimely hstep => hw.step htimely hstep).movesOn

/-! ### Runs -/

/-- A second before the order will expire. -/
def lastSecond : ℤ := Instant.days 20007 - Instant.ofSeconds 1

/-- The order, a trigger of its first challenge, and a finalization in the last second. -/
def finalizedLast : List Incoming :=
  [.request (.sample 3) (Str.of "account") orderNas,
    .request (.sample 4) (Str.of "account")
      (.challenge (orderDraw.challengeId 0 0) true (.success (Instant.days 20000))),
    .request { Draw.sample 5 with now := lastSecond } (Str.of "account")
      (.finalize orderDraw.orderId (some (.ok csrNas)))]

/-- The server before the order is placed. -/
def watchNas : Watch := .start (serverStart issuingCa oneAccount finalizedLast) (Instant.days 20000)

/-- These calls have their turns. -/
def turns (ks : List ℕ) : List WatchStep := ks.map fun k => .turn (.go k)

/-- A poll of the order. -/
def poll : List WatchStep := [.load orderDraw.orderId, .report 0]

/-- The order is placed and proven, and the finalization has seen that it is ready. -/
def untilReady : List WatchStep :=
  turns [0, 0, 0, 0] ++ poll ++ turns [1, 1, 1, 1, 1, 1, 1] ++ [.tick lastSecond] ++ turns [2, 2] ++
    poll

/-- The finalization goes on at once, and the order is polled again after its expiry. -/
def finalizedInTime : List WatchStep :=
  untilReady ++ turns [2, 2] ++ poll ++ turns [2, 2, 2, 2] ++ [.tick (Instant.days 20007)] ++ poll

/-- The finalization goes on a second later. -/
def finalizedTooLate : List WatchStep :=
  untilReady ++ [.tick (Instant.days 20007)] ++ poll ++ turns [2, 2] ++ poll

/-- In this run the order is pending, ready, processing and valid, in this order. -/
theorem reported_moves_on_finalizedInTime :
    ∃ w, (watch .transparent).Reach Timely watchNas w ∧ w.events =
      [.reported orderDraw.orderId .valid (some 1), .reported orderDraw.orderId .processing none,
        .reported orderDraw.orderId .ready none, .reported orderDraw.orderId .pending none] ∧
      MovesOn w.events := by
  have halong : (watch .transparent).Along Timely watchNas finalizedInTime := by decide +kernel
  have h := Machine.reach_final _ _ halong
  exact ⟨_, h, by decide +kernel, reported_moves_on h⟩

/-- An order that is reported invalid, and processing after that: the finalization has seen that it
is ready, and claims it when it has expired. -/
theorem invalid_order_is_claimed :
    ∃ w, (watch .transparent).Reachable watchNas w ∧ ¬ MovesOn w.events := by
  refine ⟨_, Machine.reachable_final watchNas finalizedTooLate, fun h => ?_⟩
  have hevents : ((watch .transparent).final watchNas finalizedTooLate).events =
      [] ++ .reported orderDraw.orderId .processing none ::
        ([] ++ .reported orderDraw.orderId .invalid none ::
          [.reported orderDraw.orderId .ready none, .reported orderDraw.orderId .pending none]) := by
    decide +kernel
  cases (h _ _ _ _ _ _ _ _ hevents).invalid rfl

end Acme

end Cabin
