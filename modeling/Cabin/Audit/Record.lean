import Cabin.Audit
import Cabin.Text.SortKeys

/-!
# Recording events

The one writer of the audit log (`audit.py`).  An event names who acted, what was done and to what, with details
that are kept as a JSON text; it is appended and never changed.

* `record` appends an event, `listRows` is a page of the whole rows, `auditEvent` what a client is shown of a row;
* `rows_recordAll` : the table is the list of what has been recorded, numbered from 1;
* `list_events_of_record` : over any run, the pages are the events that are selected, each once and the newest
  first, as they were recorded;
* `detailJson_eq_iff` : events have the same text for their details if and only if they have the same details.
-/

namespace Cabin

namespace Audit

/-! ### Events -/

/-- Which door an actor came through. -/
inductive ActorKind where
  | user
  | token
  | system
  | acme
  deriving DecidableEq, Repr

/-- The text of a kind. -/
def ActorKind.value : ActorKind → Str
  | user => Str.of "user"
  | token => Str.of "token"
  | system => Str.of "system"
  | acme => Str.of "acme"

/-- The changes of state that are recorded. -/
inductive AuditAction where
  | loginSuccess
  | loginFailed
  | logout
  | userCreated
  | userRoleChanged
  | userPasswordReset
  | userDeleted
  | caCreated
  | caImported
  | caRenewed
  | caRetired
  | caCrossSigned
  | caCrossImported
  | caKeyExported
  | settingsChanged
  | certIssued
  | certSigned
  | certRevoked
  | tokenCreated
  | tokenRevoked
  | userIssuersChanged
  | tokenIssuersChanged
  | acmeAccountCreated
  | acmeAccountDeactivated
  | acmeOrderCreated
  | acmeChallengeValidated
  | acmeChallengeFailed
  | acmeCertificateIssued
  | acmeCertificateRevoked
  | acmeEabKeyCreated
  | acmeEabKeyRevoked
  | tlsCertificateIssued
  | tlsCertificateFailed
  deriving DecidableEq, Repr

namespace AuditAction

/-- The text of an action. -/
def value : AuditAction → Str
  | loginSuccess => Str.of "login_success"
  | loginFailed => Str.of "login_failed"
  | logout => Str.of "logout"
  | userCreated => Str.of "user_created"
  | userRoleChanged => Str.of "user_role_changed"
  | userPasswordReset => Str.of "user_password_reset"
  | userDeleted => Str.of "user_deleted"
  | caCreated => Str.of "ca_created"
  | caImported => Str.of "ca_imported"
  | caRenewed => Str.of "ca_renewed"
  | caRetired => Str.of "ca_retired"
  | caCrossSigned => Str.of "ca_cross_signed"
  | caCrossImported => Str.of "ca_cross_imported"
  | caKeyExported => Str.of "ca_key_exported"
  | settingsChanged => Str.of "settings_changed"
  | certIssued => Str.of "cert_issued"
  | certSigned => Str.of "cert_signed"
  | certRevoked => Str.of "cert_revoked"
  | tokenCreated => Str.of "token_created"
  | tokenRevoked => Str.of "token_revoked"
  | userIssuersChanged => Str.of "user_issuers_changed"
  | tokenIssuersChanged => Str.of "token_issuers_changed"
  | acmeAccountCreated => Str.of "acme_account_created"
  | acmeAccountDeactivated => Str.of "acme_account_deactivated"
  | acmeOrderCreated => Str.of "acme_order_created"
  | acmeChallengeValidated => Str.of "acme_challenge_validated"
  | acmeChallengeFailed => Str.of "acme_challenge_failed"
  | acmeCertificateIssued => Str.of "acme_certificate_issued"
  | acmeCertificateRevoked => Str.of "acme_certificate_revoked"
  | acmeEabKeyCreated => Str.of "acme_eab_key_created"
  | acmeEabKeyRevoked => Str.of "acme_eab_key_revoked"
  | tlsCertificateIssued => Str.of "tls_certificate_issued"
  | tlsCertificateFailed => Str.of "tls_certificate_failed"

end AuditAction

/-- Whoever caused an event. -/
structure Actor where
  kind : ActorKind
  /-- The row of the actor, if there is one. -/
  id : Option ℕ
  label : Str

/-- The program itself. -/
def systemActor : Actor := ⟨.system, none, Str.of "system"⟩

/-- How much of a thumbprint names an account. -/
def acmeLabelPrefix : ℕ := 16

/-- An ACME account. -/
def acmeActor (thumbprint : Str) : Actor := ⟨.acme, none, Str.of "acme:" ++ thumbprint.take acmeLabelPrefix⟩

/-- The width of the column for labels. -/
def maxLabelLength : ℕ := 255

/-- What an event is about. -/
inductive TargetId where
  | num (n : ℤ)
  | str (s : Str)

/-- `str`. -/
def TargetId.toStr : TargetId → Str
  | num n => Str.of (toString n)
  | str s => s

/-- The time a caller gives. -/
inductive Now where
  /-- None: the clock is read. -/
  | clock
  | aware (moment : Certs.AwareDatetime)
  /-- A time without a zone. -/
  | naive

/-- The arguments of `record`. -/
structure Call where
  actor : Actor
  action : AuditAction
  summary : Str
  targetType : Option Str
  targetId : Option TargetId
  /-- The members of the dictionary. -/
  detail : Option (List (Str × Json))
  ip : Option Str
  now : Now

/-- A whole row of `audit_events`. -/
structure Row extends AuditEvent where
  actorId : Option ℕ
  targetType : Option Str
  targetId : Option Str
  detailJson : Option Str
  ip : Option Str

instance : Keyed Row ℕ := ⟨fun row => row.id⟩

/-! ### The writer -/

/-- The text of a detail. -/
def detailText (detail : Option (List (Str × Json))) : Option Str := detail.map fun d => (Json.obj d).sortKeys.dumps

/-- `now or datetime.now(UTC)`: the clock shows `clock`. -/
def Now.moment (clock : Certs.AwareDatetime) : Now → Except Failure Certs.AwareDatetime
  | .clock => .ok clock
  | .aware moment => .ok moment
  | .naive => raise .value "record() needs a timezone-aware datetime for now"

/-- Append an event. -/
def record (clock : Certs.AwareDatetime) (events : Table Row) (call : Call) : Except Failure (Row × Table Row) := do
  let moment ← call.now.moment clock
  let occurredAt ← Certs.iso moment
  let event : Row :=
    { id := events.nextId
      occurredAt := occurredAt
      actorKind := call.actor.kind.value
      actorId := call.actor.id
      actorLabel := call.actor.label.take maxLabelLength
      action := call.action.value
      targetType := call.targetType
      targetId := call.targetId.map TargetId.toStr
      summary := call.summary
      detailJson := detailText call.detail
      ip := call.ip }
  return (event, events.upsert event)

/-- Call after call, each with what the clock shows; one that fails leaves the log as it was. -/
def recordAll (events : Table Row) (calls : List (Certs.AwareDatetime × Call)) : Table Row :=
  calls.foldl (fun events c => match record c.1 events c.2 with
    | .ok (_, events') => events'
    | .error _ => events) events

/-! ### The reader -/

/-- The newest rows first. -/
def newestRows (rows : List Row) : List Row :=
  rows.mergeSort fun a b => b.occurredAt < a.occurredAt ∨ (a.occurredAt = b.occurredAt ∧ b.id ≤ a.id)

/-- One page of the rows that are selected, and how many there are. -/
def listRows (U : Unicode) (events : Table Row) (q action actorKind : Str) (page : ℤ) (perPage : ℕ) :
    List Row × ℕ :=
  let page := min (max page 1) maxPage
  let selected := events.select fun row => meets (filters U q action actorKind) row.toAuditEvent
  (((newestRows selected).drop ((page - 1).toNat * perPage)).take perPage, selected.length)

/-- What a client is shown of an event. -/
structure AuditEventInfo where
  id : ℕ
  occurredAt : Str
  actorKind : Str
  actorId : Option ℕ
  actorLabel : Str
  action : Str
  targetType : Option Str
  targetId : Option Str
  summary : Str
  detail : Option Json
  ip : Option Str

/-- The details of a row, read by an interpreter that lets `depth` brackets be open at once. -/
def Row.detail (depth : ℕ) (row : Row) : Except Json.LoadsError (Option Json) :=
  match row.detailJson with
  | none => .ok none
  | some text => (Json.loads depth text).map some

/-- `_audit_event`. -/
def auditEvent (depth : ℕ) (row : Row) : Except Json.LoadsError AuditEventInfo := do
  let detail ← row.detail depth
  return { row with detail := detail }

/-- The columns a query reads. -/
def queried (events : Table Row) : Table AuditEvent where
  rows := events.rows.map Row.toAuditEvent
  sorted := by
    rw [List.pairwise_map]
    exact events.sorted

/-- A page of whole rows is the page of the columns that are read. -/
theorem listRows_eq (U : Unicode) (events : Table Row) (q action actorKind : Str) (page : ℤ) (perPage : ℕ) :
    ((listRows U events q action actorKind page perPage).1.map Row.toAuditEvent,
      (listRows U events q action actorKind page perPage).2) =
        listEvents U (queried events) q action actorKind page perPage := by
  have hselect : (queried events).select (meets (filters U q action actorKind)) =
      (events.select fun row => meets (filters U q action actorKind) row.toAuditEvent).map Row.toAuditEvent :=
    List.filter_map
  simp only [listRows, listEvents, hselect, List.length_map, newestFirst, newestRows, List.map_take, List.map_drop,
    Prod.mk.injEq, and_true]
  congr 2
  exact List.map_mergeSort fun a _ b _ => rfl

/-! ### What has been recorded -/

section log

variable {clock : Certs.AwareDatetime} {calls : List (Certs.AwareDatetime × Call)} {call : Call}

/-- When an event happened: the second, if there is one. -/
def Now.second? (clock : Certs.AwareDatetime) (now : Now) : Option ℤ :=
  (now.moment clock >>= Certs.AwareDatetime.astimezone).toOption.map Instant.seconds

/-- What a call adds to the log: nothing, where it fails. -/
def logged (c : Certs.AwareDatetime × Call) : Option (ℤ × Call) := (c.2.now.second? c.1).map fun second => (second, c.2)

/-- The row of an event. -/
def rowOf (id : ℕ) (second : ℤ) (call : Call) : Row where
  id := id
  occurredAt := Iso.isoformat second
  actorKind := call.actor.kind.value
  actorId := call.actor.id
  actorLabel := call.actor.label.take maxLabelLength
  action := call.action.value
  targetType := call.targetType
  targetId := call.targetId.map TargetId.toStr
  summary := call.summary
  detailJson := detailText call.detail
  ip := call.ip

/-- What is shown of the event that is recorded as the one with number `e.2`, from 0. -/
def shown (e : (ℤ × Call) × ℕ) : AuditEventInfo :=
  { rowOf (e.2 + 1) e.1.1 e.1.2 with detail := e.1.2.detail.map fun d => (Json.obj d).sortKeys }

/-- A call appends its event, or fails. -/
theorem record_cases (clock : Certs.AwareDatetime) (events : Table Row) (call : Call) :
    (∃ second, logged (clock, call) = some (second, call) ∧ record clock events call =
      .ok (rowOf events.nextId second call, events.upsert (rowOf events.nextId second call))) ∨
    (logged (clock, call) = none ∧ ∃ failure, record clock events call = .error failure) := by
  cases hmoment : call.now.moment clock with
  | error failure =>
    refine .inr ⟨?_, failure, ?_⟩
    · simp only [logged, Now.second?, hmoment]
      rfl
    · simp only [record, hmoment]
      rfl
  | ok moment =>
    cases htime : moment.astimezone with
    | error failure =>
      refine .inr ⟨?_, failure, ?_⟩
      · simp only [logged, Now.second?, hmoment, bind, Except.bind, htime]
        rfl
      · simp only [record, hmoment, bind, Except.bind, Certs.iso, htime]
    | ok t =>
      refine .inl ⟨Instant.seconds t, ?_, ?_⟩
      · simp only [logged, Now.second?, hmoment, bind, Except.bind, htime]
        rfl
      · simp only [record, hmoment, bind, Except.bind, Certs.iso, htime]
        rfl

/-- The rows of a log, numbered from 1. -/
def numbered (log : List (ℤ × Call)) : List Row := log.zipIdx.map fun e => rowOf (e.2 + 1) e.1.1 e.1.2

@[simp] theorem length_numbered (log : List (ℤ × Call)) : (numbered log).length = log.length := by
  rw [numbered, List.length_map, List.length_zipIdx]

theorem numbered_append (log : List (ℤ × Call)) (e : ℤ × Call) :
    numbered (log ++ [e]) = numbered log ++ [rowOf (log.length + 1) e.1 e.2] := by
  simp [numbered, List.zipIdx_append]

/-- Rows that are numbered from 1 go on with the next number. -/
theorem nextId_numbered {events : Table Row} {log : List (ℤ × Call)} (h : events.rows = numbered log) :
    events.nextId = log.length + 1 := by
  have hmax : ∀ log : List (ℤ × Call), ((numbered log).map key).foldr max 0 = log.length := by
    intro log
    induction log using List.reverseRecOn with
    | nil => rfl
    | append_singleton log e ih =>
      have hfold : ∀ (l : List ℕ) (n : ℕ), (l ++ [n]).foldr max 0 = max (l.foldr max 0) n := by
        intro l n
        induction l with
        | nil => simp
        | cons x l ih' => rw [List.cons_append, List.foldr_cons, ih', List.foldr_cons, max_assoc]
      have hkey : key (rowOf (log.length + 1) e.1 e.2) = log.length + 1 := rfl
      rw [numbered_append, List.map_append, List.map_singleton, hfold, ih, hkey, List.length_append,
        List.length_singleton]
      exact max_eq_right (Nat.le_succ _)
  rw [Table.nextId, h, hmax]

/-- **The table is the log**: what has been recorded, in this order and numbered from 1. -/
theorem rows_recordAll (calls : List (Certs.AwareDatetime × Call)) :
    (recordAll .empty calls).rows = numbered (calls.filterMap logged) := by
  induction calls using List.reverseRecOn with
  | nil => rfl
  | append_singleton calls c ih =>
    have hstep : recordAll .empty (calls ++ [c]) = match record c.1 (recordAll .empty calls) c.2 with
        | .ok (_, events') => events'
        | .error _ => recordAll .empty calls := by
      simp only [recordAll, List.foldl_append, List.foldl_cons, List.foldl_nil]
    rw [hstep, List.filterMap_append]
    obtain ⟨clock, call⟩ := c
    rcases record_cases clock (recordAll .empty calls) call with ⟨second, hlog, hrecord⟩ | ⟨hlog, failure, hrecord⟩
    · rw [hrecord, List.filterMap_cons_some hlog, List.filterMap_nil, numbered_append]
      dsimp only
      rw [Table.rows_upsert_nextId rfl, ih, nextId_numbered ih]
    · rw [hrecord, List.filterMap_cons_none hlog, List.filterMap_nil, List.append_nil]
      exact ih

/-- What is recorded is kept. -/
theorem rows_recordAll_append (calls more : List (Certs.AwareDatetime × Call)) :
    (recordAll .empty calls).rows <+: (recordAll .empty (calls ++ more)).rows := by
  rw [rows_recordAll, rows_recordAll, List.filterMap_append, numbered, numbered, List.zipIdx_append, List.map_append]
  exact List.prefix_append _ _

/-- Events are of seconds that have a text. -/
theorem range_of_logged {c : Certs.AwareDatetime × Call} {e : ℤ × Call} (h : logged c = some e) :
    Iso.firstSecond ≤ e.1 ∧ e.1 < Iso.endSecond := by
  obtain ⟨clock, call⟩ := c
  rcases hmoment : call.now.moment clock with failure | moment
  · simp [logged, Now.second?, hmoment, bind, Except.bind, Except.toOption] at h
  · rcases htime : moment.astimezone with failure | t
    · simp [logged, Now.second?, hmoment, bind, Except.bind, htime, Except.toOption] at h
    · have ht : Instant.IsDatetime t := by
        unfold Certs.AwareDatetime.astimezone at htime
        obtain ⟨_, hrefuse, htime⟩ := bind_eq_ok.1 htime
        obtain rfl := Except.ok.inj htime
        exact not_not.1 (refuse_eq_ok.1 hrefuse)
      have he : e = (Instant.seconds t, call) := by
        simpa [logged, Now.second?, hmoment, bind, Except.bind, htime, Except.toOption] using h.symm
      obtain ⟨hlow, hhigh⟩ := ht
      rw [he]
      unfold Instant.seconds Iso.firstSecond Iso.endSecond
      unfold Instant.ofSeconds at hlow hhigh
      constructor <;> dsimp only <;> omega

end log

/-! ### Pages of a run -/

section pages

variable {depth : ℕ} {calls : List (Certs.AwareDatetime × Call)} (U : Unicode) (q action actorKind : Str)

/-- The query selects the event: the term stands in one of three texts, and the filters that are set are met. -/
def Selects (call : Call) : Prop :=
  (searchTerm U q ≠ [] → ∃ column ∈ [call.actor.label.take maxLabelLength, call.action.value, call.summary],
      Str.asciiLower (searchTerm U q) <:+: Str.asciiLower column) ∧
    (IsSet action → call.action.value = action) ∧ (IsSet actorKind → call.actor.kind.value = actorKind)

instance (call : Call) : Decidable (Selects U q action actorKind call) := inferInstanceAs (Decidable (_ ∧ _ ∧ _))

/-- The event of the later second; of one second, the one that was recorded later. -/
def Newer (e e' : (ℤ × Call) × ℕ) : Prop := e'.1.1 < e.1.1 ∨ (e.1.1 = e'.1.1 ∧ e'.2 ≤ e.2)

instance (e e' : (ℤ × Call) × ℕ) : Decidable (Newer e e') := inferInstanceAs (Decidable (_ ∨ _))

theorem auditEvent_rowOf {e : (ℤ × Call) × ℕ} (hdetail : ∀ d ∈ e.1.2.detail, Json.Written depth (.obj d)) :
    auditEvent depth (rowOf (e.2 + 1) e.1.1 e.1.2) = .ok (shown e) := by
  have hread : (rowOf (e.2 + 1) e.1.1 e.1.2).detail depth = .ok (e.1.2.detail.map fun d => (Json.obj d).sortKeys) := by
    unfold Row.detail rowOf detailText
    cases hcall : e.1.2.detail with
    | none => rfl
    | some d =>
      simp only [Option.map_some, Json.loads_dumps_sortKeys (hdetail d hcall)]
      rfl
  simp only [auditEvent, hread]
  rfl

theorem mapM_auditEvent {l : List ((ℤ × Call) × ℕ)} (h : ∀ e ∈ l, ∀ d ∈ e.1.2.detail, Json.Written depth (.obj d)) :
    (l.map fun e => rowOf (e.2 + 1) e.1.1 e.1.2).mapM (auditEvent depth) = .ok (l.map shown) := by
  induction l with
  | nil => rfl
  | cons e l ih =>
    rw [List.map_cons, List.mapM_cons, auditEvent_rowOf (h e List.mem_cons_self),
      ih fun e' he' => h e' (List.mem_cons_of_mem e he')]
    rfl

/-- Where the clock does not go back, the newest first is the last first. -/
theorem eq_reverse_of_clock {log : List (ℤ × Call)} (hclock : log.Pairwise fun e e' => e.1 ≤ e'.1)
    {p : (ℤ × Call) × ℕ → Bool} {order : List ((ℤ × Call) × ℕ)} (hperm : order.Perm (log.zipIdx.filter p))
    (hnewer : order.Pairwise Newer) : order = (log.zipIdx.filter p).reverse := by
  have hlog : log.zipIdx.Pairwise fun e e' => Newer e' e := by
    rw [List.pairwise_iff_getElem] at hclock ⊢
    intro i j hi hj hij
    simp only [List.length_zipIdx] at hi hj
    have hle := hclock i j hi hj hij
    simp only [List.getElem_zipIdx, Newer]
    omega
  refine (hperm.trans (List.reverse_perm _).symm).eq_of_pairwise (fun a b ha hb hab hba => ?_) hnewer
    (List.pairwise_reverse.2 (hlog.filter p))
  have ha := List.mem_of_mem_filter (hperm.mem_iff.1 ha)
  have hb := List.mem_of_mem_filter (List.mem_reverse.1 hb)
  have hindex : a.2 = b.2 := by
    unfold Newer at hab hba
    omega
  have ha := List.mem_zipIdx_iff_getElem?.1 ha
  have hb := List.mem_zipIdx_iff_getElem?.1 hb
  rw [hindex, hb] at ha
  exact Prod.ext (Option.some.inj ha).symm hindex

/-- **Over any run, the pages are the events that are selected, the newest first**: there is one order of them, and
every page is a part of it, the last recorded first if the clock has not gone back.  Each event is shown as it was
recorded, with its details read from their text. -/
theorem list_events_of_record (hdetail : ∀ c ∈ calls, ∀ d ∈ c.2.detail, Json.Written depth (.obj d)) :
    ∃ order : List ((ℤ × Call) × ℕ),
      order.Perm ((calls.filterMap logged).zipIdx.filter fun e => Selects U q action actorKind e.1.2) ∧
      order.Pairwise Newer ∧
      (((calls.filterMap logged).Pairwise fun e e' => e.1 ≤ e'.1) →
        order = ((calls.filterMap logged).zipIdx.filter fun e => Selects U q action actorKind e.1.2).reverse) ∧
      ∀ page perPage, (listRows U (recordAll .empty calls) q action actorKind page perPage).2 = order.length ∧
        (listRows U (recordAll .empty calls) q action actorKind page perPage).1.mapM (auditEvent depth) =
          .ok (((order.drop ((min (max page 1) maxPage - 1).toNat * perPage)).take perPage).map shown) := by
  let f : (ℤ × Call) × ℕ → Row := fun e => rowOf (e.2 + 1) e.1.1 e.1.2
  let log := (calls.filterMap logged).zipIdx
  have hsource : ∀ e ∈ log, ∃ c ∈ calls, logged c = some e.1 := fun e he =>
    List.mem_filterMap.1 (List.fst_mem_of_mem_zipIdx he)
  have hrange : ∀ e ∈ log, Iso.firstSecond ≤ e.1.1 ∧ e.1.1 < Iso.endSecond := fun e he => by
    obtain ⟨c, -, hc⟩ := hsource e he
    exact range_of_logged hc
  have hselected : (recordAll .empty calls).select (fun row => meets (filters U q action actorKind) row.toAuditEvent) =
      (log.filter fun e => Selects U q action actorKind e.1.2).map f := by
    rw [Table.select, rows_recordAll, numbered, List.filter_map]
    congr 1
    refine List.filter_congr fun e _ => ?_
    rw [Bool.eq_iff_iff, decide_eq_true_eq]
    exact meets_filters
  have hsort : ∀ a ∈ log, ∀ b ∈ log, (f b).occurredAt < (f a).occurredAt ∨
      ((f a).occurredAt = (f b).occurredAt ∧ (f b).id ≤ (f a).id) ↔ Newer a b := by
    intro a ha b hb
    obtain ⟨hlow, hhigh⟩ := hrange a ha
    obtain ⟨hlow', hhigh'⟩ := hrange b hb
    have hlt := Iso.isoformat_lt hlow' hhigh' hlow hhigh
    have heq : Iso.isoformat a.1.1 = Iso.isoformat b.1.1 ↔ a.1.1 = b.1.1 := by
      have hle := Iso.isoformat_le hlow hhigh hlow' hhigh'
      have hge := Iso.isoformat_le hlow' hhigh' hlow hhigh
      rw [le_antisymm_iff, hle, hge, ← le_antisymm_iff]
    exact or_congr hlt (and_congr heq (Nat.succ_le_succ_iff))
  have hrows : newestRows ((log.filter fun e => Selects U q action actorKind e.1.2).map f) =
      ((log.filter fun e => Selects U q action actorKind e.1.2).mergeSort fun a b => Newer a b).map f := by
    rw [newestRows, List.map_mergeSort]
    intro a ha b hb
    rw [Bool.eq_iff_iff, decide_eq_true_eq, decide_eq_true_eq]
    exact (hsort a (List.mem_of_mem_filter ha) b (List.mem_of_mem_filter hb)).symm
  have hperm := List.mergeSort_perm (log.filter fun e => Selects U q action actorKind e.1.2) fun a b => decide (Newer a b)
  have hnewer : ((log.filter fun e => Selects U q action actorKind e.1.2).mergeSort
      fun a b => decide (Newer a b)).Pairwise Newer := by
    refine (List.pairwise_mergeSort (fun a b c hab hbc => ?_) (fun a b => ?_) _).imp of_decide_eq_true
    · have hab := of_decide_eq_true hab
      have hbc := of_decide_eq_true hbc
      unfold Newer at hab hbc
      rw [decide_eq_true_eq, Newer]
      omega
    · rw [Bool.or_eq_true, decide_eq_true_eq, decide_eq_true_eq, Newer, Newer]
      omega
  refine ⟨_, hperm, hnewer, fun hclock => eq_reverse_of_clock hclock hperm hnewer, fun page perPage => ⟨?_, ?_⟩⟩
  · simp only [listRows, hselected, List.length_map, List.length_mergeSort]
  · simp only [listRows, hselected, hrows]
    rw [← List.map_drop, ← List.map_take]
    refine mapM_auditEvent fun e he => ?_
    have hmem : e ∈ log := List.mem_of_mem_filter (List.mem_mergeSort.1 (List.mem_of_mem_drop (List.mem_of_mem_take he)))
    obtain ⟨c, hc, hlog⟩ := hsource e hmem
    have hcall : e.1.2 = c.2 := by
      obtain ⟨second, -, he⟩ := Option.map_eq_some_iff.1 hlog
      rw [← he]
    rw [hcall]
    exact hdetail c hc

/-- A clock in UTC. -/
def clockAt (second : ℤ) (h : Instant.IsDatetime (Instant.ofSeconds second)) : Certs.AwareDatetime :=
  ⟨Instant.ofSeconds second, false, .utc, h⟩

/-- A setting is changed, the new value given first. -/
def settingChanged : Call :=
  ⟨⟨.user, some 1, Str.of "root"⟩, .settingsChanged, Str.of "settings: base_url changed", some (Str.of "setting"),
    some (.str (Str.of "base_url")), some [(Str.of "new", .str (Str.of "https://ca")), (Str.of "key", .null)], none, .clock⟩

/-- The same, the key given first. -/
def settingChanged' : Call := { settingChanged with detail := settingChanged.detail.map List.reverse }

theorem written_settingChanged : ∀ d ∈ settingChanged.detail, Json.Written 2 (.obj d) := by
  rintro d ⟨⟩
  unfold Json.Written
  refine ⟨by decide, by decide, Json.writtenMembers_iff.2 fun m hm => ?_⟩
  have htext : ∀ t ∈ [Str.of "new", Str.of "key", Str.of "https://ca"], Json.IsText t := by
    have hlow : ∀ t ∈ [Str.of "new", Str.of "key", Str.of "https://ca"], ∀ c ∈ t, c < 0xD800 := by decide
    exact fun t ht => .of_lt (hlow t ht)
  simp only [List.mem_cons, List.not_mem_nil, or_false] at hm
  rcases hm with rfl | rfl
  · exact ⟨htext _ (by simp), by unfold Json.Written; exact htext _ (by simp)⟩
  · exact ⟨htext _ (by simp), by unfold Json.Written; trivial⟩

theorem list_events_of_record_setting :
    (∀ c ∈ [(clockAt 1709210096 (by decide), settingChanged)], ∀ d ∈ c.2.detail, Json.Written 2 (.obj d)) ∧
    ∃ order : List ((ℤ × Call) × ℕ),
      order.Perm (([(clockAt 1709210096 (by decide), settingChanged)].filterMap logged).zipIdx.filter fun e =>
        Selects .ascii (Str.of "BASE") [] (Str.of "user") e.1.2) ∧
      order.Pairwise Newer ∧
      ((([(clockAt 1709210096 (by decide), settingChanged)].filterMap logged).Pairwise fun e e' => e.1 ≤ e'.1) →
        order = (([(clockAt 1709210096 (by decide), settingChanged)].filterMap logged).zipIdx.filter fun e =>
          Selects .ascii (Str.of "BASE") [] (Str.of "user") e.1.2).reverse) ∧
      ∀ page perPage,
        (listRows .ascii (recordAll .empty [(clockAt 1709210096 (by decide), settingChanged)]) (Str.of "BASE") []
          (Str.of "user") page perPage).2 = order.length ∧
        (listRows .ascii (recordAll .empty [(clockAt 1709210096 (by decide), settingChanged)]) (Str.of "BASE") []
          (Str.of "user") page perPage).1.mapM (auditEvent 2) =
            .ok (((order.drop ((min (max page 1) maxPage - 1).toNat * perPage)).take perPage).map shown) := by
  have hdetail : ∀ c ∈ [(clockAt 1709210096 (by decide), settingChanged)], ∀ d ∈ c.2.detail, Json.Written 2 (.obj d) := by
    intro c hc
    rw [List.mem_singleton.1 hc]
    exact written_settingChanged
  exact ⟨hdetail, list_events_of_record .ascii (Str.of "BASE") [] (Str.of "user") hdetail⟩

/-- **Events have the same text for their details if and only if they have the same details.** -/
theorem detailJson_eq_iff {clock clock' : Certs.AwareDatetime} {events events' after after' : Table Row}
    {call call' : Call} {row row' : Row} (hdetail : ∀ d ∈ call.detail, Json.Written depth (.obj d))
    (hdetail' : ∀ d ∈ call'.detail, Json.Written depth (.obj d)) (h : record clock events call = .ok (row, after))
    (h' : record clock' events' call' = .ok (row', after')) :
    row.detailJson = row'.detailJson ↔
      Option.Rel (fun d d' => (Json.obj d).same (.obj d') = true) call.detail call'.detail := by
  have hrow : ∀ {clock events after row} {call : Call}, record clock events call = .ok (row, after) →
      row.detailJson = detailText call.detail := by
    intro clock events after row call h
    rcases record_cases clock events call with ⟨second, -, hrecord⟩ | ⟨-, failure, hrecord⟩
    · rw [hrecord] at h
      obtain ⟨rfl, -⟩ := Prod.mk.inj (Except.ok.inj h)
      rfl
    · rw [hrecord] at h
      cases h
  rw [hrow h, hrow h']
  unfold detailText
  cases hd : call.detail with
  | none => cases hd' : call'.detail <;> simp
  | some d =>
    cases hd' : call'.detail with
    | none => simp
    | some d' =>
      rw [Option.map_some, Option.map_some, Option.some.injEq, Option.rel_some_some]
      exact Json.dumps_sortKeys_inj (hdetail d hd) (hdetail' d' hd')

/-- The members of the detail may stand in another order. -/
theorem detailJson_eq_iff_setting :
    ∃ row row' after after', record (clockAt 1709210096 (by decide)) .empty settingChanged = .ok (row, after) ∧
      record (clockAt 1709210097 (by decide)) .empty settingChanged' = .ok (row', after') ∧
      row.detailJson = row'.detailJson := by
  have hwritten' : ∀ d ∈ settingChanged'.detail, Json.Written 2 (.obj d) := by
    rintro _ ⟨⟩
    have h := written_settingChanged _ rfl
    unfold Json.Written at h ⊢
    exact ⟨h.1, by decide, h.2.2.perm (List.reverse_perm _)⟩
  have hsame : Option.Rel (fun d d' => (Json.obj d).same (.obj d') = true) settingChanged.detail
      settingChanged'.detail := .some rfl
  have h : record (clockAt 1709210096 (by decide)) .empty settingChanged = .ok (_, _) := rfl
  have h' : record (clockAt 1709210097 (by decide)) .empty settingChanged' = .ok (_, _) := rfl
  exact ⟨_, _, _, _, h, h', (detailJson_eq_iff written_settingChanged hwritten' h h').2 hsame⟩

end pages

end Audit

end Cabin
