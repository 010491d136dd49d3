import Cabin.Acme.Http01
import Cabin.Acme.KeyAuth
import Cabin.Text.Replace

/-!
# Validation over DNS

An attempt asks for the TXT records below the identifier (`acme/validation/dns01.py`).  A record is a sequence
of strings which a reader joins; it is decoded, whatever its bytes are, and compared as bytes again.

What DNS answers comes from outside: `Query` is all that happens around the one question.

* `validate` is an attempt;
* `accepts_record_iff`: which answers prove control of an identifier.
-/

namespace Cabin

namespace Acme

/-- What a validator is given, with the resolvers it may ask. -/
structure Attempt extends Http01.Attempt where
  /-- The resolvers to ask instead of the system's. -/
  resolvers : List Str := []
  deriving DecidableEq, Repr

namespace Dns01

/-! ### The outside -/

/-- What goes wrong with a question. -/
inductive DnsError where
  | nxdomain
  | noAnswer
  | timeout
  /-- Another `DNSException`. -/
  | dns (name : String)
  /-- An exception that is none of the resolver's own. -/
  | other (name : String)
  deriving DecidableEq, Repr

/-- The strings of a TXT record, as bytes. -/
abbrev Record := List (List ℕ)

/-- All that happens around the question. -/
structure Query where
  /-- There is time left. -/
  inTime : Bool := true
  /-- The TXT records at a name, as some resolvers see it. -/
  answer : Str → List Str → Except DnsError (List Record)

/-! ### An attempt -/

/-- Where the records are. -/
def label : Str := Str.of "_acme-challenge"

/-- A failed lookup. -/
def dnsFailure (detail : String) : Raised := .acme { kind := .dns, detail }

/-- The text of a record. -/
def recordText (record : Record) : Str := Str.decodeReplace record.flatten

/-- What an exception of the resolver becomes. -/
def raisedBy (name : Str) (timeout : String) : DnsError → Raised
  | .nxdomain => dnsFailure s!"{name.text} does not exist (NXDOMAIN)"
  | .noAnswer => dnsFailure s!"{name.text} exists but has no TXT record"
  | .timeout => dnsFailure s!"the DNS lookup for {name.text} timed out after {timeout} seconds"
  | .dns e => dnsFailure s!"the DNS lookup for {name.text} failed: {e}"
  | .other e => .crash e

/-- The texts at a name. -/
def records (a : Attempt) (query : Query) (name : Str) : Except Raised (List Str) := do
  refuse (query.inTime = false) (dnsFailure s!"validating {name.text} timed out after {a.timeout} seconds")
  match query.answer name a.resolvers with
  | .ok found => pure (found.map recordText)
  | .error e => .error (raisedBy name a.timeout e)

/-- One of the texts is the expected one. -/
def anyMatches (expected : List ℕ) : List Str → Except Raised Bool
  | [] => .ok false
  | text :: texts => do
    let bytes ← KeyAuth.encoded text
    if bytes = expected then pure true else anyMatches expected texts

/-- Where the records of an identifier are. -/
def recordName (a : Attempt) : Str := label ++ 0x2E :: a.identifierValue

variable (sha256 : Bytes → Bytes)

/-- An attempt. -/
def validate (a : Attempt) (query : Query) : Except Raised Unit := do
  refuse (a.isIp = true) (malformed "dns-01 cannot prove control of a ip identifier")
  let texts ← records a query (recordName a)
  let value ← KeyAuth.dnsValue sha256 a.keyAuthorization
  let expected ← KeyAuth.encoded value
  let found ← anyMatches expected texts
  refuse (found = false) (.acme
    { kind := .incorrectResponse
      detail := s!"no TXT record at {(recordName a).text} matches the key authorization " ++
        s!"({texts.length} found)" })

/-! ### What proves control -/

/-- A record with the digest of the key authorization, in as many strings as one likes. -/
def Shows (a : Attempt) (query : Query) : Prop :=
  a.isIp = false ∧ query.inTime = true ∧ ∃ found, query.answer (recordName a) a.resolvers = .ok found ∧
    ∃ record ∈ found, KeyAuth.dnsValue sha256 a.keyAuthorization = .ok record.flatten

variable {sha256} {a : Attempt} {query : Query} {expected : List ℕ}

theorem records_eq_ok {name : Str} {texts : List Str} : records a query name = .ok texts ↔
    query.inTime = true ∧ ∃ found, query.answer name a.resolvers = .ok found ∧ found.map recordText = texts := by
  simp only [records, bind_eq_ok, refuse_eq_ok, Bool.not_eq_false, exists_const]
  refine and_congr_right fun _ => ?_
  cases query.answer name a.resolvers with
  | ok found => simp [pure, Except.pure]
  | error e => simp

/-- A text that was decoded can be encoded. -/
theorem encoded_recordText (record : Record) :
    KeyAuth.encoded (recordText record) = .ok ((recordText record).flatMap Str.utf8Char) := by
  have hany : (recordText record).any Str.isSurrogate = false :=
    List.any_eq_false.2 fun c hc => by simp [Str.not_isSurrogate_decodeReplace _ c hc]
  rw [KeyAuth.encoded, Str.utf8, hany]
  rfl

/-- No byte of a code point beyond ASCII is below `0x80`. -/
theorem le_of_mem_utf8Char {c b : ℕ} (hc : 0x80 ≤ c) (hb : b ∈ Str.utf8Char c) : 0x80 ≤ b := by
  unfold Str.utf8Char at hb
  split_ifs at hb
  · omega
  all_goals
    simp only [List.mem_cons, List.not_mem_nil, or_false] at hb
    omega

/-- An ASCII text is encoded as itself, and no other text is encoded as it. -/
theorem flatMap_utf8Char_eq_iff {text value : Str} (hvalue : ∀ c ∈ value, c < 0x80) :
    text.flatMap Str.utf8Char = value ↔ text = value := by
  refine ⟨fun h => ?_, ?_⟩
  swap
  · rintro rfl
    exact KeyAuth.flatMap_utf8Char hvalue
  have hascii : ∀ c ∈ text, c < 0x80 := by
    intro c hc
    by_contra hwide
    have hne : Str.utf8Char c ≠ [] := by
      unfold Str.utf8Char
      split_ifs <;> simp
    obtain ⟨b, hb⟩ := List.exists_mem_of_ne_nil _ hne
    have hlt := hvalue b (h ▸ List.mem_flatMap.2 ⟨c, hc, hb⟩)
    have hle := le_of_mem_utf8Char (not_lt.1 hwide) hb
    omega
  rw [← h, KeyAuth.flatMap_utf8Char hascii]

/-- A record is the expected one if its strings, joined, are. -/
theorem anyMatches_eq_ok (found : List Record) {value : Str} (hvalue : ∀ c ∈ value, c < 0x80) :
    anyMatches value (found.map recordText) = .ok (decide (∃ record ∈ found, record.flatten = value)) := by
  induction found with
  | nil => simp [anyMatches]
  | cons record found ih =>
    have hrecord : (recordText record).flatMap Str.utf8Char = value ↔ record.flatten = value :=
      (flatMap_utf8Char_eq_iff hvalue).trans (Str.decodeReplace_eq_iff hvalue)
    simp only [List.map_cons, anyMatches, encoded_recordText, ih, List.mem_cons, exists_eq_or_imp]
    by_cases h : record.flatten = value
    · simp [bind, Except.bind, pure, Except.pure, hrecord, h]
    · simp [bind, Except.bind, hrecord, h]

theorem lt_of_dnsValue {value : Str} (h : KeyAuth.dnsValue sha256 a.keyAuthorization = .ok value) :
    ∀ c ∈ value, c < 0x80 := by
  obtain ⟨bytes, -, rfl⟩ := KeyAuth.dnsValue_eq_ok.1 h
  exact (KeyAuth.isBase64url_b64 bytes).lt

/-- Who is believed has shown it. -/
theorem shows_of_validate {query : Query} (h : validate sha256 a query = .ok ()) : Shows sha256 a query := by
  simp only [validate, bind_eq_ok, refuse_eq_ok, records_eq_ok, Bool.not_eq_true, Bool.not_eq_false, exists_const] at h
  obtain ⟨hname, _, ⟨htime, found, hfound, rfl⟩, value, hvalue, expected, hexpected, matched, hmatched, hany⟩ := h
  have hlt := lt_of_dnsValue hvalue
  obtain rfl := Except.ok.inj ((KeyAuth.encoded_of_lt hlt).symm.trans hexpected)
  rw [anyMatches_eq_ok found hlt, hany] at hmatched
  obtain ⟨record, hrecord, heq⟩ := of_decide_eq_true (Except.ok.inj hmatched)
  exact ⟨hname, htime, found, hfound, record, hrecord, heq ▸ hvalue⟩

/-- **What proves control over DNS**: that the identifier is a name, and among the records at its label, whatever
else is there, one whose strings are the digest of the key authorization when they are joined. -/
theorem accepts_record_iff (sha256 : Bytes → Bytes) (a : Attempt) (query : Query) :
    validate sha256 a query = .ok () ↔ Shows sha256 a query := by
  refine ⟨shows_of_validate, ?_⟩
  rintro ⟨hname, htime, found, hfound, record, hrecord, hvalue⟩
  have hlt := lt_of_dnsValue hvalue
  simp only [validate, bind_eq_ok, refuse_eq_ok, records_eq_ok, Bool.not_eq_true, Bool.not_eq_false, exists_const]
  refine ⟨hname, _, ⟨htime, found, hfound, rfl⟩, _, hvalue, _, KeyAuth.encoded_of_lt hlt, true, ?_, rfl⟩
  rw [anyMatches_eq_ok found hlt]
  exact congrArg Except.ok (decide_eq_true ⟨record, hrecord, rfl⟩)

end Dns01

end Acme

end Cabin
