import Cabin.Acme.Targets
import Cabin.Text.Utf8

/-!
# Validation over HTTP

An attempt fetches a file from the host an identifier names and follows redirects by hand
(`acme/validation/http01.py`).  What the target answers decides where the next request goes, so each hop
passes the policy of `targets.py` again.

The URL library and the answers come from outside: `UrlLibrary` splits and joins, and a `Turn` is all that
happens around one request.

* `validate` is an attempt: the requests that are made, and how it ends;
* `fetch_spec`: what a run of the loop keeps, by induction over its hops;
* `validation_is_safe` is the result over every attempt.
-/

namespace Cabin

namespace Acme

namespace Http01

/-! ### The outside -/

/-- What `urlsplit` makes of a URL. -/
structure SplitUrl where
  scheme : Str
  /-- The host, without brackets. -/
  hostname : Option Str
  /-- The port that is named, or the exception that reading it raises. -/
  port : Except String (Option ℕ)
  path : Str
  query : Str

/-- The URL libraries, with the exceptions they raise. -/
structure UrlLibrary where
  urlsplit : Str → Except String SplitUrl
  /-- `URL(url).join(location)`, as a text. -/
  join : Str → Str → Except String Str

/-- What goes wrong in the client. -/
inductive ClientError where
  /-- A `TimeoutException`. -/
  | timeout
  /-- Another `HTTPError`. -/
  | http (name : String)
  /-- An exception that is none of the client's own. -/
  | other (name : String)
  deriving DecidableEq, Repr

/-- A piece of a body, and whether there was time left when it came. -/
structure Chunk where
  inTime : Bool
  bytes : List ℕ
  deriving DecidableEq, Repr

/-- What the target answers. -/
structure Response where
  status : ℕ
  /-- The `Location` header, empty if there is none. -/
  location : Str := []
  /-- The body, piece by piece. -/
  chunks : List Chunk := []
  /-- How reading the body ends, if not well. -/
  broken : Option ClientError := none
  deriving DecidableEq, Repr

/-- All that happens around one request. -/
structure Turn where
  /-- The answers of the resolver at this moment. -/
  lookup : Str → List Str
  /-- There is time left. -/
  inTime : Bool := true
  /-- The answer of the target, or what went wrong instead. -/
  answer : Except ClientError Response

/-- What a validator is given. -/
structure Attempt where
  /-- The identifier is an address. -/
  isIp : Bool
  identifierValue : Str
  token : Str
  keyAuthorization : Str
  allowPrivate : Bool := true
  /-- The budget in seconds, as it is printed. -/
  timeout : String := "10"
  deriving DecidableEq, Repr

/-- A request the client is handed. -/
structure HttpRequest where
  scheme : Str
  /-- Where it connects. -/
  netloc : Str
  path : Str
  query : Str
  /-- The `Host` header. -/
  host : Str
  /-- The name in SNI. -/
  sni : Option Str
  deriving DecidableEq, Repr

/-! ### One request -/

def wellKnownPrefix : Str := Str.of "/.well-known/acme-challenge/"

def maxBodyBytes : ℕ := 64 * 1024

def maxRedirects : ℕ := 5

/-- The statuses that name a new location. -/
def redirectStatuses : List ℕ := [301, 302, 303, 307, 308]

/-- The schemes that may be used, with their ports. -/
def defaultPorts : List (Str × ℕ) := [(Str.of "http", 80), (Str.of "https", 443)]

def allowedPorts : List ℕ := [80, 443]

/-- The answer of the target is not what was expected. -/
def incorrectResponse (detail : String) : Raised := .acme { kind := .incorrectResponse, detail }

variable (K : AddressKinds) (U : UrlLibrary)

/-- An exception that is not caught. -/
def crashing {α : Type} : Except String α → Except Raised α
  | .ok a => .ok a
  | .error name => .error (.crash name)

/-- The port of a URL; `0` counts as none. -/
def portOf (url : Str) (parsed : SplitUrl) (default : ℕ) : Except Raised ℕ :=
  match parsed.port with
  | .error _ => .error (incorrectResponse (cut 200 s!"{url.text} names no usable port"))
  | .ok none | .ok (some 0) => .ok default
  | .ok (some port) => .ok port

/-- Where to connect for a URL, checked. -/
def endpointOf (lookup : Str → List Str) (url : Str) (allowPrivate : Bool) : Except Raised Endpoint := do
  let parsed ← crashing (U.urlsplit url)
  match defaultPorts.lookup parsed.scheme with
  | none =>
    .error (incorrectResponse (cut 200 s!"validation will not follow a redirect to {parsed.scheme.repr}"))
  | some default =>
    let host := parsed.hostname.getD []
    refuse (host = []) (incorrectResponse (cut 200 s!"{url.text} names no host"))
    let port ← portOf url parsed default
    refuse (port ∉ allowedPorts)
      (incorrectResponse s!"validation only follows redirects to ports 80 and 443, not {port}")
    resolve K lookup host port allowPrivate

/-- Making a request has taken too long. -/
def timedOut (url : Str) (budget : String) : Raised :=
  connectionError s!"validating {url.text} timed out after {budget} seconds"

/-- The request for a URL. -/
def requestFor (a : Attempt) (url : Str) (turn : Turn) : Except Raised HttpRequest := do
  let endpoint ← endpointOf K U turn.lookup url a.allowPrivate
  let parsed ← crashing (U.urlsplit url)
  refuse (turn.inTime = false) (timedOut url a.timeout)
  pure ⟨parsed.scheme, endpoint.netloc, parsed.path, parsed.query, endpoint.hostHeader, endpoint.sni⟩

/-- What an exception of the client becomes. -/
def raisedBy (a : Attempt) (url netloc : Str) : ClientError → Raised
  | .timeout =>
    connectionError s!"fetching {url.text} from {netloc.text} timed out after {a.timeout} seconds"
  | .http name => connectionError s!"could not connect to {url.text} at {netloc.text}: {name}"
  | .other name => .crash name

/-- Read a body, up to the cap and as long as there is time. -/
def readCapped (a : Attempt) (url : Str) : ℕ → List Chunk → Except Raised (List ℕ)
  | _, [] => .ok []
  | read, chunk :: chunks => do
    refuse (chunk.inTime = false) (timedOut url a.timeout)
    refuse (maxBodyBytes < read + chunk.bytes.length)
      (incorrectResponse s!"the response from {url.text} is larger than {maxBodyBytes} bytes")
    let rest ← readCapped a url (read + chunk.bytes.length) chunks
    pure (chunk.bytes ++ rest)

/-- The response of the target to a request, and its body. -/
def readResponse (a : Attempt) (url netloc : Str) (turn : Turn) : Except Raised (Response × List ℕ) :=
  match turn.answer with
  | .error e => .error (raisedBy a url netloc e)
  | .ok response => do
    let body ← readCapped a url 0 response.chunks
    match response.broken with
    | some e => .error (raisedBy a url netloc e)
    | none => pure (response, body)

/-- Where a redirect leads. -/
def redirectTarget (url : Str) (response : Response) : Except Raised Str :=
  if response.location = [] then
    .error (incorrectResponse s!"{url.text} redirected without a Location header")
  else crashing (U.join url response.location)

/-! ### The loop -/

/-- What is made of a URL: the requests, and how it ends. -/
structure Fetched (α : Type) where
  requests : List HttpRequest
  outcome : Except Raised α

/-- Follow redirects for at most this many requests; `world` tells what happens around each. -/
def fetch (a : Attempt) : ℕ → Str → (ℕ → Turn) → Fetched (List ℕ)
  | 0, url, _ =>
    ⟨[], .error (incorrectResponse s!"validating {url.text} took more than {maxRedirects} redirects")⟩
  | hops + 1, url, world =>
    match requestFor K U a url (world 0) with
    | .error e => ⟨[], .error e⟩
    | .ok request =>
      match readResponse a url request.netloc (world 0) with
      | .error e => ⟨[request], .error e⟩
      | .ok (response, body) =>
        if response.status ∈ redirectStatuses then
          match redirectTarget U url response with
          | .error e => ⟨[request], .error e⟩
          | .ok target =>
            let rest := fetch a hops target fun i => world (i + 1)
            ⟨request :: rest.requests, rest.outcome⟩
        else if response.status ≠ 200 then
          ⟨[request], .error (incorrectResponse s!"{url.text} responded {response.status}, not 200")⟩
        else ⟨[request], .ok body⟩

/-- The identifier in a URL: an IPv6 address is put in brackets. -/
def hostInUrl (a : Attempt) : Str :=
  if a.isIp ∧ 0x3A ∈ a.identifierValue then 0x5B :: a.identifierValue ++ [0x5D] else a.identifierValue

/-- The URL of the first request. -/
def challengeUrl (a : Attempt) : Str :=
  Str.of "http://" ++ hostInUrl a ++ wellKnownPrefix ++ a.token

/-- `bytes.isspace` of one byte. -/
def isByteSpace (b : ℕ) : Bool := b == 0x20 || (0x09 ≤ b && b ≤ 0x0D)

/-- `bytes.strip`. -/
def stripBytes (bs : List ℕ) : List ℕ := ((bs.dropWhile isByteSpace).reverse.dropWhile isByteSpace).reverse

/-- The body proves control of the identifier. -/
def compareBody (a : Attempt) (body : List ℕ) : Except Raised Unit :=
  match a.keyAuthorization.utf8 with
  | none => .error (.crash "UnicodeEncodeError")
  | some expected =>
    refuse (stripBytes body ≠ expected) (incorrectResponse
      s!"the response from {(challengeUrl a).text} does not match the key authorization")

/-- An attempt. -/
def validate (a : Attempt) (world : ℕ → Turn) : Fetched Unit :=
  let fetched := fetch K U a (maxRedirects + 1) (challengeUrl a) world
  ⟨fetched.requests, fetched.outcome >>= compareBody a⟩

/-! ### What is expected -/

/-- The request goes to an approved address, to port 80 or 443, over HTTP. -/
def HttpRequest.Permitted (allowPrivate : Bool) (lookup : Str → List Str) (r : HttpRequest) : Prop :=
  ∃ e : Endpoint, r.netloc = e.netloc ∧ r.host = e.hostHeader ∧ e.Approved K lookup allowPrivate ∧
    (e.port = 80 ∨ e.port = 443) ∧ (r.scheme = Str.of "http" ∨ r.scheme = Str.of "https")

/-- What a run of the loop keeps. -/
structure Fetched.Safe (a : Attempt) (hops : ℕ) (world : ℕ → Turn) (f : Fetched (List ℕ)) : Prop where
  count : f.requests.length ≤ hops
  permitted : ∀ i r, f.requests[i]? = some r →
    HttpRequest.Permitted K a.allowPrivate (world i).lookup r
  /-- What is fetched is served in the last request, with status 200. -/
  served : ∀ body, f.outcome = .ok body → ∃ i < hops, f.requests.length = i + 1 ∧
    ∃ response, (world i).answer = .ok response ∧ response.status = 200 ∧
      body = response.chunks.flatMap Chunk.bytes

/-! ### Every hop -/

variable {K U} {a : Attempt} {url : Str} {turn : Turn} {lookup : Str → List Str}

theorem crashing_eq_ok {α : Type} {x : Except String α} {b : α} : crashing x = .ok b ↔ x = .ok b := by
  cases x with
  | error name => simp [crashing]
  | ok b' => simp [crashing]

theorem scheme_of_lookup {scheme : Str} {port : ℕ} (h : defaultPorts.lookup scheme = some port) :
    scheme = Str.of "http" ∨ scheme = Str.of "https" := by
  simp only [defaultPorts, List.lookup_cons, List.lookup_nil] at h
  split at h
  · rename_i heq
    exact .inl (eq_of_beq heq)
  · split at h
    · rename_i heq
      exact .inr (eq_of_beq heq)
    · cases h

theorem endpointOf_spec {e : Endpoint} (h : endpointOf K U lookup url a.allowPrivate = .ok e) :
    e.Approved K lookup a.allowPrivate ∧ (e.port = 80 ∨ e.port = 443) ∧
      ∃ parsed, U.urlsplit url = .ok parsed ∧
        (parsed.scheme = Str.of "http" ∨ parsed.scheme = Str.of "https") := by
  rw [endpointOf, bind_eq_ok] at h
  obtain ⟨parsed, hparsed, h⟩ := h
  cases hscheme : defaultPorts.lookup parsed.scheme with
  | none =>
    rw [hscheme] at h
    cases h
  | some default =>
    rw [hscheme] at h
    simp only [bind_eq_ok, refuse_eq_ok, not_not] at h
    obtain ⟨-, -, port, -, -, hport, hresolve⟩ := h
    obtain ⟨-, rfl, happroved⟩ := resolve_spec hresolve
    exact ⟨happroved, by simpa [allowedPorts] using hport, parsed, crashing_eq_ok.1 hparsed,
      scheme_of_lookup hscheme⟩

/-- A request goes where the policy allows it. -/
theorem permitted_of_requestFor {r : HttpRequest} (h : requestFor K U a url turn = .ok r) :
    r.Permitted K a.allowPrivate turn.lookup := by
  simp only [requestFor, bind_eq_ok, refuse_eq_ok, pure_eq_ok, crashing_eq_ok] at h
  obtain ⟨e, he, parsed, hparsed, -, -, rfl⟩ := h
  obtain ⟨happroved, hport, parsed', hparsed', hscheme⟩ := endpointOf_spec he
  obtain rfl := Except.ok.inj (hparsed.symm.trans hparsed')
  exact ⟨e, rfl, rfl, happroved, hport, hscheme⟩

theorem readCapped_eq_ok {read : ℕ} {chunks : List Chunk} {body : List ℕ}
    (h : readCapped a url read chunks = .ok body) : body = chunks.flatMap Chunk.bytes := by
  induction chunks generalizing read body with
  | nil => exact (Except.ok.inj h).symm
  | cons chunk chunks ih =>
    simp only [readCapped, bind_eq_ok, refuse_eq_ok, pure_eq_ok] at h
    obtain ⟨-, -, -, -, rest, hrest, rfl⟩ := h
    rw [List.flatMap_cons, ih hrest]

theorem readResponse_eq_ok {netloc : Str} {response : Response} {body : List ℕ}
    (h : readResponse a url netloc turn = .ok (response, body)) :
    turn.answer = .ok response ∧ body = response.chunks.flatMap Chunk.bytes := by
  unfold readResponse at h
  cases hanswer : turn.answer with
  | error e =>
    rw [hanswer] at h
    cases h
  | ok r =>
    rw [hanswer, bind_eq_ok] at h
    obtain ⟨body', hbody, h⟩ := h
    cases hbroken : r.broken with
    | some e =>
      rw [hbroken] at h
      cases h
    | none =>
      rw [hbroken] at h
      obtain ⟨rfl, rfl⟩ := Prod.mk.inj (pure_eq_ok.1 h)
      exact ⟨rfl, readCapped_eq_ok hbody⟩

/-! ### The whole attempt -/

/-- A run that ends with an exception is safe if its requests are. -/
theorem safe_of_error {hops : ℕ} {world : ℕ → Turn} {requests : List HttpRequest} {e : Raised}
    (hcount : requests.length ≤ hops)
    (h : ∀ i (r : HttpRequest), requests[i]? = some r → r.Permitted K a.allowPrivate (world i).lookup) :
    Fetched.Safe K a hops world ⟨requests, .error e⟩ :=
  ⟨hcount, h, nofun⟩

/-- What follows a redirect is safe if the rest is. -/
theorem safe_of_redirect {hops : ℕ} {world : ℕ → Turn} {r : HttpRequest} {rest : Fetched (List ℕ)}
    (hr : r.Permitted K a.allowPrivate (world 0).lookup)
    (h : Fetched.Safe K a hops (fun i => world (i + 1)) rest) :
    Fetched.Safe K a (hops + 1) world ⟨r :: rest.requests, rest.outcome⟩ where
  count := Nat.succ_le_succ h.count
  permitted i := by
    cases i with
    | zero =>
      rintro x ⟨⟩
      exact hr
    | succ i => exact fun x hx => h.permitted i x hx
  served body hbody := by
    obtain ⟨i, hi, hlen, hanswer⟩ := h.served body hbody
    exact ⟨i + 1, Nat.succ_lt_succ hi, congrArg Nat.succ hlen, hanswer⟩

/-- **The loop is safe**, by induction over its hops. -/
theorem fetch_spec (K : AddressKinds) (U : UrlLibrary) (a : Attempt) (hops : ℕ) (url : Str)
    (world : ℕ → Turn) : Fetched.Safe K a hops world (fetch K U a hops url world) := by
  induction hops generalizing url world with
  | zero => exact safe_of_error le_rfl nofun
  | succ hops ih =>
    unfold fetch
    cases hrequest : requestFor K U a url (world 0) with
    | error e => exact safe_of_error (Nat.zero_le _) nofun
    | ok request =>
      have hpermitted := permitted_of_requestFor hrequest
      have hone : ∀ i (r : HttpRequest), [request][i]? = some r → r.Permitted K a.allowPrivate (world i).lookup := by
        intro i r hr
        cases i with
        | zero =>
          obtain rfl := Option.some.inj hr
          exact hpermitted
        | succ i => cases hr
      dsimp only
      cases hresponse : readResponse a url request.netloc (world 0) with
      | error e => exact safe_of_error (Nat.succ_le_succ (Nat.zero_le _)) hone
      | ok answer =>
        obtain ⟨response, body⟩ := answer
        obtain ⟨hanswer, hbody⟩ := readResponse_eq_ok hresponse
        dsimp only
        split_ifs with hredirect hstatus
        · cases redirectTarget U url response with
          | error e => exact safe_of_error (Nat.succ_le_succ (Nat.zero_le _)) hone
          | ok target => exact safe_of_redirect hpermitted (ih target _)
        · exact safe_of_error (Nat.succ_le_succ (Nat.zero_le _)) hone
        · refine ⟨Nat.succ_le_succ (Nat.zero_le _), hone, ?_⟩
          rintro served ⟨⟩
          exact ⟨0, Nat.succ_pos _, rfl, response, hanswer, not_not.1 hstatus, hbody⟩

/-- **Validation is safe.**  For every identifier and whatever the resolver and the targets answer, each
request of an attempt goes to the first of the addresses the host resolves to at that moment, none of which
is forbidden in any form, on port 80 or 443 and over HTTP; there are at most six; and an attempt whose
targets all redirect fails. -/
theorem validation_is_safe (K : AddressKinds) (U : UrlLibrary) (a : Attempt) (world : ℕ → Turn) :
    (∀ i (r : HttpRequest), (validate K U a world).requests[i]? = some r →
      r.Permitted K a.allowPrivate (world i).lookup) ∧
    (validate K U a world).requests.length ≤ 6 ∧
    ((∀ i < 6, ∀ response, (world i).answer = .ok response → response.status ∈ redirectStatuses) →
      ∃ e, (validate K U a world).outcome = .error e) := by
  have hsafe := fetch_spec K U a (maxRedirects + 1) (challengeUrl a) world
  refine ⟨hsafe.permitted, hsafe.count, fun hloop => ?_⟩
  cases houtcome : (fetch K U a (maxRedirects + 1) (challengeUrl a) world).outcome with
  | error e => exact ⟨e, by simp [validate, houtcome, bind, Except.bind]⟩
  | ok body =>
    obtain ⟨i, hi, -, response, hanswer, hstatus, -⟩ := hsafe.served body houtcome
    have hredirect := hloop i hi response hanswer
    rw [hstatus] at hredirect
    exact absurd hredirect (by decide)

end Http01

end Acme

end Cabin
