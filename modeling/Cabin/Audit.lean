import Cabin.Ca.Inventory
import Cabin.Text.Infix

/-!
# The audit log

The list of audit events (`audit.py`): a search term, an action and a kind of actor select events, and a page of
them is returned, the newest first.  The term is looked for as in the inventory.

* `filters` are the conditions of a query, `listEvents` is the query;
* `search_patterns_exact` : a pattern, of the inventory or of the log, looks for its term and nothing else;
* `meets_filters` says which events are selected, `exists_listEvents` that each of them is on a page.
-/

namespace Cabin

namespace Audit

/-! ### Queries -/

/-- An event of the log, with the columns a query reads. -/
structure AuditEvent where
  id : ℕ
  occurredAt : Str
  actorKind : Str
  actorLabel : Str
  action : Str
  summary : Str

instance : Keyed AuditEvent ℕ := ⟨AuditEvent.id⟩

/-- The events of a page. -/
def perPage : ℕ := 50

/-- The most characters of a search term. -/
def maxQueryLength : ℕ := 200

/-- The last page. -/
def maxPage : ℤ := 1000000

/-- A condition of a query. -/
abbrev Condition := AuditEvent → Bool

/-- The columns that are searched. -/
def columns (event : AuditEvent) : List Str := [event.actorLabel, event.action, event.summary]

/-- The pattern for a term: escaped, and between two `%`, as in the inventory. -/
def searchPattern (term : Str) : Str := Certs.searchPattern term

/-- The term is found in one of three columns. -/
def matchesTerm (term : Str) : Condition := fun event =>
  (columns event).any fun column => Like.like 0x5C (searchPattern term) (Str.asciiLower column)

/-- A filter that is set: neither empty nor `all`. -/
def IsSet (filter : Str) : Prop := filter ≠ [] ∧ filter ≠ Str.of "all"

instance (filter : Str) : Decidable (IsSet filter) := inferInstanceAs (Decidable (_ ∧ _))

variable (U : Unicode)

/-- What is looked for. -/
def searchTerm (q : Str) : Str := U.lower ((Str.strip q).take maxQueryLength)

/-- `_filters`: the conditions of a query. -/
def filters (q action actorKind : Str) : List Condition :=
  (if searchTerm U q ≠ [] then [matchesTerm (searchTerm U q)] else []) ++
    (if IsSet action then [fun event : AuditEvent => decide (event.action = action)] else []) ++
    if IsSet actorKind then [fun event : AuditEvent => decide (event.actorKind = actorKind)] else []

/-- An event that meets all conditions. -/
def meets (conditions : List Condition) (event : AuditEvent) : Bool := conditions.all (· event)

/-- The newest events first. -/
def newestFirst (events : List AuditEvent) : List AuditEvent :=
  events.mergeSort fun a b => b.occurredAt < a.occurredAt ∨ (a.occurredAt = b.occurredAt ∧ b.id ≤ a.id)

/-- One page of the events that are selected, and how many there are. -/
def listEvents (events : Table AuditEvent) (q action actorKind : Str) (page : ℤ) (perPage : ℕ) :
    List AuditEvent × ℕ :=
  let page := min (max page 1) maxPage
  let selected := events.select (meets (filters U q action actorKind))
  (((newestFirst selected).drop ((page - 1).toNat * perPage)).take perPage, selected.length)

/-! ### What is selected -/

/-- **The pattern for a term looks for the term**: with letters compared as they are, it matches the texts in which
the term stands, whatever characters the term has. -/
theorem search_patterns_exact (term text : Str) :
    (Like.likeBy id 0x5C (Certs.searchPattern term) text = true ↔ term <:+: text) ∧
    (Like.likeBy id 0x5C (searchPattern term) text = true ↔ term <:+: text) := by
  have hexact : Like.likeBy id 0x5C (Certs.searchPattern term) text = true ↔ term <:+: text := by
    rw [Certs.searchPattern_eq, Like.likeBy_contains (by decide), List.map_id, List.map_id]
  exact ⟨hexact, hexact⟩

variable {U} {q action actorKind : Str} {event : AuditEvent} {events : Table AuditEvent}

theorem matchesTerm_iff (term : Str) : matchesTerm term event = true ↔
    ∃ column ∈ columns event, Str.asciiLower term <:+: Str.asciiLower column := by
  simp only [matchesTerm, searchPattern, List.any_eq_true, Certs.like_searchPattern]

/-- **The events a query selects**: the term stands in a column, and the filters that are set are met. -/
theorem meets_filters : meets (filters U q action actorKind) event = true ↔
    (searchTerm U q ≠ [] → ∃ column ∈ columns event, Str.asciiLower (searchTerm U q) <:+: Str.asciiLower column) ∧
      (IsSet action → event.action = action) ∧ (IsSet actorKind → event.actorKind = actorKind) := by
  have hpart : ∀ (p : Prop) [Decidable p] (condition : Condition),
      (if p then [condition] else []).all (· event) = true ↔ (p → condition event = true) := by
    intro p _ condition
    by_cases hp : p <;> simp [hp]
  simp only [meets, filters, List.all_append, Bool.and_eq_true, hpart, matchesTerm_iff, decide_eq_true_eq, and_assoc]

/-- A page has selected events only. -/
theorem mem_of_listEvents {page : ℤ} {perPage : ℕ}
    (h : event ∈ (listEvents U events q action actorKind page perPage).1) :
    event ∈ events ∧ meets (filters U q action actorKind) event = true :=
  Table.mem_select.1 (List.mem_mergeSort.1 (List.mem_of_mem_drop (List.mem_of_mem_take h)))

/-- Each event that is selected is on a page, if there are not too many. -/
theorem exists_listEvents {perPage : ℕ} (hevent : event ∈ events)
    (hmeets : meets (filters U q action actorKind) event = true)
    (hfew : events.rows.length ≤ maxPage.toNat * perPage) :
    ∃ page, event ∈ (listEvents U events q action actorKind page perPage).1 := by
  have hmem : event ∈ newestFirst (events.select (meets (filters U q action actorKind))) :=
    List.mem_mergeSort.2 (Table.mem_select.2 ⟨hevent, hmeets⟩)
  have hlength : (newestFirst (events.select (meets (filters U q action actorKind)))).length ≤
      maxPage.toNat * perPage := by
    rw [newestFirst, List.length_mergeSort]
    exact (List.length_filter_le _ _).trans hfew
  obtain ⟨k, hk, hpage⟩ := exists_page hmem hlength
  have hclamp : (min (max ((k : ℤ) + 1) 1) maxPage - 1).toNat = k := by
    unfold maxPage at hk ⊢
    omega
  refine ⟨k + 1, ?_⟩
  rw [listEvents, hclamp]
  exact hpage

end Audit

end Cabin
