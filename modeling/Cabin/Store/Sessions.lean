import Mathlib.Algebra.BigOperators.Group.List.Basic
import Mathlib.Algebra.Order.Ring.Int
import Mathlib.Tactic.SplitIfs
import Cabin.Lts.Basic

/-!
# Sessions on one database

Calls that work on one database at the same time, each in a session of its own.  The rules are those
of SQLite:

* one statement is executed at a time;
* a query sees the writes of its own session and else what is committed;
* the first write of a session takes the one write lock, which is held until the session commits or
  rolls back.  A write that finds the lock taken waits, and may give up.

A call is a local state, and `next` says which statement it executes there.  `Discipline` is an
argument about all orders of turns at once: what each call relies on, what keeps two calls apart, and
that no commit takes away what another call relies on.
-/

namespace Cabin

/-- The next statement of a call with local state in `L`, on a database `D`. -/
inductive Stmt (D L : Type*)
  /-- A query, and how the call goes on with what it sees. -/
  | select (next : D → L)
  /-- An insert, update or delete, and how the call goes on; `busy` is how it goes on when it gives
  up waiting for the lock. -/
  | write (run : D → D × L) (busy : L)
  /-- Commit the writes. -/
  | commit (next : L)
  /-- Forget the writes. -/
  | rollback (next : L)
  /-- The call is over. -/
  | done

/-- How a call that sees `db` goes on from a statement that leaves the database alone, or that it
gives up. -/
inductive Stmt.Moves {D L : Type*} (db : D) : Stmt D L → L → Prop
  | select {next} : Moves db (.select next) (next db)
  | giveUp {run busy} : Moves db (.write run busy) busy
  | commit {next} : Moves db (.commit next) next
  | rollback {next} : Moves db (.rollback next) next

/-- How a call can go on from a statement, whatever it sees. -/
inductive Stmt.Leads {D L : Type*} : Stmt D L → L → Prop
  | select {next db} : Leads (.select next) (next db)
  | write {run busy db} : Leads (.write run busy) (run db).2
  | giveUp {run busy} : Leads (.write run busy) busy
  | commit {next} : Leads (.commit next) next
  | rollback {next} : Leads (.rollback next) next

/-- A database and the calls that work on it. -/
structure Sessions (D L : Type*) where
  /-- What is committed. -/
  committed : D
  /-- The call that has the write lock, and what it sees. -/
  lock : Option (ℕ × D)
  /-- The calls. -/
  calls : List L

/-- Who moves. -/
inductive Turn
  /-- The call executes its next statement. -/
  | go (k : ℕ)
  /-- The call gives up waiting for the lock. -/
  | giveUp (k : ℕ)
  deriving DecidableEq, Repr

/-- The call that moves. -/
def Turn.call : Turn → ℕ
  | .go k | .giveUp k => k

namespace Sessions

variable {D L : Type*}

/-- No call has written. -/
def start (db : D) (calls : List L) : Sessions D L := ⟨db, none, calls⟩

/-- What the call sees, if it has the lock. -/
def held (s : Sessions D L) (k : ℕ) : Option D :=
  (s.lock.filter fun p => p.1 == k).map Prod.snd

/-- What the call sees. -/
def view (s : Sessions D L) (k : ℕ) : D := (s.held k).getD s.committed

/-- Another call has the lock. -/
def waits (s : Sessions D L) (k : ℕ) : Bool := s.lock.any fun p => p.1 != k

/-- The lock after the call has given it back. -/
def release (s : Sessions D L) (k : ℕ) : Option (ℕ × D) := s.lock.filter fun p => p.1 != k

/-- Execute a statement of the call `k`. -/
def exec (s : Sessions D L) (k : ℕ) : Stmt D L → Option (Sessions D L)
  | .select next => some { s with calls := s.calls.set k (next (s.view k)) }
  | .write run _ =>
    if s.waits k then none
    else some { s with
      lock := some (k, (run (s.view k)).1)
      calls := s.calls.set k (run (s.view k)).2 }
  | .commit next =>
    some { committed := s.view k, lock := s.release k, calls := s.calls.set k next }
  | .rollback next => some { s with lock := s.release k, calls := s.calls.set k next }
  | .done => none

/-- The call `k` gives up its statement. -/
def giveUp (s : Sessions D L) (k : ℕ) : Stmt D L → Option (Sessions D L)
  | .write _ busy => if s.waits k then some { s with calls := s.calls.set k busy } else none
  | _ => none

variable (next : L → Stmt D L)

/-- The calls, in any order of turns. -/
def system : Machine (Sessions D L) Turn where
  step s
    | .go k => s.calls[k]?.bind fun l => s.exec k (next l)
    | .giveUp k => s.calls[k]?.bind fun l => s.giveUp k (next l)

/-- The condition `C` on what a call sees and on its local state, when it moves. -/
def Careful (C : D → L → Prop) (s : Sessions D L) : Turn → Prop
  | .go k => ∀ l ∈ s.calls[k]?, C (s.view k) l
  | .giveUp _ => True

instance {C : D → L → Prop} [∀ db l, Decidable (C db l)] (s : Sessions D L) :
    (t : Turn) → Decidable (Careful C s t)
  | .go k => inferInstanceAs (Decidable (∀ l ∈ s.calls[k]?, C (s.view k) l))
  | .giveUp _ => inferInstanceAs (Decidable True)

/-! ### The lock -/

section lock

variable {s : Sessions D L} {j k : ℕ} {w : D}

theorem held_eq_some : s.held k = some w ↔ s.lock = some (k, w) := by
  unfold held
  rcases s.lock with _ | ⟨j, v⟩
  · simp
  · by_cases h : j = k <;> simp [h]

theorem held_eq_none_of_ne (h : s.held k = some w) (hjk : j ≠ k) : s.held j = none := by
  rw [held_eq_some] at h
  simp [held, h, hjk.symm]

theorem held_lock (db : D) (k j : ℕ) (calls : List L) :
    (⟨db, some (k, w), calls⟩ : Sessions D L).held j = if j = k then some w else none := by
  unfold held
  by_cases h : k = j
  · simp [h]
  · simp [h, Ne.symm h]

theorem held_eq_none_of_not_waits (h : s.waits k = false) (hjk : j ≠ k) : s.held j = none := by
  unfold waits at h
  unfold held
  rcases hl : s.lock with _ | ⟨i, v⟩
  · rfl
  · rw [hl] at h
    obtain rfl : i = k := by simpa using h
    simp [hjk.symm]

theorem held_release (db : D) (calls : List L) (k j : ℕ) :
    (⟨db, s.release k, calls⟩ : Sessions D L).held j = if j = k then none else s.held j := by
  unfold held release
  rcases s.lock with _ | ⟨i, v⟩
  · simp
  · by_cases hj : j = k
    · simp [hj]
    · by_cases hi : i = k
      · simp [hi, hj, Option.filter_some, Ne.symm hj]
      · simp [hi, hj, Option.filter_some]

end lock

/-! ### One call over a run -/

section call

variable {next} {s s' : Sessions D L} {k : ℕ} {l : L}

/-- A turn leaves a call where it is, or takes it to where its statement leads. -/
theorem call_of_step {t : Turn} (h : (system next).step s t = some s') (hl : s.calls[k]? = some l) :
    ∃ l', s'.calls[k]? = some l' ∧ (l' = l ∨ (next l).Leads l') := by
  -- The call that moves is `k` itself, or another one.
  have hset : ∀ (j : ℕ) (m m' : L), s.calls[j]? = some m → (next m).Leads m' →
      s'.calls = s.calls.set j m' → ∃ l', s'.calls[k]? = some l' ∧ (l' = l ∨ (next l).Leads l') := by
    intro j m m' hm hleads hcalls
    rw [hcalls, List.getElem?_set]
    by_cases hjk : j = k
    · subst hjk
      obtain rfl : m = l := Option.some.inj (hm.symm.trans hl)
      exact ⟨m', by simp [(List.getElem?_eq_some_iff.1 hl).1], .inr hleads⟩
    · exact ⟨l, by simpa [hjk] using hl, .inl rfl⟩
  cases t with
  | go j =>
    obtain ⟨m, hm, h⟩ := Option.bind_eq_some_iff.1 h
    generalize hn : next m = stmt at h
    cases stmt with
    | select f =>
      obtain rfl := Option.some.inj h
      exact hset j m _ hm (hn ▸ .select) rfl
    | write run busy =>
      simp only [exec, Option.ite_none_left_eq_some, Option.some.injEq] at h
      obtain ⟨-, rfl⟩ := h
      exact hset j m _ hm (hn ▸ .write) rfl
    | commit m' =>
      obtain rfl := Option.some.inj h
      exact hset j m _ hm (hn ▸ .commit) rfl
    | rollback m' =>
      obtain rfl := Option.some.inj h
      exact hset j m _ hm (hn ▸ .rollback) rfl
    | done => cases h
  | giveUp j =>
    obtain ⟨m, hm, h⟩ := Option.bind_eq_some_iff.1 h
    generalize hn : next m = stmt at h
    cases stmt with
    | write run busy =>
      simp only [Sessions.giveUp, Option.ite_none_right_eq_some, Option.some.injEq] at h
      obtain ⟨-, rfl⟩ := h
      exact hset j m _ hm (hn ▸ .giveUp) rfl
    | _ => cases h

/-- The other calls stay where they are. -/
theorem getElem?_of_step {t : Turn} (h : (system next).step s t = some s') (hk : t.call ≠ k) :
    s'.calls[k]? = s.calls[k]? := by
  cases t with
  | go j =>
    obtain ⟨m, -, h⟩ := Option.bind_eq_some_iff.1 h
    generalize next m = stmt at h
    cases stmt with
    | select f | commit m' | rollback m' =>
      obtain rfl := Option.some.inj h
      exact List.getElem?_set_ne hk
    | write run busy =>
      simp only [exec, Option.ite_none_left_eq_some, Option.some.injEq] at h
      obtain ⟨-, rfl⟩ := h
      exact List.getElem?_set_ne hk
    | done => cases h
  | giveUp j =>
    obtain ⟨m, -, h⟩ := Option.bind_eq_some_iff.1 h
    generalize next m = stmt at h
    cases stmt with
    | write run busy =>
      simp only [Sessions.giveUp, Option.ite_none_right_eq_some, Option.some.injEq] at h
      obtain ⟨-, rfl⟩ := h
      exact List.getElem?_set_ne hk
    | _ => cases h

theorem getElem?_set_self (hl : s.calls[k]? = some l) (l' : L) :
    (s.calls.set k l')[k]? = some l' := by
  simp [(List.getElem?_eq_some_iff.1 hl).1]

theorem step_write {run : D → D × L} {busy : L} (hl : s.calls[k]? = some l)
    (hn : next l = .write run busy) (hfree : s.waits k = false) :
    (system next).step s (.go k) =
      some ⟨s.committed, some (k, (run (s.view k)).1), s.calls.set k (run (s.view k)).2⟩ := by
  simp [system, hl, hn, exec, hfree]

theorem step_commit {l' : L} (hl : s.calls[k]? = some l) (hn : next l = .commit l') :
    (system next).step s (.go k) = some ⟨s.view k, s.release k, s.calls.set k l'⟩ := by
  simp [system, hl, hn, exec]

theorem step_rollback {l' : L} (hl : s.calls[k]? = some l) (hn : next l = .rollback l') :
    (system next).step s (.go k) = some ⟨s.committed, s.release k, s.calls.set k l'⟩ := by
  simp [system, hl, hn, exec]

/-- A write is executed only if no other call has the lock. -/
theorem free_of_step {run : D → D × L} {busy : L} (h : (system next).step s (.go k) = some s')
    (hl : s.calls[k]? = some l) (hn : next l = .write run busy) : s.waits k = false := by
  simp only [system, hl, hn, exec, Option.bind_some, Option.ite_none_left_eq_some] at h
  simpa using h.1

theorem eq_of_giveUp {run : D → D × L} {busy : L}
    (h : (system next).step s (.giveUp k) = some s') (hl : s.calls[k]? = some l)
    (hn : next l = .write run busy) : s' = { s with calls := s.calls.set k busy } := by
  simp only [system, hl, hn, Sessions.giveUp, Option.bind_some, Option.ite_none_right_eq_some,
    Option.some.injEq] at h
  exact h.2.symm

theorem waits_release (db : D) (calls : List L) (hfree : s.waits k = false) :
    (⟨db, s.release k, calls⟩ : Sessions D L).waits k = false := by
  unfold waits at hfree ⊢
  unfold release
  rcases hlock : s.lock with _ | ⟨i, v⟩
  · rfl
  · rw [hlock] at hfree
    have hik : i = k := by simpa using hfree
    simp [hik, Option.filter_some]

/-- Only a commit changes what is committed. -/
theorem committed_of_step {t : Turn} (h : (system next).step s t = some s')
    (hno : ∀ k l l', t = .go k → s.calls[k]? = some l → next l ≠ .commit l') :
    s'.committed = s.committed := by
  cases t with
  | go k =>
    obtain ⟨l, hl, h⟩ := Option.bind_eq_some_iff.1 h
    generalize hn : next l = stmt at h
    cases stmt with
    | select f =>
      obtain rfl := Option.some.inj h
      rfl
    | write run busy =>
      simp only [exec, Option.ite_none_left_eq_some, Option.some.injEq] at h
      obtain ⟨-, rfl⟩ := h
      rfl
    | commit l' => exact absurd hn (hno k l l' rfl hl)
    | rollback l' =>
      obtain rfl := Option.some.inj h
      rfl
    | done => cases h
  | giveUp k =>
    obtain ⟨l, hl, h⟩ := Option.bind_eq_some_iff.1 h
    generalize hn : next l = stmt at h
    cases stmt with
    | write run busy =>
      simp only [Sessions.giveUp, Option.ite_none_right_eq_some, Option.some.injEq] at h
      obtain ⟨-, rfl⟩ := h
      rfl
    | _ => cases h

/-- What every statement of a call keeps holds of the call for good. -/
theorem call_of_reach {C : Sessions D L → Turn → Prop} {Q : L → Prop}
    (h : (system next).Reach C s s') (hQ : ∀ l l', Q l → (next l).Leads l' → Q l')
    (hl : ∃ l, s.calls[k]? = some l ∧ Q l) : ∃ l, s'.calls[k]? = some l ∧ Q l := by
  refine h.invariant (I := fun s => ∃ l, s.calls[k]? = some l ∧ Q l) hl ?_
  rintro a t b ⟨l, hl, hq⟩ - hstep
  obtain ⟨l', hl', hmoved⟩ := call_of_step hstep hl
  rcases hmoved with rfl | hleads
  · exact ⟨l', hl', hq⟩
  · exact ⟨l', hl', hQ l l' hq hleads⟩

end call

end Sessions

/-- An argument about calls that move under the condition `C`. -/
structure Discipline {D L : Type*} (next : L → Stmt D L) (C : D → L → Prop) where
  /-- What a call relies on: `Good db h l` for a call in the local state `l` while `db` is committed;
  `h` is what the call sees if it has the lock. -/
  Good : D → Option D → L → Prop
  /-- What keeps two calls apart. -/
  Apart : L → L → Prop
  /-- What a commit may do. -/
  Commits : D → D → Prop
  symm : ∀ {l m}, Apart l m → Apart m l
  /-- The commit of another call leaves a call without the lock in good order. -/
  stable : ∀ {db w l m m'}, Good db none l → Good db (some w) m → Apart m l →
    next m = .commit m' → Good w none l
  /-- So does a query of its own. -/
  select : ∀ {db h l f}, Good db h l → next l = .select f → C (h.getD db) l →
    Good db h (f (h.getD db))
  /-- So does a write. -/
  write : ∀ {db h l run busy}, Good db h l → next l = .write run busy → C (h.getD db) l →
    Good db (some (run (h.getD db)).1) (run (h.getD db)).2
  /-- So does giving up. -/
  giveUp : ∀ {db l run busy}, Good db none l → next l = .write run busy → Good db none busy
  /-- A commit does what it may, and leaves the call in good order. -/
  commit : ∀ {db w l l'}, Good db (some w) l → next l = .commit l' → C w l →
    Commits db w ∧ Good w none l'
  /-- A commit without a write changes nothing. -/
  commitNone : ∀ {db l l'}, Good db none l → next l = .commit l' → Good db none l'
  /-- A rollback leaves the call in good order. -/
  rollback : ∀ {db h l l'}, Good db h l → next l = .rollback l' → Good db none l'
  /-- Calls that move stay apart. -/
  apart : ∀ {db h h' l l' m}, Good db h l → Good db h' m → Apart l m →
    (next l).Moves (h.getD db) l' → Apart l' m
  /-- A call that writes stays apart from the others, none of which has the lock. -/
  apartWrite : ∀ {db h l m run busy}, Good db h l → Good db none m → Apart l m →
    next l = .write run busy → Apart (run (h.getD db)).2 m

namespace Discipline

open Sessions

variable {D L : Type*} {next : L → Stmt D L} {C : D → L → Prop} (P : Discipline next C)
  {s s' : Sessions D L} {k : ℕ} {l : L}

/-- Every call is in good order, and they are apart. -/
structure AllGood (s : Sessions D L) : Prop where
  good : ∀ (k : ℕ) (l : L), s.calls[k]? = some l → P.Good s.committed (s.held k) l
  apart : ∀ (j k : ℕ) (l m : L), j ≠ k → s.calls[j]? = some l → s.calls[k]? = some m → P.Apart l m

variable {P}

/-- The call that moved, and the others. -/
theorem getElem?_set_cases {calls : List L} {j : ℕ} {l l' : L}
    (h : (calls.set k l)[j]? = some l') : (j = k ∧ l' = l) ∨ (j ≠ k ∧ calls[j]? = some l') := by
  rw [List.getElem?_set] at h
  split_ifs at h with hkj
  · exact .inl ⟨hkj.symm, by simpa using h.symm⟩
  · exact .inr ⟨Ne.symm hkj, h⟩

/-- What it takes for all to be well after the call `k` has moved to `l`. -/
theorem allGood_set (hs : P.AllGood s) (hcalls : s'.calls = s.calls.set k l)
    (hself : P.Good s'.committed (s'.held k) l)
    (hothers : ∀ (j : ℕ) (m : L), j ≠ k → s.calls[j]? = some m →
      P.Good s'.committed (s'.held j) m)
    (hapart : ∀ (j : ℕ) (m : L), j ≠ k → s.calls[j]? = some m → P.Apart l m) : P.AllGood s' := by
  constructor
  · intro j m hj
    rw [hcalls] at hj
    rcases getElem?_set_cases hj with ⟨rfl, rfl⟩ | ⟨hjk, hj⟩
    · exact hself
    · exact hothers j m hjk hj
  · intro i j m m' hij hi hj
    rw [hcalls] at hi hj
    rcases getElem?_set_cases hi with ⟨rfl, rfl⟩ | ⟨hik, hi'⟩
    · rcases getElem?_set_cases hj with ⟨rfl, rfl⟩ | ⟨hjk, hj'⟩
      · exact absurd rfl hij
      · exact hapart j m' hjk hj'
    · rcases getElem?_set_cases hj with ⟨rfl, rfl⟩ | ⟨hjk, hj'⟩
      · exact P.symm (hapart i m hik hi')
      · exact hs.apart i j m m' hij hi' hj'

/-- The case of a move that leaves what is committed alone. -/
theorem allGood_move {l' : L} (hs : P.AllGood s) (hl : s.calls[k]? = some l)
    (hcalls : s'.calls = s.calls.set k l') (hdb : s'.committed = s.committed)
    (hheld : ∀ j, j ≠ k → s'.held j = s.held j) (hself : P.Good s.committed (s'.held k) l')
    (hmove : (next l).Moves (s.view k) l') : P.AllGood s' := by
  refine allGood_set hs hcalls (hdb ▸ hself) (fun j m hjk hj => ?_) fun j m hjk hj => ?_
  · rw [hdb, hheld j hjk]
    exact hs.good j m hj
  · exact P.apart (hs.good k l hl) (hs.good j m hj) (hs.apart k j l m hjk.symm hl hj) hmove

theorem allGood_write {run : D → D × L} {busy : L} (hs : P.AllGood s) (hl : s.calls[k]? = some l)
    (hnext : next l = .write run busy) (hC : C (s.view k) l) (hfree : s.waits k = false) :
    P.AllGood ⟨s.committed, some (k, (run (s.view k)).1), s.calls.set k (run (s.view k)).2⟩ := by
  have hgood := hs.good k l hl
  have hnone : ∀ j, j ≠ k → s.held j = none := fun j hjk => held_eq_none_of_not_waits hfree hjk
  refine allGood_set hs rfl ?_ (fun j m hjk hj => ?_) fun j m hjk hj => ?_
  · rw [held_lock, if_pos rfl]
    exact P.write hgood hnext hC
  · have hother := hs.good j m hj
    rw [hnone j hjk] at hother
    rw [held_lock, if_neg hjk]
    exact hother
  · have hother := hs.good j m hj
    rw [hnone j hjk] at hother
    exact P.apartWrite hgood hother (hs.apart k j l m hjk.symm hl hj) hnext

/-- A commit of the call `k` keeps all in good order, and does what it may. -/
theorem allGood_commit {l' : L} (hs : P.AllGood s) (hl : s.calls[k]? = some l)
    (hnext : next l = .commit l') (hC : C (s.view k) l) :
    (P.Commits s.committed (s.view k) ∨ s.view k = s.committed) ∧
      P.AllGood ⟨s.view k, s.release k, s.calls.set k l'⟩ := by
  have hgood := hs.good k l hl
  have hmove : (next l).Moves (s.view k) l' := hnext ▸ .commit
  cases hh : s.held k with
  | none =>
    have hview : s.view k = s.committed := by simp [view, hh]
    rw [hh] at hgood
    refine ⟨.inr hview, allGood_move hs hl rfl hview (fun j hj => ?_) ?_ hmove⟩
    · rw [held_release, if_neg hj]
    · rw [held_release, if_pos rfl]
      exact P.commitNone hgood hnext
  | some w =>
    have hview : s.view k = w := by simp [view, hh]
    rw [hh] at hgood
    rw [hview] at hC ⊢
    obtain ⟨hcommit, hself⟩ := P.commit hgood hnext hC
    refine ⟨.inl hcommit, allGood_set hs rfl ?_ (fun j m hjk hj => ?_) fun j m hjk hj => ?_⟩
    · rw [held_release, if_pos rfl]
      exact hself
    · -- Nobody else has the lock, so what the others rely on is stable.
      have hother := hs.good j m hj
      rw [held_eq_none_of_ne hh hjk] at hother
      rw [held_release, if_neg hjk, held_eq_none_of_ne hh hjk]
      exact P.stable hother hgood (hs.apart k j l m hjk.symm hl hj) hnext
    · have hapart := hs.apart k j l m hjk.symm hl hj
      exact P.apart (hs.good k l hl) (hs.good j m hj) hapart hmove

theorem held_eq_none_of_waits (h : s.waits k = true) : s.held k = none := by
  unfold waits at h
  rcases hlock : s.lock with _ | ⟨i, v⟩
  · simp [held, hlock]
  · simp only [hlock, Option.any_some, bne_iff_ne, ne_eq] at h
    simp [held, hlock, h]

/-- **One turn** keeps every call in good order, and what is committed changes only as it may. -/
theorem step (hs : P.AllGood s) {t : Turn} (hC : Careful C s t)
    (h : (system next).step s t = some s') :
    P.AllGood s' ∧ (P.Commits s.committed s'.committed ∨ s'.committed = s.committed) := by
  cases t with
  | go k =>
    obtain ⟨l, hl, h⟩ := Option.bind_eq_some_iff.1 h
    have hC : C (s.view k) l := hC l hl
    have hgood := hs.good k l hl
    cases hn : next l with
    | select f =>
      rw [hn] at h
      obtain rfl := Option.some.inj h
      exact ⟨allGood_move hs hl rfl rfl (fun _ _ => rfl) (P.select hgood hn hC) (hn ▸ .select),
        .inr rfl⟩
    | write run busy =>
      rw [hn] at h
      simp only [exec, Option.ite_none_left_eq_some, Option.some.injEq] at h
      obtain ⟨hfree, rfl⟩ := h
      exact ⟨allGood_write hs hl hn hC (by simpa using hfree), .inr rfl⟩
    | commit l' =>
      rw [hn] at h
      obtain rfl := Option.some.inj h
      obtain ⟨hcommit, hall⟩ := allGood_commit hs hl hn hC
      exact ⟨hall, hcommit⟩
    | rollback l' =>
      rw [hn] at h
      obtain rfl := Option.some.inj h
      refine ⟨allGood_move hs hl rfl rfl (fun j hj => ?_) ?_ (hn ▸ .rollback), .inr rfl⟩
      · rw [held_release, if_neg hj]
      · rw [held_release, if_pos rfl]
        exact P.rollback hgood hn
    | done =>
      rw [hn] at h
      cases h
  | giveUp k =>
    obtain ⟨l, hl, h⟩ := Option.bind_eq_some_iff.1 h
    have hgood := hs.good k l hl
    cases hn : next l with
    | write run busy =>
      rw [hn] at h
      simp only [Sessions.giveUp, Option.ite_none_right_eq_some, Option.some.injEq] at h
      obtain ⟨hw, rfl⟩ := h
      rw [held_eq_none_of_waits hw] at hgood
      have hheld : (⟨s.committed, s.lock, s.calls.set k busy⟩ : Sessions D L).held k = none :=
        held_eq_none_of_waits (s := s) hw
      refine ⟨allGood_move hs hl rfl rfl (fun _ _ => rfl) ?_ (hn ▸ .giveUp), .inr rfl⟩
      rw [hheld]
      exact P.giveUp hgood hn
    | _ =>
      rw [hn] at h
      cases h

/-- Over a run every call stays in good order. -/
theorem allGood_of_reach (h : (system next).Reach (Careful C) s s') (hs : P.AllGood s) :
    P.AllGood s' :=
  h.invariant hs fun _ _ _ hs hC hstep => (P.step hs hC hstep).1

/-- Over a run what is committed changes only as it may. -/
theorem rel_of_reach {R : D → D → Prop} (h : (system next).Reach (Careful C) s s')
    (hs : P.AllGood s) (hrefl : ∀ db, R db db) (htrans : ∀ a b c, R a b → R b c → R a c)
    (hR : ∀ db db', P.Commits db db' → R db db') : R s.committed s'.committed := by
  refine h.rel (I := P.AllGood) (R := fun a b => R a.committed b.committed) hs (fun _ => hrefl _)
    (fun _ _ _ => htrans _ _ _) (fun _ _ _ hs hC hstep => (P.step hs hC hstep).1) ?_
  intro a t b ha hC hstep
  rcases (P.step ha hC hstep).2 with hc | heq
  · exact hR _ _ hc
  · rw [heq]
    exact hrefl _

end Discipline

end Cabin
