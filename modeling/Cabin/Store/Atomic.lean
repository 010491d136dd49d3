import Cabin.Store.Sessions

/-!
# Transactions

Calls that commit each of their writes at once.  Such a call is a program `act : P → Action D P`: at
a place of its program it queries the database, or it writes and commits, or it is over.  A write that
a constraint refuses is rolled back.

`Phase.next` runs these programs as sessions, where other calls have their turns between a write and
its commit.  In an `Atomic` state a write and its commit are one step.  Since the lock is held from
the write to the commit, nobody else commits in between, and the sessions do nothing that the atomic
calls cannot do:

* `Sim` relates a state of the sessions to an atomic one, `Sim.step` is the simulation;
* `exists_atomic`: every run of the sessions is one of the atomic calls, with the same database and
  the same calls at their statements.  A condition on the steps of the run is carried over;
* `Maintains` is the argument about all orders of turns, action by action; `MaintainsOwned` is the one
  for calls that own something.
-/

namespace Cabin

variable {D P : Type*}

/-- The next action of a call at a place of its program. -/
inductive Action (D P : Type*)
  /-- A query, and where the call goes on with what it sees. -/
  | select (next : D → P)
  /-- A write that is committed, or, if a constraint refuses it, rolled back; `busy` is where the call
  goes on when it gives up waiting for the lock. -/
  | write (run : D → Except P (D × P)) (busy : P)
  /-- The call is over. -/
  | done

/-- How a call can go on from an action, whatever it sees. -/
inductive Action.Leads : Action D P → P → Prop
  | select {next db} : Leads (.select next) (next db)
  | write {run busy db db' pc} : run db = .ok (db', pc) → Leads (.write run busy) pc
  | refused {run busy db pc} : run db = .error pc → Leads (.write run busy) pc
  | giveUp {run busy} : Leads (.write run busy) busy

/-- The action, with its places in another program. -/
def Action.map {Q : Type*} (f : P → Q) : Action D P → Action D Q
  | .select next => .select fun db => f (next db)
  | .write run busy =>
    .write (fun db => match run db with
      | .ok (db', pc) => .ok (db', f pc)
      | .error pc => .error (f pc)) (f busy)
  | .done => .done

/-- The action, on a part of a larger database. -/
def Action.zoom {D' Q : Type*} (get : D' → D) (set : D' → D → D') (f : P → Q) :
    Action D P → Action D' Q
  | .select next => .select fun db => f (next (get db))
  | .write run busy =>
    .write (fun db => match run (get db) with
      | .ok (db', pc) => .ok (set db db', f pc)
      | .error pc => .error (f pc)) (f busy)
  | .done => .done

/-- Where a call goes on from an action, on a database. -/
def Action.at? (db : D) : Action D P → Option P
  | .select next => some (next db)
  | .write run _ => match run db with
    | .ok (_, pc) => some pc
    | .error pc => some pc
  | .done => none

theorem Action.leads_of_at? {a : Action D P} {db : D} {pc : P} (h : a.at? db = some pc) :
    a.Leads pc := by
  cases a with
  | select next =>
    cases h
    exact .select
  | write run busy =>
    simp only [at?] at h
    split at h
    · rename_i w pc' hok
      cases h
      exact .write hok
    · rename_i pc' herror
      cases h
      exact .refused herror
  | done => cases h

/-- The programs of a family, one for every request: the request stays with the call. -/
def tagged {R : Type*} (act : R → P → Action D P) (c : R × P) : Action D (R × P) :=
  (act c.1 c.2).map (Prod.mk c.1)

/-- A call: at a statement, about to commit, or about to roll back. -/
inductive Phase (P : Type*)
  | run (pc : P)
  | commit (pc : P)
  | rollback (pc : P)
  deriving DecidableEq

namespace Phase

/-- After a write. -/
def ofWrite (db : D) : Except P (D × P) → D × Phase P
  | .ok (w, pc) => (w, .commit pc)
  | .error pc => (db, .rollback pc)

/-- The statement of an action. -/
def stmt : Action D P → Stmt D (Phase P)
  | .select next => .select fun db => .run (next db)
  | .write f busy => .write (fun db => ofWrite db (f db)) (.run busy)
  | .done => .done

/-- The next statement of a call. -/
def next (act : P → Action D P) : Phase P → Stmt D (Phase P)
  | run pc => stmt (act pc)
  | commit pc => .commit (.run pc)
  | rollback pc => .rollback (.run pc)

/-- The place of a call in its program. -/
def pc : Phase P → P
  | run pc | commit pc | rollback pc => pc

/-- A call goes to where its action leads; a commit or a rollback leaves it where it is. -/
theorem pc_of_leads {act : P → Action D P} {l l' : Phase P} (h : (next act l).Leads l') :
    l'.pc = l.pc ∨ ∃ pc, l = run pc ∧ (act pc).Leads l'.pc := by
  cases l with
  | run pc =>
    refine .inr ⟨pc, rfl, ?_⟩
    simp only [next] at h
    generalize act pc = action at h ⊢
    cases action with
    | select f =>
      cases h
      exact .select
    | write f busy =>
      cases h with
      | giveUp => exact .giveUp
      | @write _ _ db =>
        cases hrun : f db with
        | ok r => simpa [hrun, ofWrite, Phase.pc] using Action.Leads.write hrun
        | error pc' => simpa [hrun, ofWrite, Phase.pc] using Action.Leads.refused hrun
    | done => cases h
  | commit pc =>
    cases h
    exact .inl rfl
  | rollback pc =>
    cases h
    exact .inl rfl

/-- The call is at a statement where `p` holds. -/
def isRun (p : P → Bool) : Phase P → Bool
  | run pc => p pc
  | _ => false

/-- The call is over. -/
def isOver (act : P → Action D P) : Phase P → Bool
  | run pc => match act pc with
    | .done => true
    | _ => false
  | _ => false

/-- A condition on the actions of a call. -/
def Meets (C : D → P → Prop) (db : D) : Phase P → Prop
  | run pc => C db pc
  | _ => True

instance {C : D → P → Prop} [∀ db pc, Decidable (C db pc)] (db : D) :
    (l : Phase P) → Decidable (Meets C db l)
  | run pc => inferInstanceAs (Decidable (C db pc))
  | commit _ | rollback _ => inferInstanceAs (Decidable True)

end Phase

/-- The sessions of the programs, in any order of turns. -/
def transactions (act : P → Action D P) : Machine (Sessions D (Phase P)) Turn :=
  Sessions.system (Phase.next act)

/-- No call has done anything. -/
def Sessions.begin (db : D) (calls : List P) : Sessions D (Phase P) := .start db (calls.map .run)

/-- All calls are over. -/
def Sessions.finished (act : P → Action D P) (s : Sessions D (Phase P)) : Bool :=
  s.calls.all (Phase.isOver act)

/-- Every action of a run meets the condition `C` on what is seen. -/
abbrev Sessions.Heeds (C : D → P → Prop) (s : Sessions D (Phase P)) : Turn → Prop :=
  s.Careful (Phase.Meets C)

theorem Sessions.heeds_true {s : Sessions D (Phase P)} (t : Turn) :
    s.Heeds (fun _ _ => True) t := by
  cases t with
  | go k =>
    intro l _
    cases l <;> trivial
  | giveUp k => trivial

/-- What every action keeps holds of the place of a call for good. -/
theorem Sessions.pc_of_reach {act : P → Action D P} {C : Sessions D (Phase P) → Turn → Prop}
    {Q : P → Prop} {s s' : Sessions D (Phase P)} {k : ℕ} (h : (transactions act).Reach C s s')
    (hQ : ∀ pc pc', Q pc → (act pc).Leads pc' → Q pc')
    (hl : ∃ l, s.calls[k]? = some l ∧ Q l.pc) : ∃ l, s'.calls[k]? = some l ∧ Q l.pc := by
  refine Sessions.call_of_reach h (fun l l' hq hleads => ?_) hl
  rcases Phase.pc_of_leads hleads with heq | ⟨pc, rfl, hact⟩
  · rw [heq]
    exact hq
  · exact hQ pc _ hq hact

/-! ### Atomic transactions -/

/-- A database and the places where the calls are. -/
structure Atomic (D P : Type*) where
  /-- The database. -/
  db : D
  /-- The calls. -/
  calls : List P

namespace Atomic

/-- After a write. -/
def ofWrite (a : Atomic D P) (k : ℕ) : Except P (D × P) → Atomic D P
  | .ok (w, pc) => ⟨w, a.calls.set k pc⟩
  | .error pc => { a with calls := a.calls.set k pc }

/-- Execute an action of the call `k`. -/
def exec (a : Atomic D P) (k : ℕ) : Action D P → Option (Atomic D P)
  | .select next => some { a with calls := a.calls.set k (next a.db) }
  | .write run _ => some (a.ofWrite k (run a.db))
  | .done => none

/-- The call `k` gives up. -/
def giveUp (a : Atomic D P) (k : ℕ) : Action D P → Option (Atomic D P)
  | .write _ busy => some { a with calls := a.calls.set k busy }
  | _ => none

/-- The calls, one action after the other. -/
def system (act : P → Action D P) : Machine (Atomic D P) Turn where
  step a
    | .go k => a.calls[k]?.bind fun pc => a.exec k (act pc)
    | .giveUp k => a.calls[k]?.bind fun pc => a.giveUp k (act pc)

/-- The condition `C` on the database and on the call that acts. -/
def Heeds (C : D → P → Prop) (a : Atomic D P) : Turn → Prop
  | .go k => ∀ pc ∈ a.calls[k]?, C a.db pc
  | .giveUp _ => True

/-- **What an atomic step does.** -/
theorem step_cases {act : P → Action D P} {a a' : Atomic D P} {t : Turn}
    (h : (system act).step a t = some a') :
    ∃ k pc pc', a.calls[k]? = some pc ∧ a'.calls = a.calls.set k pc' ∧
      ((∃ f, t = .go k ∧ act pc = .select f ∧ pc' = f a.db ∧ a'.db = a.db) ∨
        (∃ run busy, t = .go k ∧ act pc = .write run busy ∧ run a.db = .ok (a'.db, pc')) ∨
        (∃ run busy, t = .go k ∧ act pc = .write run busy ∧ run a.db = .error pc' ∧ a'.db = a.db) ∨
        ∃ run busy, t = .giveUp k ∧ act pc = .write run busy ∧ pc' = busy ∧ a'.db = a.db) := by
  cases t with
  | go k =>
    obtain ⟨pc, hpc, h⟩ := Option.bind_eq_some_iff.1 h
    cases hact : act pc with
    | select f =>
      rw [hact] at h
      obtain rfl := Option.some.inj h
      exact ⟨k, pc, _, hpc, rfl, .inl ⟨f, rfl, hact, rfl, rfl⟩⟩
    | write run busy =>
      rw [hact] at h
      obtain rfl := Option.some.inj h
      cases hrun : run a.db with
      | ok r => exact ⟨k, pc, r.2, hpc, rfl, .inr (.inl ⟨run, busy, rfl, hact, by rw [hrun]; rfl⟩)⟩
      | error pc' =>
        exact ⟨k, pc, pc', hpc, rfl, .inr (.inr (.inl ⟨run, busy, rfl, hact, hrun, rfl⟩))⟩
    | done =>
      rw [hact] at h
      cases h
  | giveUp k =>
    obtain ⟨pc, hpc, h⟩ := Option.bind_eq_some_iff.1 h
    cases hact : act pc with
    | write run busy =>
      rw [hact] at h
      obtain rfl := Option.some.inj h
      exact ⟨k, pc, busy, hpc, rfl, .inr (.inr (.inr ⟨run, busy, rfl, hact, rfl, rfl⟩))⟩
    | _ =>
      rw [hact] at h
      cases h

/-- A call that is over stays where it is. -/
theorem keeps_done {act : P → Action D P} {a a' : Atomic D P} {t : Turn} {k : ℕ} {pc : P}
    (h : (system act).step a t = some a') (hk : a.calls[k]? = some pc) (hdone : act pc = .done) :
    a'.calls[k]? = some pc := by
  obtain ⟨j, x, x', hx, hcalls, hmove⟩ := step_cases h
  have hjk : j ≠ k := by
    rintro rfl
    obtain rfl := Option.some.inj (hk.symm.trans hx)
    rw [hdone] at hmove
    rcases hmove with ⟨_, -, h, -⟩ | ⟨_, _, -, h, -⟩ | ⟨_, _, -, h, -⟩ | ⟨_, _, -, h, -⟩ <;> cases h
  rw [hcalls, List.getElem?_set, if_neg hjk, hk]

/-- How often a place is taken after the call `k` has moved. -/
theorem countP_set {calls : List P} {k : ℕ} {pc : P} (p : P → Bool) (pc' : P)
    (hk : calls[k]? = some pc) :
    (calls.set k pc').countP p + (if p pc then 1 else 0) =
      calls.countP p + if p pc' then 1 else 0 := by
  obtain ⟨hlt, rfl⟩ := List.getElem?_eq_some_iff.1 hk
  rw [List.countP_set hlt]
  have hpos : p calls[k] = true → 0 < calls.countP p := fun h =>
    List.countP_pos_iff.2 ⟨_, List.getElem_mem hlt, h⟩
  split_ifs with h₁ h₂ h₂
  · have := hpos h₁
    omega
  · have := hpos h₁
    omega
  · omega
  · omega

end Atomic

/-! ### The simulation -/

section sim

variable (act : P → Action D P) (C : D → P → Prop)

/-- Some write is refused and leads to the place. -/
def RollsBack (pc : P) : Prop := ∃ pc₀ run busy db, act pc₀ = .write run busy ∧ run db = .error pc

/-- Where a session is for a call at a place, while `db` is committed; `h` is what the session sees if
it has the lock.  A write counts when it is committed, a refused one at once. -/
inductive Related (db : D) : Option D → Phase P → P → Prop
  | run {pc} : Related db none (.run pc) pc
  | commit {pc₀ pc w run busy} (hact : act pc₀ = .write run busy) (hC : C db pc₀)
      (hrun : run db = .ok (w, pc)) : Related db (some w) (.commit pc) pc₀
  | rollback {h pc} (hback : RollsBack act pc) : Related db h (.rollback pc) pc

/-- The sessions are where the atomic calls are. -/
structure Sim (s : Sessions D (Phase P)) (a : Atomic D P) : Prop where
  db : a.db = s.committed
  calls : ∀ (k : ℕ) (l : Phase P), s.calls[k]? = some l →
    ∃ pc, a.calls[k]? = some pc ∧ Related act C s.committed (s.held k) l pc
  length : a.calls.length = s.calls.length

variable {act C} {s s' : Sessions D (Phase P)} {a a' : Atomic D P} {k : ℕ} {l : Phase P} {pc : P}

theorem Sim.begin (db : D) (calls : List P) : Sim act C (.begin db calls) ⟨db, calls⟩ where
  db := rfl
  calls k l hl := by
    obtain ⟨pc, hpc, rfl⟩ := List.getElem?_map ▸ hl |> Option.map_eq_some_iff.1
    exact ⟨pc, hpc, .run⟩
  length := by simp [Sessions.begin, Sessions.start]

/-- What it takes to be related after the call `k` has moved. -/
theorem Sim.set (hs : Sim act C s a) (hk : s.calls[k]? = some l) {l' : Phase P} {pc' : P}
    (hcalls : s'.calls = s.calls.set k l') (hcalls' : a'.calls = a.calls.set k pc')
    (hdb : a'.db = s'.committed) (hself : Related act C s'.committed (s'.held k) l' pc')
    (hothers : ∀ (j : ℕ) (m : Phase P) (pc : P), j ≠ k →
      Related act C s.committed (s.held j) m pc → Related act C s'.committed (s'.held j) m pc) :
    Sim act C s' a' where
  db := hdb
  calls j m hm := by
    rw [hcalls] at hm
    rcases Discipline.getElem?_set_cases hm with ⟨rfl, rfl⟩ | ⟨hjk, hm⟩
    · obtain ⟨pc, hpc, -⟩ := hs.calls j l hk
      refine ⟨pc', ?_, hself⟩
      rw [hcalls']
      simp [(List.getElem?_eq_some_iff.1 hpc).1]
    · obtain ⟨pc, hpc, hrel⟩ := hs.calls j m hm
      refine ⟨pc, ?_, hothers j m pc hjk hrel⟩
      rw [hcalls', List.getElem?_set, if_neg hjk.symm, hpc]
  length := by rw [hcalls, hcalls', List.length_set, List.length_set, hs.length]

theorem set_eq_self {calls : List P} (h : calls[k]? = some pc) : calls.set k pc = calls := by
  obtain ⟨hlt, rfl⟩ := List.getElem?_eq_some_iff.1 h
  exact List.set_getElem_self hlt

/-- A call at a statement sees what is committed. -/
theorem Sim.view_eq (hs : Sim act C s a) (hl : s.calls[k]? = some (.run pc)) :
    s.view k = s.committed := by
  obtain ⟨x, -, hrel⟩ := hs.calls k _ hl
  generalize hheld : s.held k = h at hrel
  cases hrel
  simp [Sessions.view, hheld]

theorem Sim.select {f : D → P} (hs : Sim act C s a) (hl : s.calls[k]? = some (.run pc))
    (hact : act pc = .select f) (hC : C s.committed pc) :
    ∃ a', a.Heeds C (.go k) ∧ (Atomic.system act).step a (.go k) = some a' ∧
      Sim act C { s with calls := s.calls.set k (.run (f (s.view k))) } a' := by
  obtain ⟨pc, hpc, hrel⟩ := hs.calls k _ hl
  generalize hheld : s.held k = h at hrel
  cases hrel with
  | run =>
    have hview := hs.view_eq hl
    refine ⟨⟨a.db, a.calls.set k (f a.db)⟩, ?_, by simp [Atomic.system, hpc, hact, Atomic.exec], ?_⟩
    · intro pc' hpc'
      obtain rfl := Option.some.inj (hpc.symm.trans hpc')
      rw [hs.db]
      exact hC
    · refine hs.set hl rfl rfl hs.db ?_ fun _ _ _ _ hother => hother
      rw [hview, hs.db]
      exact hheld ▸ .run

theorem Sim.write {f : D → Except P (D × P)} {busy : P} (hs : Sim act C s a)
    (hl : s.calls[k]? = some (.run pc)) (hact : act pc = .write f busy) (hC : C s.committed pc)
    (hfree : s.waits k = false) :
    ∃ a', (a' = a ∨ ∃ t', a.Heeds C t' ∧ (Atomic.system act).step a t' = some a') ∧
      Sim act C ⟨s.committed, some (k, (Phase.ofWrite (s.view k) (f (s.view k))).1),
        s.calls.set k (Phase.ofWrite (s.view k) (f (s.view k))).2⟩ a' := by
  obtain ⟨pc, hpc, hrel⟩ := hs.calls k _ hl
  generalize hheld : s.held k = h at hrel
  -- Nobody else has the lock, before and after.
  have hothers : ∀ (w : D) (calls : List (Phase P)) (j : ℕ), j ≠ k →
      (⟨s.committed, some (k, w), calls⟩ : Sessions D (Phase P)).held j = s.held j := by
    intro w calls j hjk
    rw [Sessions.held_lock, if_neg hjk, Sessions.held_eq_none_of_not_waits hfree hjk]
  cases hrel with
  | run =>
    have hview := hs.view_eq hl
    rw [hview]
    cases hrun : f s.committed with
    | ok r =>
      refine ⟨a, .inl rfl, hs.set hl rfl (set_eq_self hpc).symm hs.db ?_ fun j m x hjk hother => ?_⟩
      · rw [Sessions.held_lock, if_pos rfl]
        exact .commit hact hC hrun
      · rw [hothers _ _ j hjk]
        exact hother
    | error pc' =>
      refine ⟨⟨a.db, a.calls.set k pc'⟩, .inr ⟨.go k, ?_, ?_⟩, hs.set hl rfl rfl hs.db ?_
        fun j m x hjk hother => ?_⟩
      · intro x hx
        obtain rfl := Option.some.inj (hpc.symm.trans hx)
        rw [hs.db]
        exact hC
      · simp [Atomic.system, hpc, hact, Atomic.exec, hs.db, hrun, Atomic.ofWrite]
      · exact .rollback ⟨_, f, busy, _, hact, hrun⟩
      · rw [hothers _ _ j hjk]
        exact hother

theorem Sim.commit (hs : Sim act C s a) (hl : s.calls[k]? = some (.commit pc)) :
    ∃ a', a.Heeds C (.go k) ∧ (Atomic.system act).step a (.go k) = some a' ∧
      Sim act C ⟨s.view k, s.release k, s.calls.set k (.run pc)⟩ a' := by
  obtain ⟨pc₀, hpc, hrel⟩ := hs.calls k _ hl
  generalize hheld : s.held k = h at hrel
  cases hrel with
  | @commit _ _ w f busy hact hC hrun =>
    have hview : s.view k = w := by simp [Sessions.view, hheld]
    refine ⟨⟨w, a.calls.set k pc⟩, ?_, ?_, hs.set hl rfl rfl hview.symm ?_ fun j m x hjk hother => ?_⟩
    · intro x hx
      obtain rfl := Option.some.inj (hpc.symm.trans hx)
      rw [hs.db]
      exact hC
    · simp [Atomic.system, hpc, hact, Atomic.exec, hs.db, hrun, Atomic.ofWrite]
    · rw [Sessions.held_release, if_pos rfl]
      exact .run
    · -- Nobody else is about to commit.
      have hnone := Sessions.held_eq_none_of_ne hheld hjk
      rw [Sessions.held_release, if_neg hjk]
      rw [hnone] at hother ⊢
      cases hother with
      | run => exact .run
      | rollback hback => exact .rollback hback

theorem Sim.rollback (hs : Sim act C s a) (hl : s.calls[k]? = some (.rollback pc)) :
    Sim act C ⟨s.committed, s.release k, s.calls.set k (.run pc)⟩ a := by
  obtain ⟨pc₀, hpc, hrel⟩ := hs.calls k _ hl
  generalize s.held k = h at hrel
  cases hrel with
  | rollback hback =>
    refine hs.set hl rfl (set_eq_self hpc).symm hs.db ?_ fun j m x hjk hother => ?_
    · rw [Sessions.held_release, if_pos rfl]
      exact .run
    · rw [Sessions.held_release, if_neg hjk]
      exact hother

theorem Sim.giveUp {f : D → Except P (D × P)} {busy : P} (hs : Sim act C s a)
    (hl : s.calls[k]? = some (.run pc)) (hact : act pc = .write f busy) :
    ∃ a', (Atomic.system act).step a (.giveUp k) = some a' ∧
      Sim act C { s with calls := s.calls.set k (.run busy) } a' := by
  obtain ⟨pc, hpc, hrel⟩ := hs.calls k _ hl
  generalize hheld : s.held k = h at hrel
  cases hrel with
  | run =>
    refine ⟨⟨a.db, a.calls.set k busy⟩, by simp [Atomic.system, hpc, hact, Atomic.giveUp],
      hs.set hl rfl rfl hs.db ?_ fun _ _ _ _ hother => hother⟩
    exact hheld ▸ .run

/-- **One turn of the sessions** is a step of the atomic calls, or none. -/
theorem Sim.step {t : Turn} (hs : Sim act C s a) (hC : s.Heeds C t)
    (h : (transactions act).step s t = some s') :
    ∃ a', (a' = a ∨ ∃ t', a.Heeds C t' ∧ (Atomic.system act).step a t' = some a') ∧
      Sim act C s' a' := by
  cases t with
  | go k =>
    obtain ⟨l, hl, h⟩ := Option.bind_eq_some_iff.1 h
    have hmeets : Phase.Meets C (s.view k) l := hC l hl
    cases l with
    | run pc =>
      have hC : C s.committed pc := hs.view_eq hl ▸ hmeets
      simp only [Phase.next] at h
      cases hact : act pc with
      | select f =>
        rw [hact] at h
        obtain rfl := Option.some.inj h
        obtain ⟨a', hC', hstep, hs'⟩ := hs.select hl hact hC
        exact ⟨a', .inr ⟨_, hC', hstep⟩, hs'⟩
      | write f busy =>
        rw [hact] at h
        simp only [Phase.stmt, Sessions.exec, Option.ite_none_left_eq_some, Option.some.injEq] at h
        obtain ⟨hfree, rfl⟩ := h
        exact hs.write hl hact hC (by simpa using hfree)
      | done =>
        rw [hact] at h
        cases h
    | commit pc =>
      obtain rfl := Option.some.inj h
      obtain ⟨a', hC', hstep, hs'⟩ := hs.commit hl
      exact ⟨a', .inr ⟨_, hC', hstep⟩, hs'⟩
    | rollback pc =>
      obtain rfl := Option.some.inj h
      exact ⟨a, .inl rfl, hs.rollback hl⟩
  | giveUp k =>
    obtain ⟨l, hl, h⟩ := Option.bind_eq_some_iff.1 h
    cases l with
    | run pc =>
      simp only [Phase.next] at h
      cases hact : act pc with
      | write f busy =>
        rw [hact] at h
        simp only [Phase.stmt, Sessions.giveUp, Option.ite_none_right_eq_some, Option.some.injEq] at h
        obtain ⟨-, rfl⟩ := h
        obtain ⟨a', hstep, hs'⟩ := hs.giveUp hl hact
        exact ⟨a', .inr ⟨.giveUp k, trivial, hstep⟩, hs'⟩
      | select f | done =>
        rw [hact] at h
        cases h
    | commit pc | rollback pc => cases h

/-- A call at a statement is where its atomic call is. -/
theorem Sim.run (hs : Sim act C s a) (hl : s.calls[k]? = some (.run pc)) : a.calls[k]? = some pc := by
  obtain ⟨x, hx, hrel⟩ := hs.calls k _ hl
  generalize s.held k = h at hrel
  cases hrel
  exact hx

/-- A call that is over is over, or about to roll back. -/
theorem Sim.of_done (hs : Sim act C s a) (hpc : a.calls[k]? = some pc) (hdone : act pc = .done) :
    s.calls[k]? = some (.run pc) ∨ s.calls[k]? = some (.rollback pc) ∧ RollsBack act pc := by
  obtain ⟨l, hl⟩ : ∃ l, s.calls[k]? = some l := by
    have hlt := (List.getElem?_eq_some_iff.1 hpc).1
    exact ⟨_, List.getElem?_eq_getElem (hs.length ▸ hlt)⟩
  obtain ⟨x, hx, hrel⟩ := hs.calls k l hl
  obtain rfl := Option.some.inj (hpc.symm.trans hx)
  generalize s.held k = h at hrel
  cases hrel with
  | run => exact .inl hl
  | commit hact => simp [hdone] at hact
  | rollback hback => exact .inr ⟨hl, hback⟩

/-- Once all calls are over, the atomic calls are. -/
theorem Sim.over {act' : P → Action D P} (hs : Sim act C s a) (hover : s.finished act' = true)
    (hpc : a.calls[k]? = some pc) : act' pc = .done := by
  have hlt : k < s.calls.length := hs.length ▸ (List.getElem?_eq_some_iff.1 hpc).1
  have hl : s.calls[k]? = some s.calls[k] := List.getElem?_eq_getElem hlt
  have hdone := List.all_eq_true.1 hover _ (List.mem_of_getElem? hl)
  revert hl hdone
  generalize s.calls[k] = l
  intro hl hdone
  cases l with
  | run pc' =>
    obtain rfl := Option.some.inj (hpc.symm.trans (hs.run hl))
    cases hact : act' pc with
    | done => rfl
    | select | write => simp [Phase.isOver, hact] at hdone
  | commit | rollback => cases hdone

theorem countP_le_countP {α β : Type*} {p : α → Bool} {q : β → Bool} {xs : List α} {ys : List β}
    (hlen : xs.length = ys.length)
    (h : ∀ (k : ℕ) (x : α) (y : β), xs[k]? = some x → ys[k]? = some y → p x = true → q y = true) :
    xs.countP p ≤ ys.countP q := by
  induction xs generalizing ys with
  | nil => simp
  | cons x xs ih =>
    cases ys with
    | nil => cases hlen
    | cons y ys =>
      have htail := ih (Nat.succ.inj hlen) fun k => h (k + 1)
      have hhead := h 0 x y rfl rfl
      rw [List.countP_cons, List.countP_cons]
      split_ifs with hx hy
      · omega
      · exact absurd (hhead hx) hy
      · omega
      · omega

/-- Not more calls are at such a statement than atomic calls are. -/
theorem Sim.countP_le (hs : Sim act C s a) (p : P → Bool) :
    s.calls.countP (Phase.isRun p) ≤ a.calls.countP p := by
  refine countP_le_countP hs.length.symm fun k l pc hl hpc hp => ?_
  cases l with
  | run x =>
    obtain rfl := Option.some.inj ((hs.run hl).symm.trans hpc)
    exact hp
  | commit | rollback => cases hp

/-- Calls that are over, and not by a refused write, are at their statements. -/
theorem Sim.le_countP (hs : Sim act C s a) (p : P → Bool)
    (hp : ∀ pc, p pc = true → act pc = .done ∧ ¬ RollsBack act pc) :
    a.calls.countP p ≤ s.calls.countP (Phase.isRun p) := by
  refine countP_le_countP hs.length fun k pc l hpc hl hpc' => ?_
  obtain ⟨hdone, hback⟩ := hp pc hpc'
  rcases hs.of_done hpc hdone with h | ⟨-, h⟩
  · obtain rfl := Option.some.inj (h.symm.trans hl)
    exact hpc'
  · exact absurd h hback

/-- **Every run of the sessions is one of the atomic calls.** -/
theorem exists_atomic {db : D} {calls : List P}
    (h : (transactions act).Reach (Sessions.Heeds C) (.begin db calls) s) :
    ∃ a, (Atomic.system act).Reach (Atomic.Heeds C) ⟨db, calls⟩ a ∧ Sim act C s a := by
  induction h with
  | refl => exact ⟨_, .refl, .begin db calls⟩
  | tail _ hC hstep ih =>
    obtain ⟨a, ha, hs⟩ := ih
    obtain ⟨a', hmove, hs'⟩ := hs.step hC hstep
    rcases hmove with rfl | ⟨t', hC', hstep'⟩
    · exact ⟨a', ha, hs'⟩
    · exact ⟨a', .tail ha hC' hstep', hs'⟩

end sim

/-! ### A call alone -/

section alone

variable (act : P → Action D P) (db : D) (pc : P)

/-- A database with one call on it, which has written nothing. -/
abbrev Sessions.alone (db : D) (pc : P) : Sessions D (Phase P) := ⟨db, none, [.run pc]⟩

theorem alone_select {f : D → P} (h : act pc = .select f) :
    (transactions act).Reachable (.alone db pc) (.alone db (f db)) := by
  refine .single (a := .go 0) trivial ?_
  simp [transactions, Sessions.system, Phase.next, h, Phase.stmt, Sessions.exec, Sessions.view,
    Sessions.held]

theorem alone_write {db' : D} {pc' : P} {run : D → Except P (D × P)} {busy : P} (h : act pc = .write run busy)
    (hrun : run db = .ok (db', pc')) :
    (transactions act).Reachable (.alone db pc) (.alone db' pc') := by
  have hwrite : (transactions act).step (.alone db pc) (.go 0) =
      some ⟨db, some (0, db'), [.commit pc']⟩ := by
    simp [transactions, Sessions.system, Phase.next, h, Phase.stmt, Sessions.exec, Sessions.view,
      Sessions.held, Sessions.waits, hrun, Phase.ofWrite]
  exact .tail (a := .go 0) (.single trivial hwrite) trivial rfl

theorem alone_refused {pc' : P} {run : D → Except P (D × P)} {busy : P} (h : act pc = .write run busy)
    (hrun : run db = .error pc') : (transactions act).Reachable (.alone db pc) (.alone db pc') := by
  have hwrite : (transactions act).step (.alone db pc) (.go 0) =
      some ⟨db, some (0, db), [.rollback pc']⟩ := by
    simp [transactions, Sessions.system, Phase.next, h, Phase.stmt, Sessions.exec, Sessions.view,
      Sessions.held, Sessions.waits, hrun, Phase.ofWrite]
  exact .tail (a := .go 0) (.single trivial hwrite) trivial rfl

end alone

/-! ### Invariants of the calls -/

/-- An argument about every order of turns: `I` holds of the database, and `G` of the database and of
every call.  A call keeps both by its own actions, and keeps what the others rely on by its writes. -/
structure Maintains (act : P → Action D P) (C : D → P → Prop) (I : D → Prop) (G : D → P → Prop) :
    Prop where
  select {db pc f} : act pc = .select f → C db pc → I db → G db pc → G db (f db)
  write {db db' pc pc' run busy} : act pc = .write run busy → run db = .ok (db', pc') → C db pc →
    I db → G db pc → I db' ∧ G db' pc' ∧ ∀ pc₂, G db pc₂ → G db' pc₂
  refused {db pc pc' run busy} : act pc = .write run busy → run db = .error pc' → C db pc →
    I db → G db pc → G db pc'
  busy {db pc run busy} : act pc = .write run busy → I db → G db pc → G db busy

namespace Maintains

variable {act : P → Action D P} {C : D → P → Prop} {I : D → Prop} {G : D → P → Prop}

/-- The invariant of the database and of all calls. -/
def Holds (I : D → Prop) (G : D → P → Prop) (a : Atomic D P) : Prop :=
  I a.db ∧ ∀ pc ∈ a.calls, G a.db pc

theorem step (hmaint : Maintains act C I G) {a a' : Atomic D P} {t : Turn} (h : Holds I G a)
    (hC : a.Heeds C t) (hstep : (Atomic.system act).step a t = some a') : Holds I G a' := by
  obtain ⟨hI, hG⟩ := h
  obtain ⟨k, pc, pc', hpc, hcalls, hmove⟩ := Atomic.step_cases hstep
  have hpc' : G a.db pc := hG pc (List.mem_of_getElem? hpc)
  -- It is enough to look at the call that moves, and at the calls that have not.
  suffices h : I a'.db ∧ G a'.db pc' ∧ ∀ pc₂, G a.db pc₂ → G a'.db pc₂ by
    refine ⟨h.1, fun x hx => ?_⟩
    rw [hcalls] at hx
    rcases List.mem_or_eq_of_mem_set hx with hx | rfl
    · exact h.2.2 x (hG x hx)
    · exact h.2.1
  rcases hmove with ⟨f, rfl, hact, rfl, hdb⟩ | ⟨run, busy, rfl, hact, hrun⟩ |
    ⟨run, busy, rfl, hact, hrun, hdb⟩ | ⟨run, busy, rfl, hact, rfl, hdb⟩
  · rw [hdb]
    exact ⟨hI, hmaint.select hact (hC pc hpc) hI hpc', fun _ h => h⟩
  · exact hmaint.write hact hrun (hC pc hpc) hI hpc'
  · rw [hdb]
    exact ⟨hI, hmaint.refused hact hrun (hC pc hpc) hI hpc', fun _ h => h⟩
  · rw [hdb]
    exact ⟨hI, hmaint.busy hact hI hpc', fun _ h => h⟩

/-- **The invariant holds in every state of every run.** -/
theorem reach (hmaint : Maintains act C I G) {db : D} {calls : List P} {s : Sessions D (Phase P)}
    (h : (transactions act).Reach (Sessions.Heeds C) (.begin db calls) s) (hI : I db)
    (hG : ∀ pc ∈ calls, G db pc) :
    I s.committed ∧ ∀ (k : ℕ) (pc : P), s.calls[k]? = some (.run pc) → G s.committed pc := by
  obtain ⟨a, ha, hsim⟩ := exists_atomic h
  have hholds : Holds I G a :=
    ha.invariant ⟨hI, hG⟩ fun _ _ _ h hC hstep => hmaint.step h hC hstep
  rw [← hsim.db]
  exact ⟨hholds.1, fun k pc hk => hholds.2 pc (List.mem_of_getElem? (hsim.run hk))⟩

end Maintains

/-! ### Calls that have something for themselves -/

/-- An argument about every order of turns in which a call can have things that no other call has.
What a call relies on is kept by the writes of the calls that have nothing of it. -/
structure MaintainsApart {ι : Type*} (act : P → Action D P) (C : D → P → Prop) (I : D → Prop)
    (G : D → P → Prop) (Has : P → ι → Prop) : Prop where
  select {db pc f} : act pc = .select f → C db pc → I db → G db pc →
    G db (f db) ∧ ∀ x, Has (f db) x → Has pc x
  write {db db' pc pc' run busy} : act pc = .write run busy → run db = .ok (db', pc') → C db pc →
    I db → G db pc → I db' ∧ G db' pc' ∧
    (∀ pc₂, G db pc₂ → (∀ x, Has pc x → ¬ Has pc₂ x) → G db' pc₂) ∧
    ∀ x, Has pc' x → Has pc x ∨ ∀ pc₂, G db pc₂ → ¬ Has pc₂ x
  refused {db pc pc' run busy} : act pc = .write run busy → run db = .error pc' → C db pc →
    I db → G db pc → G db pc' ∧ ∀ x, Has pc' x → Has pc x
  busy {db pc run busy} : act pc = .write run busy → I db → G db pc →
    G db busy ∧ ∀ x, Has busy x → Has pc x

namespace MaintainsApart

variable {ι : Type*} {act : P → Action D P} {C : D → P → Prop} {I : D → Prop} {G : D → P → Prop}
  {Has : P → ι → Prop}

/-- The invariant of the database and of all calls, no two of which have anything in common. -/
structure Holds (I : D → Prop) (G : D → P → Prop) (Has : P → ι → Prop) (a : Atomic D P) : Prop where
  db : I a.db
  calls : ∀ pc ∈ a.calls, G a.db pc
  apart : ∀ (i j : ℕ) (pc pc' : P) (x : ι), a.calls[i]? = some pc → a.calls[j]? = some pc' →
    Has pc x → Has pc' x → i = j

/-- A call moves; the others keep what they rely on, and have nothing of what it has. -/
theorem Holds.set {a a' : Atomic D P} {k : ℕ} {pc' : P} (h : Holds I G Has a) (hI : I a'.db)
    (hcalls : a'.calls = a.calls.set k pc') (hG : G a'.db pc')
    (hothers : ∀ (n : ℕ) (z : P), n ≠ k → a.calls[n]? = some z → G a'.db z)
    (hmine : ∀ (n : ℕ) (z : P) (x : ι), n ≠ k → a.calls[n]? = some z → Has pc' x → ¬ Has z x) :
    Holds I G Has a' where
  db := hI
  calls x hx := by
    obtain ⟨n, hn⟩ := List.getElem?_of_mem hx
    rw [hcalls] at hn
    rcases Discipline.getElem?_set_cases hn with ⟨-, rfl⟩ | ⟨hnk, hn⟩
    · exact hG
    · exact hothers n x hnk hn
  apart i j x x' y hi hj hx hx' := by
    rw [hcalls] at hi hj
    rcases Discipline.getElem?_set_cases hi with ⟨rfl, rfl⟩ | ⟨hik, hiold⟩
    · rcases Discipline.getElem?_set_cases hj with ⟨rfl, -⟩ | ⟨hjk, hjold⟩
      · rfl
      · exact absurd hx' (hmine j x' y hjk hjold hx)
    · rcases Discipline.getElem?_set_cases hj with ⟨rfl, rfl⟩ | ⟨hjk, hjold⟩
      · exact absurd hx (hmine i x y hik hiold hx')
      · exact h.apart i j x x' y hiold hjold hx hx'

/-- The case of a move that leaves the database alone, and gives the call nothing new. -/
theorem Holds.move {a a' : Atomic D P} {k : ℕ} {pc pc' : P} (h : Holds I G Has a)
    (hpc : a.calls[k]? = some pc) (hcalls : a'.calls = a.calls.set k pc') (hdb : a'.db = a.db)
    (hG : G a.db pc') (hhas : ∀ x, Has pc' x → Has pc x) : Holds I G Has a' := by
  refine h.set (hdb ▸ h.db) hcalls (hdb ▸ hG) (fun n z _ hz => ?_) fun n z x hnk hz hx hzx => hnk ?_
  · exact hdb ▸ h.calls z (List.mem_of_getElem? hz)
  · exact h.apart n k z pc x hz hpc hzx (hhas x hx)

theorem step (hmaint : MaintainsApart act C I G Has) {a a' : Atomic D P} {t : Turn}
    (h : Holds I G Has a) (hC : a.Heeds C t)
    (hstep : (Atomic.system act).step a t = some a') : Holds I G Has a' := by
  obtain ⟨k, pc, pc', hpc, hcalls, hmove⟩ := Atomic.step_cases hstep
  have hG : G a.db pc := h.calls pc (List.mem_of_getElem? hpc)
  rcases hmove with ⟨f, rfl, hact, rfl, hdb⟩ | ⟨run, busy, rfl, hact, hrun⟩ |
    ⟨run, busy, rfl, hact, hrun, hdb⟩ | ⟨run, busy, rfl, hact, rfl, hdb⟩
  · obtain ⟨hG', hhas⟩ := hmaint.select hact (hC pc hpc) h.db hG
    exact h.move hpc hcalls hdb hG' hhas
  · obtain ⟨hI', hG', hothers, hnew⟩ := hmaint.write hact hrun (hC pc hpc) h.db hG
    refine h.set hI' hcalls hG' (fun n z hnk hz => ?_) fun n z x hnk hz hx hzx => ?_
    · refine hothers z (h.calls z (List.mem_of_getElem? hz)) fun x hx hzx => hnk ?_
      exact h.apart n k z pc x hz hpc hzx hx
    · rcases hnew x hx with hpcx | hnobody
      · exact hnk (h.apart n k z pc x hz hpc hzx hpcx)
      · exact hnobody z (h.calls z (List.mem_of_getElem? hz)) hzx
  · obtain ⟨hG', hhas⟩ := hmaint.refused hact hrun (hC pc hpc) h.db hG
    exact h.move hpc hcalls hdb hG' hhas
  · obtain ⟨hG', hhas⟩ := hmaint.busy hact h.db hG
    exact h.move hpc hcalls hdb hG' hhas

/-- **The invariant holds where the calls of a run are**, if no call has anything at first. -/
theorem reach (hmaint : MaintainsApart act C I G Has) {db : D} {calls : List P}
    {s : Sessions D (Phase P)} (h : (transactions act).Reach (Sessions.Heeds C) (.begin db calls) s)
    (hI : I db) (hG : ∀ pc ∈ calls, G db pc) (hhas : ∀ pc ∈ calls, ∀ x, ¬ Has pc x) :
    ∃ a, Holds I G Has a ∧ Sim act C s a := by
  obtain ⟨a, ha, hsim⟩ := exists_atomic h
  refine ⟨a, ha.invariant ⟨hI, hG, fun i j pc pc' x hi _ hx => ?_⟩
    fun _ _ _ h hC hstep => hmaint.step h hC hstep, hsim⟩
  exact absurd hx (hhas pc (List.mem_of_getElem? hi) x)

end MaintainsApart

/-! ### Calls that own something -/

/-- An argument about every order of turns in which a call can own something, and what it owns nobody
else does.  `Loose` is what has to be owned.  What a call relies on is kept by the writes of the calls
that own something else. -/
structure MaintainsOwned {ι : Type*} (act : P → Action D P) (C : D → P → Prop) (I : D → Prop)
    (G : D → P → Prop) (own : P → Option ι) (Loose : D → ι → Prop) : Prop where
  select {db pc f} : act pc = .select f → C db pc → I db → G db pc →
    G db (f db) ∧ own (f db) = own pc
  write {db db' pc pc' run busy} : act pc = .write run busy → run db = .ok (db', pc') → C db pc →
    I db → G db pc → I db' ∧ G db' pc' ∧
    (∀ pc₂, G db pc₂ → (∀ x, own pc = some x → own pc₂ ≠ some x) → G db' pc₂) ∧
    (∀ x, own pc' = some x → own pc = some x ∨ ∀ pc₂, G db pc₂ → own pc₂ ≠ some x) ∧
    ∀ x, Loose db' x → own pc' = some x ∨ Loose db x ∧ own pc ≠ some x
  refused {db pc pc' run busy} : act pc = .write run busy → run db = .error pc' → C db pc →
    I db → G db pc → G db pc' ∧ own pc' = own pc
  busy {db pc run busy} : act pc = .write run busy → I db → G db pc → G db busy ∧ own busy = own pc

namespace MaintainsOwned

variable {ι : Type*} {act : P → Action D P} {C : D → P → Prop} {I : D → Prop} {G : D → P → Prop}
  {own : P → Option ι} {Loose : D → ι → Prop}

/-- The invariant of the database and of all calls, with what they own. -/
structure Holds (I : D → Prop) (G : D → P → Prop) (own : P → Option ι) (Loose : D → ι → Prop)
    (a : Atomic D P) : Prop where
  db : I a.db
  calls : ∀ pc ∈ a.calls, G a.db pc
  apart : ∀ (i j : ℕ) (pc pc' : P) (x : ι), a.calls[i]? = some pc → a.calls[j]? = some pc' →
    own pc = some x → own pc' = some x → i = j
  owned : ∀ x, Loose a.db x → ∃ pc ∈ a.calls, own pc = some x

/-- What a call owns it has for itself. -/
theorem maintainsApart (hmaint : MaintainsOwned act C I G own Loose) :
    MaintainsApart act C I G fun pc x => own pc = some x where
  select hact hC hI hG := by
    obtain ⟨hG', hown⟩ := hmaint.select hact hC hI hG
    exact ⟨hG', fun x hx => hown ▸ hx⟩
  write hact hrun hC hI hG := by
    obtain ⟨hI', hG', hothers, hnew, -⟩ := hmaint.write hact hrun hC hI hG
    exact ⟨hI', hG', hothers, hnew⟩
  refused hact hrun hC hI hG := by
    obtain ⟨hG', hown⟩ := hmaint.refused hact hrun hC hI hG
    exact ⟨hG', fun x hx => hown ▸ hx⟩
  busy hact hI hG := by
    obtain ⟨hG', hown⟩ := hmaint.busy hact hI hG
    exact ⟨hG', fun x hx => hown ▸ hx⟩

/-- A call moves and owns what it owned before; what had to be owned has an owner. -/
theorem owned_of_same {a a' : Atomic D P} {k : ℕ} {pc pc' : P} (h : Holds I G own Loose a)
    (hpc : a.calls[k]? = some pc) (hcalls : a'.calls = a.calls.set k pc') (hdb : a'.db = a.db)
    (hown : own pc' = own pc) : ∀ x, Loose a'.db x → ∃ pc ∈ a'.calls, own pc = some x := by
  intro x hx
  rw [hdb] at hx
  obtain ⟨z, hz, hzx⟩ := h.owned x hx
  obtain ⟨n, hn⟩ := List.getElem?_of_mem hz
  rw [hcalls]
  by_cases hnk : n = k
  · obtain rfl : pc = z := Option.some.inj (hpc.symm.trans (hnk ▸ hn))
    exact ⟨pc', List.mem_set (List.getElem?_eq_some_iff.1 hpc).1 pc', hown.trans hzx⟩
  · exact ⟨z, List.mem_of_getElem? (by rw [List.getElem?_set, if_neg (Ne.symm hnk), hn]), hzx⟩

theorem step (hmaint : MaintainsOwned act C I G own Loose) {a a' : Atomic D P} {t : Turn}
    (h : Holds I G own Loose a) (hC : a.Heeds C t)
    (hstep : (Atomic.system act).step a t = some a') : Holds I G own Loose a' := by
  have hapart := hmaint.maintainsApart.step ⟨h.db, h.calls, h.apart⟩ hC hstep
  refine ⟨hapart.db, hapart.calls, hapart.apart, ?_⟩
  obtain ⟨k, pc, pc', hpc, hcalls, hmove⟩ := Atomic.step_cases hstep
  have hG : G a.db pc := h.calls pc (List.mem_of_getElem? hpc)
  rcases hmove with ⟨f, rfl, hact, rfl, hdb⟩ | ⟨run, busy, rfl, hact, hrun⟩ |
    ⟨run, busy, rfl, hact, hrun, hdb⟩ | ⟨run, busy, rfl, hact, rfl, hdb⟩
  · exact owned_of_same h hpc hcalls hdb (hmaint.select hact (hC pc hpc) h.db hG).2
  · obtain ⟨-, -, -, -, hloose⟩ := hmaint.write hact hrun (hC pc hpc) h.db hG
    intro x hx
    rw [hcalls]
    rcases hloose x hx with hpcx | ⟨hx, hpcx⟩
    · exact ⟨pc', List.mem_set (List.getElem?_eq_some_iff.1 hpc).1 pc', hpcx⟩
    · obtain ⟨z, hz, hzx⟩ := h.owned x hx
      obtain ⟨n, hn⟩ := List.getElem?_of_mem hz
      have hnk : n ≠ k := by
        rintro rfl
        obtain rfl := Option.some.inj (hpc.symm.trans hn)
        exact hpcx hzx
      exact ⟨z, List.mem_of_getElem? (by rw [List.getElem?_set, if_neg hnk.symm, hn]), hzx⟩
  · exact owned_of_same h hpc hcalls hdb (hmaint.refused hact hrun (hC pc hpc) h.db hG).2
  · exact owned_of_same h hpc hcalls hdb (hmaint.busy hact h.db hG).2

/-- **The invariant holds where the calls of a run are**, if no call owns anything at first. -/
theorem reach (hmaint : MaintainsOwned act C I G own Loose) {db : D} {calls : List P}
    {s : Sessions D (Phase P)} (h : (transactions act).Reach (Sessions.Heeds C) (.begin db calls) s)
    (hI : I db) (hG : ∀ pc ∈ calls, G db pc) (hown : ∀ pc ∈ calls, own pc = none)
    (hloose : ∀ x, ¬ Loose db x) : ∃ a, Holds I G own Loose a ∧ Sim act C s a := by
  obtain ⟨a, ha, hsim⟩ := exists_atomic h
  refine ⟨a, ha.invariant ⟨hI, hG, fun i j pc pc' x hi _ hx => ?_, fun x hx => ?_⟩
    fun _ _ _ h hC hstep => hmaint.step h hC hstep, hsim⟩
  · rw [hown pc (List.mem_of_getElem? hi)] at hx
    cases hx
  · exact absurd hx (hloose x)

end MaintainsOwned

/-! ### Programs on a part of the database -/

section zoom

variable {D' Q : Type*} {get : D' → D} {set : D' → D → D'} {f : P → Q} {a : Action D P}

theorem Action.zoom_eq_select {g : D' → Q} (h : a.zoom get set f = .select g) :
    ∃ next, a = .select next ∧ g = fun db => f (next (get db)) := by
  cases a with
  | select next =>
    cases h
    exact ⟨next, rfl, rfl⟩
  | write | done => cases h

theorem Action.zoom_eq_write {run' : D' → Except Q (D' × Q)} {busy' : Q}
    (h : a.zoom get set f = .write run' busy') :
    ∃ run busy, a = .write run busy ∧ busy' = f busy ∧
      (∀ db db' q, run' db = .ok (db', q) →
        ∃ w pc, run (get db) = .ok (w, pc) ∧ db' = set db w ∧ q = f pc) ∧
      ∀ db q, run' db = .error q → ∃ pc, run (get db) = .error pc ∧ q = f pc := by
  cases a with
  | write run busy =>
    cases h
    refine ⟨run, busy, rfl, rfl, fun db db' q hrun => ?_, fun db q hrun => ?_⟩
    · dsimp only at hrun
      split at hrun
      · rename_i w pc hok
        cases hrun
        exact ⟨w, pc, hok, rfl, rfl⟩
      · cases hrun
    · dsimp only at hrun
      split at hrun
      · cases hrun
      · rename_i pc herror
        cases hrun
        exact ⟨pc, herror, rfl⟩
  | select | done => cases h

theorem Action.at?_zoom (db : D') : (a.zoom get set f).at? db = (a.at? (get db)).map f := by
  cases a with
  | select next => rfl
  | write run busy =>
    simp only [zoom, at?]
    cases run (get db) <;> rfl
  | done => rfl

theorem Action.leads_of_zoom {q : Q} (h : (a.zoom get set f).Leads q) : ∃ pc, a.Leads pc ∧ f pc = q := by
  cases a with
  | select next =>
    cases h
    exact ⟨_, .select, rfl⟩
  | write run busy =>
    cases h with
    | giveUp => exact ⟨busy, .giveUp, rfl⟩
    | write hrun =>
      dsimp only at hrun
      split at hrun
      · rename_i w pc hok
        cases hrun
        exact ⟨pc, .write hok, rfl⟩
      · cases hrun
    | refused hrun =>
      dsimp only at hrun
      split at hrun
      · cases hrun
      · rename_i pc herror
        cases hrun
        exact ⟨pc, .refused herror, rfl⟩
  | done => cases h

/-- The database as a part of itself. -/
theorem Action.map_eq_zoom {Q : Type*} (a : Action D P) (f : P → Q) :
    a.map f = a.zoom id (fun _ db => db) f := by
  cases a <;> rfl

end zoom

/-! ### Families of programs -/

section tagged

variable {R : Type*} {act : R → P → Action D P} {r : R} {p : P}

theorem tagged_eq_select {g : D → R × P} (h : tagged act (r, p) = .select g) :
    ∃ f, act r p = .select f ∧ g = fun db => (r, f db) := by
  unfold tagged at h
  rw [Action.map_eq_zoom] at h
  exact Action.zoom_eq_select h

/-- A write of the family, accepted or refused. -/
theorem tagged_eq_write {run : D → Except (R × P) (D × (R × P))} {busy : R × P}
    (h : tagged act (r, p) = .write run busy) :
    ∃ run' busy', act r p = .write run' busy' ∧ busy = (r, busy') ∧
      (∀ db db' c, run db = .ok (db', c) → ∃ p', c = (r, p') ∧ run' db = .ok (db', p')) ∧
      ∀ db c, run db = .error c → ∃ p', c = (r, p') ∧ run' db = .error p' := by
  unfold tagged at h
  rw [Action.map_eq_zoom] at h
  obtain ⟨run', busy', hact, hbusy, hok, herror⟩ := Action.zoom_eq_write h
  refine ⟨run', busy', hact, hbusy, fun db db' c hrun => ?_, fun db c hrun => ?_⟩
  · obtain ⟨w, p', hrun', rfl, rfl⟩ := hok db db' c hrun
    exact ⟨p', rfl, hrun'⟩
  · obtain ⟨p', hrun', rfl⟩ := herror db c hrun
    exact ⟨p', rfl, hrun'⟩

theorem tagged_eq_done : tagged act (r, p) = .done ↔ act r p = .done := by
  unfold tagged
  generalize act r p = a
  cases a with
  | done => exact ⟨fun _ => rfl, fun _ => rfl⟩
  | select | write =>
    constructor
    · intro h
      cases h
    · intro h
      cases h

/-- A call stays with its request. -/
theorem Sessions.request_of_reach {C : Sessions D (Phase (R × P)) → Turn → Prop}
    {s s' : Sessions D (Phase (R × P))} {k : ℕ} {c : R × P} {l : Phase (R × P)}
    (h : (transactions (tagged act)).Reach C s s') (hk : s.calls[k]? = some (.run c))
    (hl : s'.calls[k]? = some l) : l.pc.1 = c.1 := by
  have hstays : ∀ c₁ c₂ : R × P, c₁.1 = c.1 → (tagged act c₁).Leads c₂ → c₂.1 = c.1 := by
    intro c₁ c₂ hc hleads
    unfold tagged at hleads
    rw [Action.map_eq_zoom] at hleads
    obtain ⟨p', -, rfl⟩ := Action.leads_of_zoom hleads
    exact hc
  obtain ⟨l', hl', hrequest⟩ := Sessions.pc_of_reach h hstays ⟨_, hk, rfl⟩
  obtain rfl := Option.some.inj (hl.symm.trans hl')
  exact hrequest

/-- `Maintains` for a family, request by request. -/
structure MaintainsEach (act : R → P → Action D P) (C : D → R → P → Prop) (I : D → Prop)
    (G : D → R → P → Prop) : Prop where
  select {db r p f} : act r p = .select f → C db r p → I db → G db r p → G db r (f db)
  write {db db' r p p' run busy} : act r p = .write run busy → run db = .ok (db', p') → C db r p →
    I db → G db r p → I db' ∧ G db' r p' ∧ ∀ r₂ p₂, G db r₂ p₂ → G db' r₂ p₂
  refused {db r p p' run busy} : act r p = .write run busy → run db = .error p' → C db r p →
    I db → G db r p → G db r p'

/-- The argument holds, if a call can also give up. -/
theorem MaintainsEach.maintains {C : D → R → P → Prop} {I : D → Prop} {G : D → R → P → Prop}
    (h : MaintainsEach act C I G)
    (hbusy : ∀ db r p run busy, act r p = .write run busy → I db → G db r p → G db r busy) :
    Maintains (tagged act) (fun db c => C db c.1 c.2) I fun db c => G db c.1 c.2 where
  select {db c f} hact hC hI hG := by
    obtain ⟨f, hact', rfl⟩ := tagged_eq_select hact
    exact h.select hact' hC hI hG
  write {db db' c c' run busy} hact hrun hC hI hG := by
    obtain ⟨run', busy', hact', -, hok, -⟩ := tagged_eq_write hact
    obtain ⟨p', rfl, hrun'⟩ := hok _ _ _ hrun
    obtain ⟨hI', hG', hothers⟩ := h.write hact' hrun' hC hI hG
    exact ⟨hI', hG', fun c₂ => hothers c₂.1 c₂.2⟩
  refused {db c c' run busy} hact hrun hC hI hG := by
    obtain ⟨run', busy', hact', -, -, herror⟩ := tagged_eq_write hact
    obtain ⟨p', rfl, hrun'⟩ := herror _ _ hrun
    exact h.refused hact' hrun' hC hI hG
  busy {db c run busy} hact hI hG := by
    obtain ⟨run', busy', hact', rfl, -⟩ := tagged_eq_write hact
    exact hbusy db c.1 c.2 run' busy' hact' hI hG

end tagged

/-! ### Runs in which nobody gives up -/

section patient

/-- The turn executes a statement. -/
def Turn.Goes : Turn → Prop
  | .go _ => True
  | .giveUp _ => False

instance : (t : Turn) → Decidable t.Goes
  | .go _ => inferInstanceAs (Decidable True)
  | .giveUp _ => inferInstanceAs (Decidable False)

/-- The program that goes on waiting. -/
def patient (act : P → Action D P) (pc : P) : Action D P :=
  match act pc with
  | .write run _ => .write run pc
  | a => a

variable {act : P → Action D P} {C : D → P → Prop} {s s' : Sessions D (Phase P)}

theorem step_patient {t : Turn} (ht : t.Goes) (h : (transactions act).step s t = some s') :
    (transactions (patient act)).step s t = some s' := by
  cases t with
  | giveUp k => cases ht
  | go k =>
    obtain ⟨l, hl, h⟩ := Option.bind_eq_some_iff.1 h
    refine Option.bind_eq_some_iff.2 ⟨l, hl, ?_⟩
    cases l with
    | run pc =>
      simp only [Phase.next, patient] at h ⊢
      generalize act pc = a at h ⊢
      cases a <;> exact h
    | commit pc | rollback pc => exact h

/-- A run in which nobody gives up is one of the programs that go on waiting. -/
theorem reach_patient {s₀ : Sessions D (Phase P)}
    (h : (transactions act).Reach (fun s t => s.Heeds C t ∧ t.Goes) s₀ s) :
    (transactions (patient act)).Reach (Sessions.Heeds C) s₀ s := by
  induction h with
  | refl => exact .refl
  | tail _ hC hstep ih => exact .tail ih hC.1 (step_patient hC.2 hstep)

theorem patient_eq_select {f : D → P} {pc : P} (h : patient act pc = .select f) :
    act pc = .select f := by
  unfold patient at h
  split at h
  · cases h
  · exact h

theorem patient_eq_write {run : D → Except P (D × P)} {busy pc : P}
    (h : patient act pc = .write run busy) : busy = pc ∧ ∃ busy', act pc = .write run busy' := by
  unfold patient at h
  split at h
  · rename_i busy' hact
    cases h
    exact ⟨rfl, busy', hact⟩
  · rename_i a hnot
    exact absurd h (hnot run busy)

/-- The argument holds in the runs in which nobody gives up. -/
theorem MaintainsEach.patiently {R : Type*} {act : R → P → Action D P} {C : D → R → P → Prop}
    {I : D → Prop} {G : D → R → P → Prop} (h : MaintainsEach act C I G) :
    Maintains (patient (tagged act)) (fun db c => C db c.1 c.2) I fun db c => G db c.1 c.2 where
  select {db c f} hact hC hI hG := by
    obtain ⟨f, hact', rfl⟩ := tagged_eq_select (patient_eq_select hact)
    exact h.select hact' hC hI hG
  write {db db' c c' run busy} hact hrun hC hI hG := by
    obtain ⟨-, busy', hact⟩ := patient_eq_write hact
    obtain ⟨run', busy', hact', -, hok, -⟩ := tagged_eq_write hact
    obtain ⟨p', rfl, hrun'⟩ := hok _ _ _ hrun
    obtain ⟨hI', hG', hothers⟩ := h.write hact' hrun' hC hI hG
    exact ⟨hI', hG', fun c₂ => hothers c₂.1 c₂.2⟩
  refused {db c c' run busy} hact hrun hC hI hG := by
    obtain ⟨-, busy', hact⟩ := patient_eq_write hact
    obtain ⟨run', busy', hact', -, -, herror⟩ := tagged_eq_write hact
    obtain ⟨p', rfl, hrun'⟩ := herror _ _ hrun
    exact h.refused hact' hrun' hC hI hG
  busy {db c run busy} hact _ hG := by
    rw [(patient_eq_write hact).1]
    exact hG

end patient

/-! ### Calls come to an end -/

section progress

variable {act : P → Action D P} {rank : P → ℕ} {s s' : Sessions D (Phase P)}

/-- Every action takes a call to a place of a lower rank. -/
structure Ranked (act : P → Action D P) (rank : P → ℕ) : Prop where
  select {pc f} (db : D) : act pc = .select f → rank (f db) < rank pc
  write {pc pc' run busy db db'} : act pc = .write run busy → run db = .ok (db', pc') →
    rank pc' < rank pc
  refused {pc pc' run busy} {db : D} : act pc = .write run busy → run db = .error pc' →
    rank pc' < rank pc

/-- The same for a family, request by request. -/
structure RankedEach {R : Type*} (act : R → P → Action D P) (rank : P → ℕ) : Prop where
  select {r pc f} (db : D) : act r pc = .select f → rank (f db) < rank pc
  write {r pc pc' run busy db db'} : act r pc = .write run busy → run db = .ok (db', pc') →
    rank pc' < rank pc
  refused {r pc pc' run busy} {db : D} : act r pc = .write run busy → run db = .error pc' →
    rank pc' < rank pc

theorem RankedEach.ranked {R : Type*} {act : R → P → Action D P} (h : RankedEach act rank) :
    Ranked (tagged act) fun c => rank c.2 where
  select {c f} db hact := by
    obtain ⟨f, hact', rfl⟩ := tagged_eq_select hact
    exact h.select db hact'
  write {c c' run busy db db'} hact hrun := by
    obtain ⟨run', busy', hact', -, hok, -⟩ := tagged_eq_write hact
    obtain ⟨p', rfl, hrun'⟩ := hok _ _ _ hrun
    exact h.write hact' hrun'
  refused {c c' run busy db} hact hrun := by
    obtain ⟨run', busy', hact', -, -, herror⟩ := tagged_eq_write hact
    obtain ⟨p', rfl, hrun'⟩ := herror _ _ hrun
    exact h.refused hact' hrun'

/-- How many statements a call can still execute, at most. -/
def Phase.work (rank : P → ℕ) : Phase P → ℕ
  | run pc => 2 * rank pc
  | commit pc | rollback pc => 2 * rank pc + 1

/-- How many statements all calls can still execute. -/
def Sessions.work (rank : P → ℕ) (s : Sessions D (Phase P)) : ℕ :=
  (s.calls.map (Phase.work rank)).sum

theorem sum_map_set {α : Type*} (f : α → ℕ) {xs : List α} {k : ℕ} {x : α} (y : α)
    (h : xs[k]? = some x) : ((xs.set k y).map f).sum + f x = (xs.map f).sum + f y := by
  induction xs generalizing k with
  | nil => simp at h
  | cons z zs ih =>
    cases k with
    | zero =>
      obtain rfl : z = x := by simpa using h
      simp only [List.set_cons_zero, List.map_cons, List.sum_cons]
      omega
    | succ k =>
      have ih := ih (k := k) (by simpa using h)
      simp only [List.set_cons_succ, List.map_cons, List.sum_cons]
      omega

/-- A call whose statement is executed has less to do. -/
theorem Ranked.work_lt (hrank : Ranked act rank) {k : ℕ}
    (h : (transactions act).step s (.go k) = some s') : s'.work rank < s.work rank := by
  obtain ⟨l, hl, h⟩ := Option.bind_eq_some_iff.1 h
  suffices hcall : ∃ l', s'.calls = s.calls.set k l' ∧ l'.work rank < l.work rank by
    obtain ⟨l', hcalls, hlt⟩ := hcall
    have hsum := sum_map_set (Phase.work rank) l' hl
    unfold Sessions.work
    rw [hcalls]
    omega
  cases l with
  | run pc =>
    simp only [Phase.next] at h
    cases hact : act pc with
    | select f =>
      rw [hact] at h
      obtain rfl := Option.some.inj h
      have hlt := hrank.select (s.view k) hact
      exact ⟨_, rfl, by simp only [Phase.work]; omega⟩
    | write run busy =>
      rw [hact] at h
      simp only [Phase.stmt, Sessions.exec, Option.ite_none_left_eq_some, Option.some.injEq] at h
      obtain ⟨-, rfl⟩ := h
      refine ⟨_, rfl, ?_⟩
      cases hrun : run (s.view k) with
      | ok r =>
        have hlt : rank r.2 < rank pc := hrank.write hact hrun
        simp only [Phase.ofWrite, Phase.work]
        omega
      | error pc' =>
        have hlt := hrank.refused hact hrun
        simp only [Phase.ofWrite, Phase.work]
        omega
    | done =>
      rw [hact] at h
      cases h
  | commit pc | rollback pc =>
    obtain rfl := Option.some.inj h
    exact ⟨_, rfl, by simp only [Phase.work]; omega⟩

/-- The lock is that of a call. -/
theorem lock_lt_of_reach {C : Sessions D (Phase P) → Turn → Prop} {db : D} {calls : List P}
    (h : (transactions act).Reach C (.begin db calls) s) :
    ∀ p ∈ s.lock, p.1 < s.calls.length := by
  refine h.invariant (I := fun s => ∀ p ∈ s.lock, p.1 < s.calls.length)
    (fun p hp => by cases hp) fun s t s' hlock _ hstep => ?_
  have hrelease : ∀ k, ∀ p ∈ s.release k, p.1 < s.calls.length := fun k p hp =>
    hlock p (Option.filter_eq_some_iff.1 hp).1
  cases t with
  | go k =>
    obtain ⟨l, hl, h⟩ := Option.bind_eq_some_iff.1 hstep
    have hk : k < s.calls.length := (List.getElem?_eq_some_iff.1 hl).1
    generalize Phase.next act l = stmt at h
    cases stmt with
    | select f =>
      obtain rfl := Option.some.inj h
      simpa using hlock
    | write run busy =>
      simp only [Sessions.exec, Option.ite_none_left_eq_some, Option.some.injEq] at h
      obtain ⟨-, rfl⟩ := h
      intro p hp
      obtain rfl := Option.some.inj hp
      simpa using hk
    | commit l' | rollback l' =>
      obtain rfl := Option.some.inj h
      simpa using hrelease k
    | done => cases h
  | giveUp k =>
    obtain ⟨l, hl, h⟩ := Option.bind_eq_some_iff.1 hstep
    generalize Phase.next act l = stmt at h
    cases stmt with
    | write run busy =>
      simp only [Sessions.giveUp, Option.ite_none_right_eq_some, Option.some.injEq] at h
      obtain ⟨-, rfl⟩ := h
      simpa using hlock
    | _ => cases h

/-- Unless all calls are over, one of them can execute its statement. -/
theorem exists_go {C : D → P → Prop} {db : D} {calls : List P}
    (h : (transactions act).Reach (Sessions.Heeds C) (.begin db calls) s)
    (hover : s.finished act = false) : ∃ k s', (transactions act).step s (.go k) = some s' := by
  cases hlock : s.lock with
  | some p =>
    -- The call that has the lock is about to give it back.
    obtain ⟨a, -, hsim⟩ := exists_atomic h
    have hlt : p.1 < s.calls.length := lock_lt_of_reach h p hlock
    obtain ⟨l, hl⟩ : ∃ l, s.calls[p.1]? = some l := ⟨_, List.getElem?_eq_getElem hlt⟩
    have hheld : s.held p.1 = some p.2 := Sessions.held_eq_some.2 hlock
    obtain ⟨pc, -, hrel⟩ := hsim.calls p.1 l hl
    rw [hheld] at hrel
    cases hrel with
    | commit | rollback => exact ⟨p.1, _, Option.bind_eq_some_iff.2 ⟨_, hl, rfl⟩⟩
  | none =>
    obtain ⟨l, hmem, hl⟩ : ∃ l ∈ s.calls, Phase.isOver act l = false := by
      simpa [Sessions.finished] using hover
    obtain ⟨k, hk⟩ := List.getElem?_of_mem hmem
    refine ⟨k, ?_⟩
    cases l with
    | run pc =>
      cases hact : act pc with
      | select f =>
        exact ⟨_, Option.bind_eq_some_iff.2 ⟨_, hk, by simp only [Phase.next, hact]; rfl⟩⟩
      | write run busy =>
        have hfree : s.waits k = false := by simp [Sessions.waits, hlock]
        have hexec : ∃ s', s.exec k (Phase.next act (.run pc)) = some s' := by
          simp only [Phase.next, hact, Phase.stmt, Sessions.exec, hfree]
          exact ⟨_, rfl⟩
        obtain ⟨s', hexec⟩ := hexec
        exact ⟨s', Option.bind_eq_some_iff.2 ⟨_, hk, hexec⟩⟩
      | done => simp [Phase.isOver, hact] at hl
    | commit pc | rollback pc => exact ⟨_, Option.bind_eq_some_iff.2 ⟨_, hk, rfl⟩⟩

end progress

/-! ### What is committed -/

/-- A turn leaves what is committed as it is, or it is that of a call that commits what it has
written. -/
theorem Sim.commit_cases {act : P → Action D P} {C : D → P → Prop} {s s' : Sessions D (Phase P)}
    {a : Atomic D P} {t : Turn} (hs : Sim act C s a) (h : (transactions act).step s t = some s') :
    s'.committed = s.committed ∨ ∃ k pc₀ pc run busy, t = .go k ∧
      s.calls[k]? = some (.commit pc) ∧ a.calls[k]? = some pc₀ ∧ act pc₀ = .write run busy ∧
      run s.committed = .ok (s'.committed, pc) := by
  by_cases hcommit : ∃ k pc, t = .go k ∧ s.calls[k]? = some (.commit pc)
  · obtain ⟨k, pc, rfl, hl⟩ := hcommit
    obtain ⟨pc₀, hpc₀, hrel⟩ := hs.calls k _ hl
    generalize hheld : s.held k = held at hrel
    cases hrel with
    | @commit _ _ w run busy hact hC hrun =>
      have hstep : (transactions act).step s (.go k) = some _ := Sessions.step_commit hl rfl
      obtain rfl := Option.some.inj (hstep.symm.trans h)
      have hview : s.view k = w := by simp [Sessions.view, hheld]
      exact .inr ⟨k, pc₀, pc, run, busy, rfl, hl, hpc₀, hact, hview ▸ hrun⟩
  · refine .inl (Sessions.committed_of_step h fun k l l' ht hl hn => hcommit ?_)
    cases l with
    | commit pc => exact ⟨k, pc, ht, hl⟩
    | run pc =>
      simp only [Phase.next] at hn
      cases hact : act pc <;> simp [hact, Phase.stmt] at hn
    | rollback pc => cases hn

/-- The call whose turn it is stays at its place, or its action on what is committed takes it on, or it
gives up. -/
theorem Sim.place_of_step {act : P → Action D P} {C : D → P → Prop} {s s' : Sessions D (Phase P)}
    {a : Atomic D P} {t : Turn} {l : Phase P} (hs : Sim act C s a)
    (h : (transactions act).step s t = some s') (hl : s.calls[t.call]? = some l) :
    ∃ l', s'.calls[t.call]? = some l' ∧ (l'.pc = l.pc ∨ ∃ pc, l = .run pc ∧
      ((act pc).at? s.committed = some l'.pc ∨ ∃ run, act pc = .write run l'.pc)) := by
  cases t with
  | go k =>
    obtain ⟨m, hm, h⟩ := Option.bind_eq_some_iff.1 h
    obtain rfl : m = l := Option.some.inj (hm.symm.trans hl)
    cases m with
    | run pc =>
      have hview := hs.view_eq hm
      simp only [Phase.next] at h
      cases hact : act pc with
      | select f =>
        rw [hact] at h
        obtain rfl := Option.some.inj h
        refine ⟨_, Sessions.getElem?_set_self hl _, .inr ⟨pc, rfl, .inl ?_⟩⟩
        rw [hact, hview]
        rfl
      | write run busy =>
        rw [hact] at h
        simp only [Phase.stmt, Sessions.exec, Option.ite_none_left_eq_some, Option.some.injEq] at h
        obtain ⟨-, rfl⟩ := h
        refine ⟨_, Sessions.getElem?_set_self hl _, .inr ⟨pc, rfl, .inl ?_⟩⟩
        rw [hact, hview]
        simp only [Action.at?]
        cases run s.committed <;> rfl
      | done =>
        rw [hact] at h
        cases h
    | commit pc | rollback pc =>
      obtain rfl := Option.some.inj h
      exact ⟨_, Sessions.getElem?_set_self hl _, .inl rfl⟩
  | giveUp k =>
    obtain ⟨m, hm, h⟩ := Option.bind_eq_some_iff.1 h
    obtain rfl : m = l := Option.some.inj (hm.symm.trans hl)
    cases m with
    | run pc =>
      simp only [Phase.next] at h
      cases hact : act pc with
      | write run busy =>
        rw [hact] at h
        simp only [Phase.stmt, Sessions.giveUp, Option.ite_none_right_eq_some, Option.some.injEq] at h
        obtain ⟨-, rfl⟩ := h
        exact ⟨_, Sessions.getElem?_set_self hl _, .inr ⟨pc, rfl, .inr ⟨run, hact⟩⟩⟩
      | select f | done =>
        rw [hact] at h
        cases h
    | commit pc | rollback pc => cases h

/-- A turn leaves what is committed as it is, or a call writes. -/
theorem Sim.committed {act : P → Action D P} {C : D → P → Prop} {s s' : Sessions D (Phase P)}
    {a : Atomic D P} {t : Turn} (hs : Sim act C s a) (hC : s.Heeds C t)
    (h : (transactions act).step s t = some s') :
    (∃ a', Sim act C s' a') ∧ (s'.committed = s.committed ∨ ∃ pc pc' run busy,
      act pc = .write run busy ∧ run s.committed = .ok (s'.committed, pc')) := by
  obtain ⟨a', -, hs'⟩ := hs.step hC h
  refine ⟨⟨a', hs'⟩, ?_⟩
  rcases hs.commit_cases h with hsame | ⟨k, pc, pc', run, busy, -, -, -, hact, hrun⟩
  · exact .inl hsame
  · exact .inr ⟨pc, pc', run, busy, hact, hrun⟩

/-! ### Following a run -/

section follow

variable {act : P → Action D P} {C : D → P → Prop} {s s' : Sessions D (Phase P)} {a : Atomic D P}

/-- What every write keeps is kept by every run. -/
theorem Sim.rel_of_reach {R : D → D → Prop} (hs : Sim act C s a)
    (h : (transactions act).Reach (Sessions.Heeds C) s s') (hrefl : ∀ db, R db db)
    (htrans : ∀ db₁ db₂ db₃, R db₁ db₂ → R db₂ db₃ → R db₁ db₃)
    (hwrite : ∀ db db' pc pc' run busy, act pc = .write run busy → run db = .ok (db', pc') → R db db') :
    (∃ a', Sim act C s' a') ∧ R s.committed s'.committed := by
  induction h with
  | refl => exact ⟨⟨a, hs⟩, hrefl _⟩
  | tail _ hC hstep ih =>
    obtain ⟨⟨a', hs'⟩, hR⟩ := ih
    obtain ⟨hs'', hsame | ⟨pc, pc', run, busy, hact, hrun⟩⟩ := hs'.committed hC hstep
    · exact ⟨hs'', hsame ▸ hR⟩
    · exact ⟨hs'', htrans _ _ _ hR (hwrite _ _ _ _ _ _ hact hrun)⟩

/-- What is true of the database and of the place of one call, and is kept by what the call does and by the
writes of all calls, is true at the end of a run. -/
theorem Sim.follow (J : D → P → Prop) {k : ℕ} {l : Phase P} (hs : Sim act C s a)
    (h : (transactions act).Reach (Sessions.Heeds C) s s') (hl : s.calls[k]? = some l) (hJ : J s.committed l.pc)
    (hown : ∀ db pc pc', J db pc → (act pc).at? db = some pc' → J db pc')
    (hbusy : ∀ db pc run busy, J db pc → act pc = .write run busy → J db busy)
    (hwrite : ∀ db db' pc pc₁ pc₁' run busy, J db pc → act pc₁ = .write run busy → run db = .ok (db', pc₁') →
      J db' pc) :
    ∃ l', s'.calls[k]? = some l' ∧ J s'.committed l'.pc := by
  suffices hall : ∃ a' l', Sim act C s' a' ∧ s'.calls[k]? = some l' ∧ J s'.committed l'.pc by
    obtain ⟨-, l', -, hl', hJ'⟩ := hall
    exact ⟨l', hl', hJ'⟩
  induction h with
  | refl => exact ⟨a, l, hs, hl, hJ⟩
  | @tail s₁ s₂ t _ hC hstep ih =>
    obtain ⟨a₁, l₁, hs₁, hl₁, hJ₁⟩ := ih
    obtain ⟨⟨a₂, hs₂⟩, hdb⟩ := hs₁.committed hC hstep
    -- What is committed may change under the call, wherever the call is.
    have hunder : ∀ pc, J s₁.committed pc → J s₂.committed pc := by
      intro pc hpc
      rcases hdb with hsame | ⟨pc₁, pc₁', run, busy, hact, hrun⟩
      · rw [hsame]
        exact hpc
      · exact hwrite _ _ _ _ _ _ _ hpc hact hrun
    by_cases hk : t.call = k
    · subst hk
      obtain ⟨l₂, hl₂, hsame | ⟨pc, rfl, hat | ⟨run, hact⟩⟩⟩ := hs₁.place_of_step hstep hl₁
      · exact ⟨a₂, l₂, hs₂, hl₂, hunder _ (hsame ▸ hJ₁)⟩
      · exact ⟨a₂, l₂, hs₂, hl₂, hunder _ (hown _ _ _ hJ₁ hat)⟩
      · exact ⟨a₂, l₂, hs₂, hl₂, hunder _ (hbusy _ _ _ _ hJ₁ hact)⟩
    · exact ⟨a₂, l₁, hs₂, (Sessions.getElem?_of_step hstep hk).trans hl₁, hunder _ hJ₁⟩

/-- The same of a family, of a call that begins with a request. -/
theorem Sim.follow_request {R : Type*} {act : R → P → Action D P} {C : D → R × P → Prop}
    {s s' : Sessions D (Phase (R × P))} {a : Atomic D (R × P)} (J : D → P → Prop) {k : ℕ} {r : R} {p : P}
    (hs : Sim (tagged act) C s a) (h : (transactions (tagged act)).Reach (Sessions.Heeds C) s s')
    (hk : s.calls[k]? = some (.run (r, p))) (hJ : J s.committed p)
    (hown : ∀ db p p', J db p → (act r p).at? db = some p' → J db p')
    (hbusy : ∀ db p run busy, J db p → act r p = .write run busy → J db busy)
    (hwrite : ∀ db db' p r₁ p₁ p₁' run busy, J db p → act r₁ p₁ = .write run busy → run db = .ok (db', p₁') →
      J db' p) :
    ∃ l p', s'.calls[k]? = some l ∧ l.pc = (r, p') ∧ J s'.committed p' := by
  have hall : ∃ l, s'.calls[k]? = some l ∧ l.pc.1 = r ∧ J s'.committed l.pc.2 := by
    refine hs.follow (fun db c => c.1 = r ∧ J db c.2) h hk ⟨rfl, hJ⟩ ?_ ?_ ?_
    · rintro db ⟨r₀, p₀⟩ c ⟨rfl, hp₀⟩ hat
      unfold tagged at hat
      rw [Action.map_eq_zoom, Action.at?_zoom, Option.map_eq_some_iff] at hat
      obtain ⟨p', hat, rfl⟩ := hat
      exact ⟨rfl, hown _ _ _ hp₀ hat⟩
    · rintro db ⟨r₀, p₀⟩ run busy ⟨rfl, hp₀⟩ hact
      obtain ⟨run', busy', hact', rfl, -⟩ := tagged_eq_write hact
      exact ⟨rfl, hbusy _ _ _ _ hp₀ hact'⟩
    · rintro db db' ⟨r₀, p₀⟩ ⟨r₁, p₁⟩ c run busy ⟨rfl, hp₀⟩ hact hrun
      obtain ⟨run', busy', hact', -, hok, -⟩ := tagged_eq_write hact
      obtain ⟨p₁', -, hrun'⟩ := hok _ _ _ hrun
      exact ⟨rfl, hwrite _ _ _ _ _ _ _ _ hp₀ hact' hrun'⟩
  obtain ⟨l, hl, hr, hJ'⟩ := hall
  exact ⟨l, l.pc.2, hl, by rw [← hr], hJ'⟩

end follow

end Cabin
