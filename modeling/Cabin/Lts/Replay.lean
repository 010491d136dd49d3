import Mathlib.Data.List.Induction

/-!
# Logs that justify themselves

A log of entries is replayed by a function that says what one entry does to what is known so far.  A log is
justified if each entry is permitted by what the entries in front of it come to; this is kept by appending an
entry that is permitted now, and it says something of each entry, wherever it stands.

* `replay` is what a log comes to, `Justified` says that each entry was permitted;
* `justified_concat` : the rule for appending one entry;
* `permits_of_justified` : what it says of the entries.
-/

namespace Cabin

variable {L E : Type*} (next : L → E → L) (permits : L → E → Prop)

/-- What a log comes to. -/
def replay (l : L) (log : List E) : L := log.foldl next l

/-- Each entry is permitted by what the entries in front of it come to. -/
def Justified : L → List E → Prop
  | _, [] => True
  | l, e :: log => permits l e ∧ Justified (next l e) log

variable {next permits} {l : L} {log rest : List E} {e : E}

@[simp] theorem replay_nil : replay next l [] = l := rfl

@[simp] theorem replay_cons : replay next l (e :: log) = replay next (next l e) log := rfl

@[simp] theorem replay_append : replay next l (log ++ rest) = replay next (replay next l log) rest := List.foldl_append

theorem justified_append : Justified next permits l (log ++ rest) ↔
    Justified next permits l log ∧ Justified next permits (replay next l log) rest := by
  induction log generalizing l with
  | nil => simp [Justified]
  | cons e log ih => simp only [List.cons_append, Justified, ih, replay_cons, and_assoc]

/-- An entry may be appended if it is permitted now. -/
theorem justified_concat : Justified next permits l (log ++ [e]) ↔
    Justified next permits l log ∧ permits (replay next l log) e := by
  rw [justified_append]
  simp only [Justified, and_true]

/-- Each entry of a justified log was permitted when it was appended. -/
theorem permits_of_justified (h : Justified next permits l (log ++ e :: rest)) : permits (replay next l log) e :=
  (justified_append.1 h).2.1

end Cabin
