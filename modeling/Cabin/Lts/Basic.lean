import Mathlib.Logic.Relation

/-!
# Machines and their runs

A `Machine` is a partial step function on states, driven by actions: `step s a = none` says that
the action `a` is not possible in `s`.  Sequential programs are machines whose steps always
succeed, concurrent ones are machines whose actions name the party that moves.

* `Machine.run` executes a list of actions;
* `Machine.Reach C s₀ s` : `s` is reached from `s₀` by steps that all meet the condition `C`, a
  condition on the state before the step and the action; `Machine.Reachable` is the unconditional
  case.  A property that only holds of careful runs is stated with a `C` of its own;
* `reach_final` turns an executed list of actions into such a run;
* `Reach.invariant` is the invariant rule, `Reach.rel` its two-state form: a preorder that every
  step respects relates every state of a run to every later one.
-/

namespace Cabin

/-- A machine: what an action does to a state, if it is possible there. -/
structure Machine (σ α : Type*) where
  /-- The state after the action, `none` where the action is not possible. -/
  step : σ → α → Option σ

namespace Machine

variable {σ α : Type*} (M : Machine σ α)

/-- Execute the actions in order. -/
def run : σ → List α → Option σ
  | s, [] => some s
  | s, a :: as => (M.step s a).bind fun s' => run s' as

/-- The state after the actions; where one of them is not possible, the first state. -/
def final (s : σ) (as : List α) : σ := (M.run s as).getD s

/-- States reached from `s₀` by steps that all meet `C`. -/
inductive Reach (C : σ → α → Prop) (s₀ : σ) : σ → Prop
  | refl : Reach C s₀ s₀
  | tail {s s' : σ} {a : α} : Reach C s₀ s → C s a → M.step s a = some s' → Reach C s₀ s'

/-- States reached from `s₀` by any steps. -/
abbrev Reachable (s₀ s : σ) : Prop := M.Reach (fun _ _ => True) s₀ s

/-- The actions `as`, executed from `s`, all meet `C` when their turn comes. -/
def Along (C : σ → α → Prop) : σ → List α → Prop
  | _, [] => True
  | s, a :: as => C s a ∧ (match M.step s a with
    | some s' => Along C s' as
    | none => True)

/-- Whether a list of actions meets a decidable condition. -/
def decidableAlong {C : σ → α → Prop} [∀ s a, Decidable (C s a)] :
    (s : σ) → (as : List α) → Decidable (M.Along C s as)
  | _, [] => isTrue trivial
  | s, a :: as =>
    let _ : Decidable (match M.step s a with
        | some s' => M.Along C s' as
        | none => True) :=
      match M.step s a with
      | some s' => decidableAlong s' as
      | none => isTrue trivial
    inferInstanceAs (Decidable (C s a ∧ _))

instance {C : σ → α → Prop} [∀ s a, Decidable (C s a)] (s : σ) (as : List α) :
    Decidable (M.Along C s as) := M.decidableAlong s as

variable {M} {C D : σ → α → Prop} {s₀ s s' : σ}

theorem run_cons {a : α} {as : List α} :
    M.run s (a :: as) = (M.step s a).bind fun s' => M.run s' as := rfl

namespace Reach

theorem trans (h : M.Reach C s₀ s) (h' : M.Reach C s s') : M.Reach C s₀ s' := by
  induction h' with
  | refl => exact h
  | tail _ hc hs ih => exact .tail ih hc hs

theorem single {a : α} (hc : C s a) (hs : M.step s a = some s') : M.Reach C s s' :=
  .tail .refl hc hs

theorem mono (h : M.Reach C s₀ s) (hcd : ∀ s a, C s a → D s a) : M.Reach D s₀ s := by
  induction h with
  | refl => exact .refl
  | tail _ hc hs ih => exact .tail ih (hcd _ _ hc) hs

/-- What holds initially and is kept by every step that meets `C` holds in every state reached. -/
theorem invariant {I : σ → Prop} (h : M.Reach C s₀ s) (h₀ : I s₀)
    (hstep : ∀ s a s', I s → C s a → M.step s a = some s' → I s') : I s := by
  induction h with
  | refl => exact h₀
  | tail _ hc hs ih => exact hstep _ _ _ ih hc hs

/-- A preorder respected by every step from a state of the invariant `I` relates the first state
of a run to its last. -/
theorem rel {I : σ → Prop} {R : σ → σ → Prop} (h : M.Reach C s₀ s) (h₀ : I s₀)
    (hrefl : ∀ s, R s s) (htrans : ∀ a b c, R a b → R b c → R a c)
    (hinv : ∀ s a s', I s → C s a → M.step s a = some s' → I s')
    (hstep : ∀ s a s', I s → C s a → M.step s a = some s' → R s s') : R s₀ s := by
  induction h with
  | refl => exact hrefl _
  | tail h hc hs ih =>
    exact htrans _ _ _ ih (hstep _ _ _ (h.invariant h₀ hinv) hc hs)

/-- An executed list of actions is a run; the condition is checked along the way. -/
theorem of_run (as : List α) (hc : M.Along C s as) (h : M.run s as = some s') :
    M.Reach C s s' := by
  induction as generalizing s with
  | nil =>
    obtain rfl : s = s' := by simpa [run] using h
    exact .refl
  | cons a as ih =>
    rw [run_cons, Option.bind_eq_some_iff] at h
    obtain ⟨s₁, hs, hr⟩ := h
    have hrest := hc.2
    rw [hs] at hrest
    exact (single hc.1 hs).trans (ih hrest hr)

end Reach

theorem along_true (s : σ) (as : List α) : M.Along (fun _ _ => True) s as := by
  induction as generalizing s with
  | nil => trivial
  | cons a as ih =>
    refine ⟨trivial, ?_⟩
    split
    · exact ih _
    · trivial

/-- The state after a list of actions that meet `C` is reached by steps that meet `C`. -/
theorem reach_final (s : σ) (as : List α) (hc : M.Along C s as) : M.Reach C s (M.final s as) := by
  unfold final
  cases h : M.run s as with
  | none => exact .refl
  | some s' => exact .of_run as hc h

theorem reachable_final (s : σ) (as : List α) : M.Reachable s (M.final s as) :=
  reach_final s as (along_true s as)

end Machine

end Cabin
