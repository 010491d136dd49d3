import Mathlib.Data.List.Forall2
import Mathlib.Tactic.SplitIfs

/-!
# Programs that raise

A function that may raise is a computation in `Except ε`.  Its body is a sequence of `refuse`
(raise if a condition holds) and of calls that may raise themselves; the two lemmas `bind_eq_ok`
and `refuse_eq_ok` turn "it returned `b`" into the list of everything that went well on the way.
`mem_of_mapM_eq_ok` and `foldlM_eq_some` do the same for loops.  `Raises` is about what a body raises.
-/

namespace Cabin

variable {ε : Type*} {α β : Type}

/-- Raise `e` if the condition holds. -/
def refuse (c : Prop) [Decidable c] (e : ε) : Except ε Unit := if c then .error e else .ok ()

@[simp] theorem refuse_eq_ok {c : Prop} [Decidable c] {e : ε} {u : Unit} :
    refuse c e = .ok u ↔ ¬ c := by
  unfold refuse
  split_ifs with h <;> simp [h]

theorem refuse_eq_error {c : Prop} [Decidable c] {e e' : ε} :
    refuse c e = .error e' ↔ c ∧ e = e' := by
  unfold refuse
  split_ifs with h <;> simp [h]

theorem bind_eq_ok {x : Except ε α} {f : α → Except ε β} {b : β} :
    (x >>= f) = .ok b ↔ ∃ a, x = .ok a ∧ f a = .ok b := by
  cases x with
  | error e => simp [bind, Except.bind]
  | ok a => simp [bind, Except.bind]

instance decidableForallOk {x : Except ε α} {Q : α → Prop} [∀ a, Decidable (Q a)] :
    Decidable (∀ a, x = .ok a → Q a) :=
  match x with
  | .ok a => decidable_of_iff (Q a) ⟨fun h _ ha => Except.ok.inj ha ▸ h, fun h => h a rfl⟩
  | .error _ => .isTrue nofun

theorem toOption_eq_some {x : Except ε α} {a : α} : x.toOption = some a ↔ x = .ok a := by
  cases x with
  | error e => simp [Except.toOption]
  | ok b => simp [Except.toOption]

theorem bind_eq_error {x : Except ε α} {f : α → Except ε β} {e : ε} :
    (x >>= f) = .error e ↔ x = .error e ∨ ∃ a, x = .ok a ∧ f a = .error e := by
  cases x with
  | error e' => simp [bind, Except.bind]
  | ok a => simp [bind, Except.bind]

@[simp] theorem pure_eq_ok {a b : α} : (pure a : Except ε α) = .ok b ↔ a = b := by
  simp [pure, Except.pure]

/-- What a loop returns, element by element. -/
theorem forall₂_of_mapM_eq_ok {f : α → Except ε β} {xs : List α} {ys : List β}
    (h : xs.mapM f = .ok ys) : List.Forall₂ (fun x y => f x = .ok y) xs ys := by
  induction xs generalizing ys with
  | nil =>
    rw [List.mapM_nil, pure_eq_ok] at h
    subst h
    exact .nil
  | cons x xs ih =>
    rw [List.mapM_cons, bind_eq_ok] at h
    obtain ⟨y, hy, h⟩ := h
    rw [bind_eq_ok] at h
    obtain ⟨zs, hzs, h⟩ := h
    obtain rfl := pure_eq_ok.1 h
    exact .cons hy (ih hzs)

/-- A call on every element returns, so it returns on each. -/
theorem mem_of_mapM_eq_ok {f : α → Except ε β} {xs : List α} {ys : List β}
    (h : xs.mapM f = .ok ys) :
    (∀ y ∈ ys, ∃ x ∈ xs, f x = .ok y) ∧ ∀ x ∈ xs, ∃ y ∈ ys, f x = .ok y := by
  have hall := forall₂_of_mapM_eq_ok h
  clear h
  induction hall with
  | nil => simp
  | @cons x y xs ys hy _ ih =>
    obtain ⟨hback, hforth⟩ := ih
    refine ⟨fun z hz => ?_, fun w hw => ?_⟩
    · rcases List.mem_cons.1 hz with rfl | hz
      · exact ⟨x, List.mem_cons_self, hy⟩
      · obtain ⟨w, hw, he⟩ := hback z hz
        exact ⟨w, List.mem_cons_of_mem _ hw, he⟩
    · rcases List.mem_cons.1 hw with rfl | hw
      · exact ⟨y, List.mem_cons_self, hy⟩
      · obtain ⟨z, hz, he⟩ := hforth w hw
        exact ⟨z, List.mem_cons_of_mem _ hz, he⟩

/-- `try` and `except`: an exception that is caught becomes a value. -/
def catching {ε α : Type} (caught : ε → Bool) (x : Except ε α) : Except ε (Except ε α) :=
  match x with
  | .ok a => .ok (.ok a)
  | .error e => if caught e then .ok (.error e) else .error e

/-! ### What is raised -/

/-- Whatever is raised, it is one of `Q`. -/
def Raises (Q : ε → Prop) (x : Except ε α) : Prop := ∀ e, x = .error e → Q e

section raises

variable {Q : ε → Prop}

instance [DecidablePred Q] (x : Except ε α) : Decidable (Raises Q x) :=
  match x with
  | .ok _ => .isTrue nofun
  | .error e => decidable_of_iff (Q e) ⟨fun h _ he => Except.error.inj he ▸ h, fun h => h e rfl⟩

theorem raises_ok {a : α} : Raises Q (.ok a) := fun _ h => nomatch h

theorem raises_pure {a : α} : Raises Q (pure a : Except ε α) := raises_ok

theorem raises_error_iff {e : ε} : Raises Q (.error e : Except ε α) ↔ Q e := by
  refine ⟨fun h => h e rfl, fun h => ?_⟩
  rintro e' ⟨⟩
  exact h

theorem raises_error {e : ε} (h : Q e) : Raises Q (.error e : Except ε α) := raises_error_iff.2 h

theorem raises_refuse_iff {c : Prop} [Decidable c] {e : ε} :
    Raises Q (refuse c e) ↔ (c → Q e) := by
  unfold Raises
  simp only [refuse_eq_error]
  exact ⟨fun h hc => h e ⟨hc, rfl⟩, fun h e' he => he.2 ▸ h he.1⟩

theorem raises_refuse {c : Prop} [Decidable c] {e : ε} (h : Q e) : Raises Q (refuse c e) :=
  raises_refuse_iff.2 fun _ => h

/-- A sequence raises what its first part does, or, if that returns, what its second part does. -/
theorem raises_bind_iff {x : Except ε α} {f : α → Except ε β} :
    Raises Q (x >>= f) ↔ Raises Q x ∧ ∀ a, x = .ok a → Raises Q (f a) := by
  unfold Raises
  simp only [bind_eq_error]
  constructor
  · intro h
    exact ⟨fun e he => h e (.inl he), fun a ha e he => h e (.inr ⟨a, ha, he⟩)⟩
  · rintro ⟨hx, hf⟩ e (he | ⟨a, ha, he⟩)
    · exact hx e he
    · exact hf a ha e he

theorem raises_bind {x : Except ε α} {f : α → Except ε β} (hx : Raises Q x)
    (hf : ∀ a, x = .ok a → Raises Q (f a)) : Raises Q (x >>= f) := raises_bind_iff.2 ⟨hx, hf⟩

/-- If the first part raises nothing else, all depends on the second. -/
theorem raises_bind_right {x : Except ε α} {f : α → Except ε β} (hx : Raises Q x) :
    Raises Q (x >>= f) ↔ ∀ a, x = .ok a → Raises Q (f a) := by
  rw [raises_bind_iff, and_iff_right hx]

/-- If the second part raises nothing else, all depends on the first. -/
theorem raises_bind_left {x : Except ε α} {f : α → Except ε β} (hf : ∀ a, Raises Q (f a)) :
    Raises Q (x >>= f) ↔ Raises Q x := by
  rw [raises_bind_iff, and_iff_left fun a _ => hf a]

theorem raises_refuse_bind {c : Prop} [Decidable c] {e : ε} {f : Unit → Except ε β} (he : Q e) :
    Raises Q (refuse c e >>= f) ↔ (¬ c → Raises Q (f ())) := by
  rw [raises_bind_right (raises_refuse he)]
  simp only [refuse_eq_ok]
  exact ⟨fun h hc => h () hc, fun h _ hc => h hc⟩

theorem raises_mapM {f : α → Except ε β} {xs : List α} (h : ∀ x ∈ xs, Raises Q (f x)) :
    Raises Q (xs.mapM f) := by
  induction xs with
  | nil => exact raises_pure
  | cons x xs ih =>
    rw [List.mapM_cons]
    refine raises_bind (h x List.mem_cons_self) fun y _ => ?_
    refine raises_bind (ih fun z hz => h z (List.mem_cons_of_mem _ hz)) fun ys _ => ?_
    exact raises_pure

theorem raises_forM {f : α → Except ε PUnit} {xs : List α} (h : ∀ x ∈ xs, Raises Q (f x)) :
    Raises Q (xs.forM f) := by
  induction xs with
  | nil => exact raises_pure
  | cons x xs ih =>
    exact raises_bind (h x List.mem_cons_self) fun _ _ => ih fun z hz => h z (List.mem_cons_of_mem _ hz)

end raises

theorem raises_mono {Q Q' : ε → Prop} {x : Except ε α} (h : ∀ e, Q e → Q' e) (hx : Raises Q x) :
    Raises Q' x := fun e he => h e (hx e he)

theorem catching_of_raises {ε α : Type} {caught : ε → Bool} {x : Except ε α}
    (h : Raises (caught · = true) x) : catching caught x = .ok x := by
  cases x with
  | error e => rw [catching, if_pos (h e rfl)]
  | ok a => rfl

/-- A program that raises nothing of `Q` keeps to `Q` only by returning. -/
theorem raises_iff_ok {Q : ε → Prop} {x : Except ε α} (h : Raises (fun e => ¬ Q e) x) :
    Raises Q x ↔ ∃ a, x = .ok a := by
  cases x with
  | error e => simpa [raises_error_iff] using raises_error_iff.1 h
  | ok a => exact ⟨fun _ => ⟨a, rfl⟩, fun _ => raises_ok⟩

/-! ### Two programs -/

/-- Both raise the same, or both return, and what they return is related. -/
def Agree (R : α → β → Prop) : Except ε α → Except ε β → Prop
  | .ok a, .ok b => R a b
  | .error e, .error e' => e = e'
  | _, _ => False

section agree

variable {γ δ : Type} {R : α → β → Prop} {S : γ → δ → Prop}

theorem agree_bind {x : Except ε α} {y : Except ε β} {f : α → Except ε γ} {g : β → Except ε δ}
    (h : Agree R x y) (hfg : ∀ a b, x = .ok a → y = .ok b → R a b → Agree S (f a) (g b)) :
    Agree S (x >>= f) (y >>= g) := by
  cases x with
  | error e =>
    cases y with
    | error e' => exact h
    | ok b => exact h.elim
  | ok a =>
    cases y with
    | error e' => exact h.elim
    | ok b => exact hfg a b rfl rfl h

/-- Two programs that begin the same agree if they agree from then on. -/
theorem agree_bind_self {x : Except ε α} {f : α → Except ε γ} {g : α → Except ε δ}
    (h : ∀ a, x = .ok a → Agree S (f a) (g a)) : Agree S (x >>= f) (x >>= g) := by
  cases x with
  | error e => rfl
  | ok a => exact h a rfl

/-- If the second parts always agree, and raise nothing that the first parts do, all depends on the
first parts. -/
theorem agree_bind_iff {Q : ε → Prop} {x : Except ε α} {y : Except ε β} {f : α → Except ε γ}
    {g : β → Except ε δ} (hx : Raises Q x) (hy : Raises Q y)
    (hf : ∀ a, Raises (fun e => ¬ Q e) (f a)) (hg : ∀ b, Raises (fun e => ¬ Q e) (g b))
    (hfg : ∀ a b, Agree S (f a) (g b)) :
    Agree S (x >>= f) (y >>= g) ↔ Agree (fun _ _ => True) x y := by
  refine ⟨fun h => ?_, fun h => agree_bind h fun a b _ _ _ => hfg a b⟩
  cases hxa : x with
  | error e =>
    cases hyb : y with
    | error e' =>
      rw [hxa, hyb] at h
      exact h
    | ok b =>
      rw [hxa, hyb] at h
      cases hgb : g b with
      | error e' =>
        have heq : e = e' := by simpa [bind, Except.bind, hgb, Agree] using h
        exact absurd (hx e hxa) (heq ▸ hg b e' hgb)
      | ok v => simp [bind, Except.bind, hgb, Agree] at h
  | ok a =>
    cases hyb : y with
    | error e' =>
      rw [hxa, hyb] at h
      cases hfa : f a with
      | error e =>
        have heq : e = e' := by simpa [bind, Except.bind, hfa, Agree] using h
        exact absurd (hy e' hyb) (heq ▸ hf a e hfa)
      | ok v => simp [bind, Except.bind, hfa, Agree] at h
    | ok b => trivial

end agree

/-- The first does what the second does, unless it raises an error of `P`. -/
def EqUnless (P : ε → Prop) (x y : Except ε α) : Prop := x = y ∨ ∃ e, P e ∧ x = .error e

section eqUnless

variable {P : ε → Prop}

theorem eqUnless_error {e : ε} {y : Except ε α} (h : P e) : EqUnless P (.error e) y := .inr ⟨e, h, rfl⟩

theorem eqUnless_bind {x y : Except ε α} {f g : α → Except ε β} (h : EqUnless P x y)
    (hfg : ∀ a, x = .ok a → EqUnless P (f a) (g a)) : EqUnless P (x >>= f) (y >>= g) := by
  rcases h with rfl | ⟨e, he, rfl⟩
  · cases x with
    | ok a => exact hfg a rfl
    | error e => exact .inl rfl
  · exact .inr ⟨e, he, rfl⟩

end eqUnless

/-! ### Loops -/

/-- A loop that raises does so at some element. -/
theorem exists_of_mapM_eq_error {f : α → Except ε β} {xs : List α} {e : ε}
    (h : xs.mapM f = .error e) : ∃ x ∈ xs, f x = .error e := by
  induction xs with
  | nil => cases h
  | cons x xs ih =>
    rw [List.mapM_cons, bind_eq_error] at h
    rcases h with h | ⟨y, -, h⟩
    · exact ⟨x, List.mem_cons_self, h⟩
    · rw [bind_eq_error] at h
      rcases h with h | ⟨ys, -, h⟩
      · obtain ⟨z, hz, he⟩ := ih h
        exact ⟨z, List.mem_cons_of_mem _ hz, he⟩
      · cases h

/-- A loop returns if every call does. -/
theorem exists_mapM_eq_ok_iff {f : α → Except ε β} {xs : List α} :
    (∃ ys, xs.mapM f = .ok ys) ↔ ∀ x ∈ xs, ∃ y, f x = .ok y := by
  constructor
  · rintro ⟨ys, hys⟩ x hx
    obtain ⟨y, -, hy⟩ := (mem_of_mapM_eq_ok hys).2 x hx
    exact ⟨y, hy⟩
  · intro h
    cases hys : xs.mapM f with
    | ok ys => exact ⟨ys, rfl⟩
    | error e =>
      obtain ⟨x, hx, he⟩ := exists_of_mapM_eq_error hys
      obtain ⟨y, hy⟩ := h x hx
      rw [hy] at he
      cases he

/-- A loop whose calls return what they are given returns what it is given. -/
theorem mapM_eq_ok_self {f : α → Except ε α} {xs : List α} (h : ∀ x ∈ xs, f x = .ok x) :
    xs.mapM f = .ok xs := by
  induction xs with
  | nil => rfl
  | cons x xs ih =>
    rw [List.mapM_cons, h x List.mem_cons_self, ih fun y hy => h y (List.mem_cons_of_mem _ hy)]
    rfl

/-- A loop of checks returns if each of them does. -/
theorem forM_eq_ok {f : α → Except ε PUnit} {xs : List α} :
    xs.forM f = .ok () ↔ ∀ x ∈ xs, f x = .ok () := by
  induction xs with
  | nil => simp [List.forM, pure, Except.pure]
  | cons x xs ih =>
    have hcons : (x :: xs).forM f = (f x >>= fun _ => xs.forM f) := rfl
    rw [hcons, bind_eq_ok, List.forall_mem_cons, ← ih]
    exact ⟨fun ⟨_, hx, hxs⟩ => ⟨hx, hxs⟩, fun ⟨hx, hxs⟩ => ⟨_, hx, hxs⟩⟩

/-- A loop whose steps respect a preorder respects it, and each element has its step. -/
theorem foldlM_eq_some {σ α : Type*} {f : σ → α → Option σ} {R : σ → σ → Prop} {xs : List α}
    {s s' : σ} (hrefl : ∀ a, R a a) (htrans : ∀ a b c, R a b → R b c → R a c)
    (hstep : ∀ a x b, x ∈ xs → f a x = some b → R a b) (h : xs.foldlM f s = some s') :
    R s s' ∧ ∀ x ∈ xs, ∃ a b, R s a ∧ f a x = some b ∧ R b s' := by
  induction xs generalizing s with
  | nil =>
    obtain rfl : s = s' := by simpa using h
    exact ⟨hrefl s, fun x hx => absurd hx List.not_mem_nil⟩
  | cons x xs ih =>
    rw [List.foldlM_cons] at h
    obtain ⟨t, ht, h⟩ := Option.bind_eq_some_iff.1 h
    have hst : R s t := hstep s x t List.mem_cons_self ht
    obtain ⟨hts', heach⟩ := ih (fun a y b hy => hstep a y b (List.mem_cons_of_mem _ hy)) h
    refine ⟨htrans _ _ _ hst hts', fun y hy => ?_⟩
    rcases List.mem_cons.1 hy with rfl | hy
    · exact ⟨s, t, hrefl s, ht, hts'⟩
    · obtain ⟨a, b, hta, hab, hbs'⟩ := heach y hy
      exact ⟨a, b, htrans _ _ _ hst hta, hab, hbs'⟩

end Cabin
