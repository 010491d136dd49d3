import Cabin.Store.Sessions

/-!
# A file that is published once

Processes that want one file to exist, each with a text of its own for it.  A process that does not
find the file writes its text to a temporary file, links that file to the name, unless the name is
taken by then, and removes the temporary name.  In the end everybody reads what the name stands for.

A name stands for a file, and a file has a content: a link is a second name for one file.  A text is
written one character at a time.

* `Publisher.step` is one step of a process, `publishers` all processes at once, in any order;
* `published` : under the name there is never anything but a complete text of one of the processes;
* `published_of_reach` : it never changes;
* `eq_of_returned` : all processes read the same text.
-/

namespace Cabin

variable {N α : Type*}

/-- A directory, and the files in it. -/
structure Files (N α : Type*) where
  /-- The file that a name stands for. -/
  entry : N → Option ℕ
  /-- The contents of the files. -/
  data : List (List α)

namespace Files

/-- A name stands for a file from now on, or for none. -/
def bind [DecidableEq N] (fs : Files N α) (n : N) (file : Option ℕ) : Files N α :=
  { fs with entry := fun m => if m = n then file else fs.entry m }

/-- Create an empty file under a name that is free. -/
def create [DecidableEq N] (fs : Files N α) (n : N) : Files N α :=
  ⟨fun m => if m = n then some fs.data.length else fs.entry m, fs.data ++ [[]]⟩

/-- Write one character to the end of a file. -/
def append (fs : Files N α) (file : ℕ) (a : α) : Files N α :=
  { fs with data := fs.data.modify file (· ++ [a]) }

/-- Link a second name to the file of the first, unless the second is taken. -/
def link [DecidableEq N] (fs : Files N α) (old new : N) : Files N α :=
  if (fs.entry new).isSome then fs else fs.bind new (fs.entry old)

section fields

variable [DecidableEq N] {fs : Files N α} {m n : N}

@[simp] theorem data_bind {file : Option ℕ} : (fs.bind n file).data = fs.data := rfl

@[simp] theorem entry_bind_self {file : Option ℕ} : (fs.bind n file).entry n = file := if_pos rfl

theorem entry_bind_of_ne {file : Option ℕ} (h : m ≠ n) : (fs.bind n file).entry m = fs.entry m :=
  if_neg h

@[simp] theorem data_create : (fs.create n).data = fs.data ++ [[]] := rfl

@[simp] theorem entry_create_self : (fs.create n).entry n = some fs.data.length := if_pos rfl

theorem entry_create_of_ne (h : m ≠ n) : (fs.create n).entry m = fs.entry m := if_neg h

end fields

@[simp] theorem entry_append {fs : Files N α} {file : ℕ} {a : α} :
    (fs.append file a).entry = fs.entry := rfl

@[simp] theorem data_append {fs : Files N α} {file : ℕ} {a : α} :
    (fs.append file a).data = fs.data.modify file (· ++ [a]) := rfl

end Files

/-- Where a process is. -/
inductive Publisher (N α : Type*)
  /-- About to look whether the file is there. -/
  | check (text : List α)
  /-- About to create a temporary file. -/
  | create (text : List α)
  /-- About to write the rest of the text. -/
  | write (text : List α) (tmp : N) (file : ℕ) (rest : List α)
  /-- About to link the temporary file. -/
  | link (text : List α) (tmp : N) (file : ℕ)
  /-- About to remove the temporary name. -/
  | unlink (tmp : N)
  /-- About to open the file. -/
  | opens
  /-- About to read it. -/
  | read (file : ℕ)
  /-- The process has read this. -/
  | returned (text : List α)
  /-- There was no file to open. -/
  | missing

/-- All processes and their directory. -/
structure Publishers (N α : Type*) where
  /-- The directory. -/
  files : Files N α
  /-- The processes. -/
  calls : List (Publisher N α)

namespace Publisher

/-- One step of a process; `n` is the name it gets for a temporary file. -/
def step [DecidableEq N] (target n : N) (fs : Files N α) : Publisher N α → Option (Files N α × Publisher N α)
  | check text => some (fs, if (fs.entry target).isSome then opens else create text)
  | create text =>
    -- A temporary file has a name that is free, and not that of the file itself.
    if n = target ∨ (fs.entry n).isSome then none
    else some (fs.create n, write text n fs.data.length text)
  | write text tmp file [] => some (fs, link text tmp file)
  | write text tmp file (a :: rest) => some (fs.append file a, write text tmp file rest)
  | link _ tmp _ => some (fs.link tmp target, unlink tmp)
  | unlink tmp => some (fs.bind tmp none, opens)
  | opens => some (fs, match fs.entry target with
    | some file => read file
    | none => missing)
  | read file => some (fs, match fs.data[file]? with
    | some text => returned text
    | none => missing)
  | returned _ => none
  | missing => none

/-- The process is over. -/
def isOver : Publisher N α → Bool
  | returned _ => true
  | missing => true
  | _ => false

/-- How many steps are left, at most. -/
def left : Publisher N α → ℕ
  | check text => text.length + 7
  | create text => text.length + 6
  | write _ _ _ rest => rest.length + 5
  | link _ _ _ => 4
  | unlink _ => 3
  | opens => 2
  | read _ => 1
  | returned _ => 0
  | missing => 0

end Publisher

/-- Any number of processes; an action names the process, and a name for a temporary file. -/
def publishers [DecidableEq N] (target : N) : Machine (Publishers N α) (ℕ × N) where
  step w a := w.calls[a.1]?.bind fun pc => (pc.step target a.2 w.files).map fun r =>
    ⟨r.1, w.calls.set a.1 r.2⟩

/-- No process has done anything. -/
def Publishers.start (fs : Files N α) (texts : List (List α)) : Publishers N α :=
  ⟨fs, texts.map .check⟩

/-! ### The invariant -/

namespace Publisher

/-- The temporary name of a process. -/
def tmp : Publisher N α → Option N
  | write _ tmp _ _ => some tmp
  | link _ tmp _ => some tmp
  | unlink tmp => some tmp
  | _ => none

/-- The temporary file of a process. -/
def file : Publisher N α → Option ℕ
  | write _ _ file _ => some file
  | link _ _ file => some file
  | _ => none

/-- The file that a process still writes. -/
def writes : Publisher N α → Option ℕ
  | write _ _ file _ => some file
  | _ => none

/-- The file that a process is about to link. -/
def links : Publisher N α → Option ℕ
  | link _ _ file => some file
  | _ => none

theorem file_of_links {pc : Publisher N α} {f : ℕ} (h : pc.links = some f) : pc.file = some f := by
  cases pc with
  | link => exact h
  | _ => cases h

theorem file_of_writes {pc : Publisher N α} {f : ℕ} (h : pc.writes = some f) : pc.file = some f := by
  cases pc with
  | write => exact h
  | _ => cases h

/-- What a process relies on: its temporary name stands for its file, which has the part of its text
that is written and which nobody can see under the target yet; and once it has been past the link,
the target is there. -/
def Good (target : N) (texts : List (List α)) (fs : Files N α) : Publisher N α → Prop
  | check text => text ∈ texts
  | create text => text ∈ texts
  | write text tmp file rest => text ∈ texts ∧ tmp ≠ target ∧ fs.entry tmp = some file ∧
      fs.entry target ≠ some file ∧ ∃ done, fs.data[file]? = some done ∧ done ++ rest = text
  | link text tmp file => text ∈ texts ∧ tmp ≠ target ∧ fs.entry tmp = some file ∧
      fs.data[file]? = some text
  | unlink tmp => tmp ≠ target ∧ (fs.entry tmp).isSome ∧ (fs.entry target).isSome
  | opens => (fs.entry target).isSome
  | read file => fs.entry target = some file
  | returned text => ∃ file, fs.entry target = some file ∧ fs.data[file]? = some text
  | missing => False

/-- Two processes have their own temporary names and files. -/
structure Apart (pc pc₂ : Publisher N α) : Prop where
  tmp : ∀ n, pc.tmp = some n → pc₂.tmp ≠ some n
  file : ∀ f, pc.file = some f → pc₂.file ≠ some f

theorem Apart.symm {pc pc₂ : Publisher N α} (h : Apart pc pc₂) : Apart pc₂ pc :=
  ⟨fun n h₂ h₁ => h.tmp n h₁ h₂, fun f h₂ h₁ => h.file f h₁ h₂⟩

/-- What a step of a process can do to the files of others. -/
structure Touches (target : N) (pc : Publisher N α) (fs fs' : Files N α) : Prop where
  names : ∀ m, m ≠ target → pc.tmp ≠ some m → (fs.entry m).isSome → fs'.entry m = fs.entry m
  kept : ∀ f, fs.entry target = some f → fs'.entry target = some f
  made : ∀ f, fs'.entry target = some f → fs.entry target = some f ∨ pc.links = some f
  data : ∀ f text, pc.writes ≠ some f → fs.data[f]? = some text → fs'.data[f]? = some text

theorem Touches.refl (target : N) (pc : Publisher N α) (fs : Files N α) : Touches target pc fs fs :=
  ⟨fun _ _ _ _ => rfl, fun _ h => h, fun _ h => .inl h, fun _ _ _ h => h⟩

theorem touches_append {target : N} {pc : Publisher N α} {fs : Files N α} {f : ℕ} (a : α)
    (hpc : pc.writes = some f) : Touches target pc fs (fs.append f a) := by
  refine ⟨fun _ _ _ _ => rfl, fun _ h => h, fun _ h => .inl h, fun g text hg h => ?_⟩
  have hfg : f ≠ g := by
    rintro rfl
    exact hg hpc
  rw [Files.data_append, List.getElem?_modify_ne _ _ hfg]
  exact h

section good

variable {target n : N} {texts : List (List α)} {fs fs' : Files N α} {pc pc₂ : Publisher N α}

/-- Nobody writes what is under the target. -/
theorem Good.not_writes {f : ℕ} (h : Good target texts fs pc) (hf : fs.entry target = some f) :
    pc.writes ≠ some f := by
  cases pc with
  | write text tmp file rest =>
    rintro ⟨⟩
    exact h.2.2.2.1 hf
  | _ => exact nofun

/-- What is linked is complete. -/
theorem Good.links {f : ℕ} (h : Good target texts fs pc) (hf : pc.links = some f) :
    ∃ text ∈ texts, fs.data[f]? = some text ∧ pc.writes = none := by
  cases pc with
  | link text tmp file =>
    obtain rfl := Option.some.inj hf
    exact ⟨text, h.1, h.2.2.2, rfl⟩
  | _ => cases hf

theorem Good.isSome_tmp (h : Good target texts fs pc) (hn : pc.tmp = some n) :
    (fs.entry n).isSome := by
  cases pc with
  | write | link =>
    obtain rfl := Option.some.inj hn
    simp [h.2.2.1]
  | unlink =>
    obtain rfl := Option.some.inj hn
    exact h.2.1
  | _ => cases hn

theorem Good.file_lt {f : ℕ} (h : Good target texts fs pc) (hf : pc.file = some f) :
    f < fs.data.length := by
  cases pc with
  | write =>
    obtain rfl := Option.some.inj hf
    obtain ⟨-, -, -, -, done, hdone, -⟩ := h
    exact (List.getElem?_eq_some_iff.1 hdone).1
  | link =>
    obtain rfl := Option.some.inj hf
    exact (List.getElem?_eq_some_iff.1 h.2.2.2).1
  | _ => cases hf

/-- What a process relies on is kept by the others. -/
theorem Good.frame (h : Good target texts fs pc₂) (hgood : Good target texts fs pc)
    (ht : Touches target pc fs fs') (hapart : Apart pc pc₂) : Good target texts fs' pc₂ := by
  have htarget : (fs.entry target).isSome → (fs'.entry target).isSome := by
    intro hsome
    obtain ⟨f, hf⟩ := Option.isSome_iff_exists.1 hsome
    simp [ht.kept f hf]
  -- The files of the process are not written by the other.
  have hdata : ∀ f text, pc₂.file = some f → fs.data[f]? = some text → fs'.data[f]? = some text :=
    fun f text hf => ht.data f text fun hw => hapart.file f (file_of_writes hw) hf
  cases pc₂ with
  | check | create => exact h
  | write text tmp file rest =>
    obtain ⟨htext, hne, hentry, hnot, done, hdone, heq⟩ := h
    refine ⟨htext, hne, ?_, fun hnew => ?_, done, hdata file done rfl hdone, heq⟩
    · rw [ht.names tmp hne (fun hp => hapart.tmp tmp hp rfl) (by simp [hentry])]
      exact hentry
    · rcases ht.made file hnew with hold | hlinks
      · exact hnot hold
      · exact hapart.file file (file_of_links hlinks) rfl
  | link text tmp file =>
    obtain ⟨htext, hne, hentry, htextAt⟩ := h
    refine ⟨htext, hne, ?_, hdata file text rfl htextAt⟩
    rw [ht.names tmp hne (fun hp => hapart.tmp tmp hp rfl) (by simp [hentry])]
    exact hentry
  | unlink tmp =>
    obtain ⟨hne, hentry, hsome⟩ := h
    refine ⟨hne, ?_, htarget hsome⟩
    rw [ht.names tmp hne (fun hp => hapart.tmp tmp hp rfl) hentry]
    exact hentry
  | opens => exact htarget h
  | read file => exact ht.kept file h
  | returned text =>
    obtain ⟨f, hf, htextAt⟩ := h
    exact ⟨f, ht.kept f hf, ht.data f text (hgood.not_writes hf) htextAt⟩
  | missing => exact h

end good

section step

variable [DecidableEq N] {target n : N} {texts : List (List α)} {fs fs' : Files N α}
  {pc pc' pc₂ : Publisher N α}

theorem touches_create (hn : ¬ (n = target ∨ (fs.entry n).isSome)) :
    Touches target pc fs (fs.create n) := by
  obtain ⟨hne, hfree⟩ := not_or.1 hn
  have htarget : (fs.create n).entry target = fs.entry target :=
    Files.entry_create_of_ne (Ne.symm hne)
  refine ⟨fun m _ _ hm => Files.entry_create_of_ne ?_, fun f h => htarget.trans h,
    fun f h => .inl (htarget.symm.trans h), fun f text _ h => ?_⟩
  · rintro rfl
    exact hfree hm
  · rw [Files.data_create, List.getElem?_append_left (List.getElem?_eq_some_iff.1 h).1]
    exact h

theorem touches_link {tmp : N} {f : ℕ} (hentry : fs.entry tmp = some f) (hpc : pc.links = some f) :
    Touches target pc fs (fs.link tmp target) := by
  unfold Files.link
  split_ifs with htarget
  · exact .refl target pc fs
  · refine ⟨fun m hm _ _ => Files.entry_bind_of_ne hm, fun g h => ?_, fun g h => .inr ?_,
      fun _ _ _ h => h⟩
    · rw [h] at htarget
      exact absurd rfl htarget
    · rw [Files.entry_bind_self, hentry] at h
      rw [hpc, h]

theorem touches_unlink {tmp : N} (hne : tmp ≠ target) (hpc : pc.tmp = some tmp) :
    Touches target pc fs (fs.bind tmp none) := by
  have htarget : (fs.bind tmp none).entry target = fs.entry target :=
    Files.entry_bind_of_ne (Ne.symm hne)
  refine ⟨fun m _ hm _ => Files.entry_bind_of_ne ?_, fun f h => htarget.trans h,
    fun f h => .inl (htarget.symm.trans h), fun _ _ _ h => h⟩
  rintro rfl
  exact hm hpc

/-- **What a step can do to the files of others.** -/
theorem touches_of_step (hgood : Good target texts fs pc)
    (h : pc.step target n fs = some (fs', pc')) : Touches target pc fs fs' := by
  cases pc with
  | check text | opens | read file =>
    cases h
    exact .refl target _ fs
  | create text =>
    simp only [step, Option.ite_none_left_eq_some] at h
    obtain ⟨hn, h⟩ := h
    cases h
    exact touches_create hn
  | write text tmp file rest =>
    cases rest with
    | nil =>
      cases h
      exact .refl target _ fs
    | cons a rest =>
      cases h
      exact touches_append a rfl
  | link text tmp file =>
    cases h
    exact touches_link hgood.2.2.1 rfl
  | unlink tmp =>
    cases h
    exact touches_unlink hgood.1 rfl
  | returned | missing => cases h

/-- What a process relies on holds after its own step. -/
theorem Good.step (hgood : Good target texts fs pc)
    (htarget : ∀ f, fs.entry target = some f → ∃ text ∈ texts, fs.data[f]? = some text)
    (h : pc.step target n fs = some (fs', pc')) : Good target texts fs' pc' := by
  cases pc with
  | check text =>
    cases h
    split_ifs with hsome
    · exact hsome
    · exact hgood
  | create text =>
    simp only [step, Option.ite_none_left_eq_some] at h
    obtain ⟨hn, h⟩ := h
    cases h
    obtain ⟨hne, -⟩ := not_or.1 hn
    refine ⟨hgood, hne, Files.entry_create_self, fun h => ?_, [], by simp, rfl⟩
    rw [Files.entry_create_of_ne (Ne.symm hne)] at h
    -- What is under the target has an older number.
    obtain ⟨text', -, hdata⟩ := htarget _ h
    simp at hdata
  | write text tmp file rest =>
    obtain ⟨htext, hne, hentry, hnot, done, hdone, heq⟩ := hgood
    cases rest with
    | nil =>
      cases h
      rw [List.append_nil] at heq
      exact ⟨htext, hne, hentry, heq ▸ hdone⟩
    | cons a rest =>
      cases h
      exact ⟨htext, hne, hentry, hnot, done ++ [a], by simp [hdone], by simpa using heq⟩
  | link text tmp file =>
    obtain ⟨htext, hne, hentry, htextAt⟩ := hgood
    cases h
    unfold Files.link
    split_ifs with hsome
    · exact ⟨hne, by simp [hentry], hsome⟩
    · refine ⟨hne, ?_, by simp [hentry]⟩
      rw [Files.entry_bind_of_ne hne, hentry]
      rfl
  | unlink tmp =>
    obtain ⟨hne, -, hsome⟩ := hgood
    cases h
    show ((fs.bind tmp none).entry target).isSome
    rw [Files.entry_bind_of_ne (Ne.symm hne)]
    exact hsome
  | opens =>
    cases h
    obtain ⟨f, hf⟩ := Option.isSome_iff_exists.1 hgood
    rw [hf]
    exact hf
  | read file =>
    cases h
    obtain ⟨text, -, hdata⟩ := htarget file hgood
    rw [hdata]
    exact ⟨file, hgood, hdata⟩
  | returned | missing => cases h

/-- A process stays apart from the others: what it creates is new. -/
theorem Apart.step (hapart : Apart pc pc₂) (hgood₂ : Good target texts fs pc₂)
    (h : pc.step target n fs = some (fs', pc')) : Apart pc' pc₂ := by
  cases pc with
  | check text =>
    cases h
    split_ifs <;> exact ⟨nofun, nofun⟩
  | create text =>
    simp only [step, Option.ite_none_left_eq_some] at h
    obtain ⟨hn, h⟩ := h
    cases h
    refine ⟨fun m hm h₂ => ?_, fun f hf h₂ => ?_⟩
    · obtain rfl := Option.some.inj hm
      exact hn (.inr (hgood₂.isSome_tmp h₂))
    · obtain rfl := Option.some.inj hf
      exact absurd (hgood₂.file_lt h₂) (Nat.lt_irrefl _)
  | write text tmp file rest =>
    cases rest with
    | nil =>
      cases h
      exact ⟨hapart.tmp, hapart.file⟩
    | cons a rest =>
      cases h
      exact ⟨hapart.tmp, hapart.file⟩
  | link text tmp file =>
    cases h
    exact ⟨hapart.tmp, nofun⟩
  | unlink tmp =>
    cases h
    exact ⟨nofun, nofun⟩
  | opens =>
    cases h
    split <;> exact ⟨nofun, nofun⟩
  | read file =>
    cases h
    split <;> exact ⟨nofun, nofun⟩
  | returned | missing => cases h

end step

end Publisher

/-! ### Runs -/

open Publisher

/-- The invariant: every process can rely on what it does, no two processes share a temporary file, and
what is under the target is one of the texts. -/
structure Publishers.Inv (target : N) (texts : List (List α)) (w : Publishers N α) : Prop where
  good : ∀ (k : ℕ) (pc : Publisher N α), w.calls[k]? = some pc → Good target texts w.files pc
  apart : ∀ (j k : ℕ) (pc pc₂ : Publisher N α), j ≠ k → w.calls[j]? = some pc →
    w.calls[k]? = some pc₂ → Apart pc pc₂
  target : ∀ f, w.files.entry target = some f → ∃ text ∈ texts, w.files.data[f]? = some text

section runs

variable {target : N} {texts : List (List α)} {w w' : Publishers N α} {a : ℕ × N}

theorem Publishers.Inv.start {fs : Files N α} (h : fs.entry target = none) :
    Inv target texts (.start fs texts) := by
  have hcheck : ∀ (k : ℕ) (pc : Publisher N α), (Publishers.start fs texts).calls[k]? = some pc →
      ∃ text ∈ texts, pc = Publisher.check text := by
    intro k pc hpc
    obtain ⟨text, htext, rfl⟩ := List.mem_map.1 (List.mem_of_getElem? hpc)
    exact ⟨text, htext, rfl⟩
  refine ⟨fun k pc hpc => ?_, fun j k pc pc₂ _ hpc _ => ?_, fun f hf => ?_⟩
  · obtain ⟨text, htext, rfl⟩ := hcheck k pc hpc
    exact htext
  · obtain ⟨text, -, rfl⟩ := hcheck j pc hpc
    exact ⟨nofun, nofun⟩
  · cases h.symm.trans hf

/-- Everybody reads the same text, and it is one of the texts. -/
theorem returned_of_inv {k : ℕ} {text : List α} (hinv : w.Inv target texts)
    (hk : w.calls[k]? = some (.returned text)) :
    text ∈ texts ∧ ∃ f, w.files.entry target = some f ∧ w.files.data[f]? = some text := by
  obtain ⟨f, hf, hdata⟩ := hinv.good k _ hk
  obtain ⟨text', htext', hdata'⟩ := hinv.target f hf
  obtain rfl := Option.some.inj (hdata.symm.trans hdata')
  exact ⟨htext', f, hf, hdata⟩

variable [DecidableEq N]

/-- A step is one of a process. -/
theorem publishers_step (h : (publishers target).step w a = some w') :
    ∃ pc fs' pc', w.calls[a.1]? = some pc ∧ pc.step target a.2 w.files = some (fs', pc') ∧
      w' = ⟨fs', w.calls.set a.1 pc'⟩ := by
  obtain ⟨pc, hpc, h⟩ := Option.bind_eq_some_iff.1 h
  obtain ⟨⟨fs', pc'⟩, hstep, rfl⟩ := Option.map_eq_some_iff.1 h
  exact ⟨pc, fs', pc', hpc, hstep, rfl⟩

theorem Publishers.Inv.step (hinv : Inv target texts w) (h : (publishers target).step w a = some w') :
    Inv target texts w' := by
  obtain ⟨pc, fs', pc', hpc, hstep, rfl⟩ := publishers_step h
  have hgood := hinv.good a.1 pc hpc
  have htouches := touches_of_step hgood hstep
  have hapart : ∀ k pc₂, k ≠ a.1 → w.calls[k]? = some pc₂ → Apart pc pc₂ := fun k pc₂ hk hpc₂ =>
    hinv.apart a.1 k pc pc₂ hk.symm hpc hpc₂
  refine ⟨fun k x hx => ?_, fun j k x y hjk hx hy => ?_, fun f hf => ?_⟩
  · rcases Discipline.getElem?_set_cases hx with ⟨-, rfl⟩ | ⟨hk, hx⟩
    · exact hgood.step hinv.target hstep
    · exact (hinv.good k x hx).frame hgood htouches (hapart k x hk hx)
  · rcases Discipline.getElem?_set_cases hx with ⟨rfl, rfl⟩ | ⟨hj, hold⟩
    · rcases Discipline.getElem?_set_cases hy with ⟨rfl, rfl⟩ | ⟨hk, hy⟩
      · exact absurd rfl hjk
      · exact (hapart k y hk hy).step (hinv.good k y hy) hstep
    · rcases Discipline.getElem?_set_cases hy with ⟨rfl, rfl⟩ | ⟨hk, hy⟩
      · exact ((hapart j x hj hold).step (hinv.good j x hold) hstep).symm
      · exact hinv.apart j k x y hjk hold hy
  · rcases htouches.made f hf with hold | hlinks
    · obtain ⟨text, htext, hdata⟩ := hinv.target f hold
      exact ⟨text, htext, htouches.data f text (hgood.not_writes hold) hdata⟩
    · obtain ⟨text, htext, hdata, hwrites⟩ := hgood.links hlinks
      exact ⟨text, htext, htouches.data f text (by simp [hwrites]) hdata⟩

/-- Under the target there is nothing, or a complete text. -/
theorem published {fs : Files N α} (h₀ : fs.entry target = none)
    (h : (publishers target).Reachable (.start fs texts) w) : w.Inv target texts :=
  h.invariant (.start h₀) fun _ _ _ hinv _ hstep => hinv.step hstep

/-- What is under the target never changes. -/
theorem published_of_reach {f : ℕ} {text : List α} (hinv : w.Inv target texts)
    (h : (publishers target).Reachable w w') (hf : w.files.entry target = some f)
    (htext : w.files.data[f]? = some text) :
    w'.files.entry target = some f ∧ w'.files.data[f]? = some text := by
  have hboth : w'.Inv target texts ∧ w'.files.entry target = some f ∧
      w'.files.data[f]? = some text := by
    refine h.invariant (I := fun w => w.Inv target texts ∧ w.files.entry target = some f ∧
      w.files.data[f]? = some text) ⟨hinv, hf, htext⟩ ?_
    rintro u a u' ⟨hinv, hf, htext⟩ - hstep
    refine ⟨hinv.step hstep, ?_⟩
    obtain ⟨pc, fs', pc', hpc, hmove, rfl⟩ := publishers_step hstep
    have hgood := hinv.good a.1 pc hpc
    have htouches := touches_of_step hgood hmove
    exact ⟨htouches.kept f hf, htouches.data f text (hgood.not_writes hf) htext⟩
  exact hboth.2

/-- A process that is not over can go on, if a name is free, and has fewer steps left then. -/
theorem Publisher.exists_step {n : N} {fs : Files N α} {pc : Publisher N α} (hover : pc.isOver = false)
    (hn : n ≠ target) (hfree : fs.entry n = none) :
    ∃ fs' pc', pc.step target n fs = some (fs', pc') ∧ pc'.left < pc.left := by
  cases pc with
  | check text =>
    refine ⟨_, _, rfl, ?_⟩
    split_ifs <;> simp [left]
  | create text =>
    refine ⟨_, _, if_neg (by simp [hn, hfree]), ?_⟩
    simp [left]
  | write text tmp file rest =>
    cases rest with
    | nil => exact ⟨_, _, rfl, by simp [left]⟩
    | cons a rest => exact ⟨_, _, rfl, by simp [left]⟩
  | link | unlink => exact ⟨_, _, rfl, by simp [left]⟩
  | opens | read =>
    refine ⟨_, _, rfl, ?_⟩
    split <;> simp [left]
  | returned | missing => cases hover

end runs

end Cabin
