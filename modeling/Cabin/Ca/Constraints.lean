import Cabin.Ca.Names

/-!
# Name constraints

The check of a leaf's names against the NameConstraints of its issuer (`ca/leaf.py`,
`check_name_constraints`) beside the meaning of the extension.  The extension is any: an imported
issuer brings its own.

* `Contains`, `Conforms`: what a subtree contains, and what names an extension allows;
* `Unread`: the spellings of a DNS subtree in which the check finds no name;
* `nameConstraints_agree`: the check is right exactly if subtrees in these spellings decide nothing.
-/

namespace Cabin

/-- The address is in the network: of its family, from its first address on as many as its prefix
leaves.  What does not start at a multiple of its size is no network. -/
def IpNetwork.Has : IpNetwork → Ip → Prop
  | v4 n len, .v4 a => 2 ^ (32 - len.val) ∣ n.val ∧ n.val ≤ a.val ∧ a.val < n.val + 2 ^ (32 - len.val)
  | v6 n len, .v6 a _ => 2 ^ (128 - len.val) ∣ n.val ∧ n.val ≤ a.val ∧ a.val < n.val + 2 ^ (128 - len.val)
  | _, _ => False

namespace Leaf

open X509

/-! ### What a subtree contains -/

/-- The labels of a host name. -/
def labels (s : Str) : List Str := Str.splitAt 0x2E s

/-- The labels of a DNS subtree.  With a full stop in front it is the same subtree, and the empty one
has no labels. -/
def subtreeLabels (c : Str) : List Str :=
  let bare := if c.head? = some 0x2E then c.tail else c
  if bare = [] then [] else labels bare

/-- A subtree contains a name of its form: a DNS subtree those whose labels end in its own, in upper or
lower case. -/
def Contains : GeneralName → GeneralName → Prop
  | .dns c, .dns name => (subtreeLabels c).map Str.lower <:+ (labels name).map Str.lower
  | .network n, .ip a => n.Has a
  | _, _ => False

/-- A subtree is of the form of a name. -/
def SameForm : GeneralName → GeneralName → Prop
  | .dns _, .dns _ | .network _, .ip _ | .rfc822 _, .rfc822 _ => True
  | _, _ => False

/-- A name is allowed by permitted and excluded subtrees. -/
structure Allowed (permitted excluded : List GeneralName) (name : GeneralName) : Prop where
  notExcluded : ∀ g ∈ excluded, ¬ Contains g name
  isPermitted : (∀ g ∈ permitted, ¬ SameForm g name) ∨ ∃ g ∈ permitted, Contains g name
  /-- Subtrees for mail addresses allow none. -/
  notUnevaluable : ∀ value, name = .rfc822 value → ∀ g ∈ permitted ++ excluded, ¬ SameForm g name

/-- The names of a leaf: its entries and, if none of them is a host name, a common name that is one. -/
def IsChecked (subjectCn : Option Str) (sans : List Str) (name : GeneralName) : Prop :=
  (∃ san ∈ sans, named san = some name) ∨
    (∀ san ∈ sans, ∀ value, named san ≠ some (.dns value)) ∧
      ∃ cn, subjectCn = some cn ∧ isHostname cn = true ∧ name = .dns cn

/-- The permitted subtrees of an extension. -/
def permittedOf (nc : NameConstraints) : List GeneralName := nc.permittedSubtrees.getD []

/-- The excluded subtrees of an extension. -/
def excludedOf (nc : NameConstraints) : List GeneralName := nc.excludedSubtrees.getD []

/-- The names of a leaf are allowed. -/
def Conforms (nc : NameConstraints) (subjectCn : Option Str) (sans : List Str) : Prop :=
  ∀ name, IsChecked subjectCn sans name → Allowed (permittedOf nc) (excludedOf nc) name

/-! ### Where the check errs -/

/-- A spelling of a DNS subtree in which the check finds no name: the empty one, or with a full stop in
front. -/
def Unread : GeneralName → Prop
  | .dns c => c = [] ∨ c.head? = some 0x2E
  | _ => False

instance : DecidablePred Unread
  | .dns _ => inferInstanceAs (Decidable (_ ∨ _))
  | .ip _ | .network _ | .rfc822 _ | .other _ _ => inferInstanceAs (Decidable False)

/-- A name is refused whatever the subtrees in these spellings say. -/
def Refused (permitted excluded : List GeneralName) (name : GeneralName) : Prop :=
  (∃ g ∈ excluded, ¬ Unread g ∧ Contains g name) ∨
    ((∃ g ∈ permitted, SameForm g name) ∧ ∀ g ∈ permitted, ¬ Contains g name) ∨
    ∃ value, name = .rfc822 value ∧ ∃ g ∈ permitted ++ excluded, SameForm g name

/-- Subtrees in these spellings decide nothing: some name is refused anyway, or one is in such an
excluded subtree exactly if one is in such permitted subtrees only. -/
def Settled (nc : NameConstraints) (subjectCn : Option Str) (sans : List Str) : Prop :=
  (∃ name, IsChecked subjectCn sans name ∧ Refused (permittedOf nc) (excludedOf nc) name) ∨
    ((∃ name, IsChecked subjectCn sans name ∧ ∃ g ∈ excludedOf nc, Unread g ∧ Contains g name) ↔
      ∃ name, IsChecked subjectCn sans name ∧ (∃ g ∈ permittedOf nc, Contains g name) ∧
        ∀ g ∈ permittedOf nc, Contains g name → Unread g)

/-! ### One subtree -/

theorem sameForm_of_contains {g name : GeneralName} (h : Contains g name) : SameForm g name := by
  cases g <;> cases name <;> simp_all [Contains, SameForm]

theorem dnsWithin_eq_true {name c : Str} :
    dnsWithin name c = true ↔ labels c <:+ labels name := by
  simp [dnsWithin, labels, Str.splitAt_isSuffix]

theorem subtreeLabels_of_not_unread {c : Str} (h : ¬ Unread (.dns c)) : subtreeLabels c = labels c := by
  simp only [Unread, not_or] at h
  simp [subtreeLabels, h.1, h.2]

/-- In the labels of such a spelling there is an empty one. -/
theorem nil_mem_labels_of_unread {c : Str} (h : Unread (.dns c)) : [] ∈ labels c := by
  rcases h with rfl | h
  · simp [labels, Str.splitAt]
  · obtain ⟨rest, rfl⟩ := List.head?_eq_some_iff.1 h
    simp [labels, Str.splitAt]

theorem lower_eq_nil {s : Str} : Str.lower s = [] ↔ s = [] := by
  have hchar : ∀ c, Str.lowerChar c ≠ [] := by
    intro c
    unfold Str.lowerChar
    split_ifs <;> simp
  cases s with
  | nil => simp [Str.lower]
  | cons c s => simp [Str.lower, hchar c]

/-- The check finds a host name in a DNS subtree if it is there and the subtree is not in one of the
spellings. -/
theorem dnsWithin_lower {name c : Str} (hname : isHostname name = true) :
    dnsWithin (Str.lower name) (Str.lower c) = true ↔
      Contains (.dns c) (.dns name) ∧ ¬ Unread (.dns c) := by
  have hlower : dnsWithin (Str.lower name) (Str.lower c) = true ↔
      (labels c).map Str.lower <:+ (labels name).map Str.lower := by
    rw [dnsWithin_eq_true, labels, labels, Str.splitAt_lower, Str.splitAt_lower, labels, labels]
  rw [hlower]
  by_cases hunread : Unread (.dns c)
  · refine ⟨fun h => absurd (h.subset (List.mem_map_of_mem (nil_mem_labels_of_unread hunread))) ?_,
      fun h => absurd hunread h.2⟩
    intro hmem
    obtain ⟨p, hp, hnil⟩ := List.mem_map.1 hmem
    exact ne_nil_of_isHostname hname p hp (lower_eq_nil.1 hnil)
  · simp only [Contains, subtreeLabels_of_not_unread hunread, hunread, not_false_eq_true, and_true]

/-- Rounding down to a multiple gives `n` exactly in the block that starts at `n`. -/
theorem div_mul_eq_iff {a n k : ℕ} (hk : 0 < k) : a / k * k = n ↔ k ∣ n ∧ n ≤ a ∧ a < n + k := by
  constructor
  · rintro rfl
    refine ⟨Nat.dvd_mul_left k _, Nat.div_mul_le_self a k, ?_⟩
    have hmod := Nat.mod_lt a hk
    have hsplit := Nat.div_add_mod' a k
    omega
  · rintro ⟨⟨m, rfl⟩, hle, hlt⟩
    have hdiv : a / k = m := by
      refine Nat.div_eq_of_lt_le ?_ ?_
      · rw [mul_comm]
        exact hle
      · rw [add_mul, one_mul, mul_comm]
        exact hlt
    rw [hdiv, mul_comm]

theorem contains_eq_true {n : IpNetwork} {a : Ip} : n.contains a = true ↔ n.Has a := by
  cases n <;> cases a <;>
    simp [IpNetwork.contains, IpNetwork.Has, div_mul_eq_iff]

/-! ### One name -/

variable {permitted excluded : List GeneralName}

/-- What the check asks of a name: as the extension does, but for the subtrees in the spellings. -/
structure Accepted (permitted excluded : List GeneralName) (name : GeneralName) : Prop where
  notExcluded : ∀ g ∈ excluded, Contains g name → Unread g
  isPermitted : (∀ g ∈ permitted, ¬ SameForm g name) ∨ ∃ g ∈ permitted, Contains g name ∧ ¬ Unread g
  notUnevaluable : ∀ value, name = .rfc822 value → ∀ g ∈ permitted ++ excluded, ¬ SameForm g name

theorem checkSubtrees_eq_ok {α : Type} {shown label : String} {within : α → Bool} {display : α → String}
    {ps es : List α} : checkSubtrees shown label within display ps es = .ok () ↔
      (∀ e ∈ es, within e = false) ∧ (ps = [] ∨ ∃ p ∈ ps, within p = true) := by
  unfold checkSubtrees
  cases hhit : es.find? within with
  | some hit =>
    obtain ⟨hin, hmem⟩ := List.find?_some hhit, List.mem_of_find?_eq_some hhit
    simp only [raise, reduceCtorEq, false_iff, not_and]
    exact fun hnone => absurd (hnone hit hmem) (by simp [hin])
  | none =>
    have hnone : ∀ e ∈ es, within e = false := by simpa using hhit
    simp only [refuse_eq_ok, not_and, Bool.not_eq_false, List.any_eq_true]
    constructor
    · intro h
      refine ⟨hnone, ?_⟩
      by_cases hps : ps = []
      · exact .inl hps
      · exact .inr (h hps)
    · rintro ⟨-, h⟩ hne
      exact h.resolve_left hne

theorem raises_checkSubtrees {α : Type} {shown label : String} {within : α → Bool}
    {display : α → String} {ps es : List α} :
    Raises (fun e => e.kind = .nameConstraint) (checkSubtrees shown label within display ps es) := by
  unfold checkSubtrees
  split
  · exact raises_error rfl
  · exact raises_refuse rfl

theorem mem_dnsSubtrees {gs : List GeneralName} {c : Str} : c ∈ dnsSubtrees gs ↔ .dns c ∈ gs := by
  simp only [dnsSubtrees, List.mem_filterMap]
  constructor
  · rintro ⟨g, hg, h⟩
    cases g <;> simp_all
  · exact fun h => ⟨_, h, rfl⟩

theorem mem_ipSubtrees {gs : List GeneralName} {n : IpNetwork} :
    n ∈ ipSubtrees gs ↔ .network n ∈ gs := by
  simp only [ipSubtrees, List.mem_filterMap]
  constructor
  · rintro ⟨g, hg, h⟩
    cases g <;> simp_all
  · exact fun h => ⟨_, h, rfl⟩

theorem checkDns_eq_ok {name : Str} (hname : isHostname name = true) :
    checkDns name permitted excluded = .ok () ↔ Accepted permitted excluded (.dns name) := by
  rw [checkDns, checkSubtrees_eq_ok]
  constructor
  · rintro ⟨hexcluded, hpermitted⟩
    refine ⟨fun g hg hin => ?_, ?_, nofun⟩
    · by_contra hunread
      cases g with
      | dns c =>
        have hfalse := hexcluded c (mem_dnsSubtrees.2 hg)
        rw [(dnsWithin_lower hname).2 ⟨hin, hunread⟩] at hfalse
        cases hfalse
      | _ => exact hin
    · rcases hpermitted with hnil | ⟨c, hc, hin⟩
      · refine .inl fun g hg hform => ?_
        cases g with
        | dns c => exact absurd (mem_dnsSubtrees.2 hg) (by simp [hnil])
        | _ => exact hform
      · exact .inr ⟨_, mem_dnsSubtrees.1 hc, (dnsWithin_lower hname).1 hin⟩
  · rintro ⟨hexcluded, hpermitted, -⟩
    refine ⟨fun c hc => ?_, ?_⟩
    · rw [Bool.eq_false_iff]
      intro hin
      obtain ⟨hin, hunread⟩ := (dnsWithin_lower hname).1 hin
      exact hunread (hexcluded _ (mem_dnsSubtrees.1 hc) hin)
    · rcases hpermitted with hnone | ⟨g, hg, hin, hunread⟩
      · refine .inl (List.eq_nil_iff_forall_not_mem.2 fun c hc => ?_)
        exact hnone _ (mem_dnsSubtrees.1 hc) trivial
      · cases g with
        | dns c => exact .inr ⟨c, mem_dnsSubtrees.2 hg, (dnsWithin_lower hname).2 ⟨hin, hunread⟩⟩
        | _ => exact hin.elim

theorem checkIp_eq_ok {address : Ip} :
    checkIp address permitted excluded = .ok () ↔ Accepted permitted excluded (.ip address) := by
  rw [checkIp, checkSubtrees_eq_ok]
  constructor
  · rintro ⟨hexcluded, hpermitted⟩
    refine ⟨fun g hg hin => ?_, ?_, nofun⟩
    · cases g with
      | network n =>
        have hfalse := hexcluded n (mem_ipSubtrees.2 hg)
        rw [contains_eq_true.2 hin] at hfalse
        cases hfalse
      | _ => exact hin.elim
    · rcases hpermitted with hnil | ⟨n, hn, hin⟩
      · refine .inl fun g hg hform => ?_
        cases g with
        | network n => exact absurd (mem_ipSubtrees.2 hg) (by simp [hnil])
        | _ => exact hform
      · exact .inr ⟨_, mem_ipSubtrees.1 hn, contains_eq_true.1 hin, id⟩
  · rintro ⟨hexcluded, hpermitted, -⟩
    refine ⟨fun n hn => ?_, ?_⟩
    · rw [Bool.eq_false_iff]
      exact fun hin => hexcluded _ (mem_ipSubtrees.1 hn) (contains_eq_true.1 hin)
    · rcases hpermitted with hnone | ⟨g, hg, hin, -⟩
      · refine .inl (List.eq_nil_iff_forall_not_mem.2 fun n hn => ?_)
        exact hnone _ (mem_ipSubtrees.1 hn) trivial
      · cases g with
        | network n => exact .inr ⟨n, mem_ipSubtrees.2 hg, contains_eq_true.2 hin⟩
        | _ => exact hin.elim

theorem checkUnevaluable_eq_ok {san value : Str} :
    checkUnevaluable san value permitted excluded = .ok () ↔
      Accepted permitted excluded (.rfc822 value) := by
  rw [checkUnevaluable, refuse_eq_ok, List.any_eq_true]
  constructor
  · intro hnone
    have hno : ∀ g ∈ permitted ++ excluded, ¬ SameForm g (.rfc822 value) := by
      intro g hg hform
      cases g with
      | rfc822 v => exact hnone ⟨_, hg, rfl⟩
      | _ => exact hform
    refine ⟨fun g hg hin => ?_, .inl fun g hg => hno g (List.mem_append_left _ hg), fun _ _ => hno⟩
    exact absurd (sameForm_of_contains hin) (hno g (List.mem_append_right _ hg))
  · rintro ⟨-, -, hno⟩ ⟨g, hg, h⟩
    cases g with
    | rfc822 v => exact hno value rfl _ hg trivial
    | _ => cases h

/-- **The check of an entry**: it accepts the name, or raises a `NameConstraintError`. -/
theorem checkName_eq_ok {san : Str} {name : GeneralName} (hsan : IsCanonical san)
    (hname : named san = some name) :
    checkName permitted excluded san = .ok () ↔ Accepted permitted excluded name := by
  obtain ⟨kind, value, rfl, haccepts⟩ := hsan
  unfold checkName
  simp only [partition_canonical, ofUpper_upper, Option.getD_some]
  cases kind with
  | dns =>
    obtain rfl := Option.some.inj ((named_dns value).symm.trans hname)
    exact checkDns_eq_ok haccepts
  | ip =>
    obtain ⟨a, ha⟩ := Option.isSome_iff_exists.1 haccepts
    rw [named_ip, ha] at hname
    obtain rfl := Option.some.inj hname
    simp only [ha]
    exact checkIp_eq_ok
  | email =>
    obtain rfl := Option.some.inj ((named_email value).symm.trans hname)
    exact checkUnevaluable_eq_ok

theorem raises_checkName {san : Str} (hsan : IsCanonical san) :
    Raises (fun e => e.kind = .nameConstraint) (checkName permitted excluded san) := by
  obtain ⟨kind, value, rfl, haccepts⟩ := hsan
  unfold checkName
  simp only [partition_canonical, ofUpper_upper, Option.getD_some]
  cases kind with
  | dns => exact raises_checkSubtrees
  | ip =>
    obtain ⟨a, ha⟩ := Option.isSome_iff_exists.1 haccepts
    simp only [ha]
    exact raises_checkSubtrees
  | email => exact raises_refuse rfl

/-! ### All names -/

variable {cert : Cert} {nc : Ext NameConstraints} {cn : Option Str} {sans : List Str}

/-- Some entry is a host name. -/
theorem any_isPrefixOf (hsans : ∀ san ∈ sans, IsCanonical san) :
    sans.any (Str.of "DNS:").isPrefixOf = true ↔ ∃ san ∈ sans, ∃ value, named san = some (.dns value) := by
  rw [List.any_eq_true]
  refine exists_congr fun san => and_congr_right fun hsan => ?_
  obtain ⟨kind, value, rfl, haccepts⟩ := hsans san hsan
  rw [isPrefixOf_canonical]
  cases kind with
  | dns => simp [named_dns]
  | ip => simp [named_ip]
  | email => simp [named_email]

theorem isCanonical_of_constrainedNames (hsans : ∀ san ∈ sans, IsCanonical san) :
    ∀ san ∈ constrainedNames cn sans, IsCanonical san := by
  unfold constrainedNames
  cases cn with
  | none => exact hsans
  | some cn =>
    dsimp only
    split_ifs with h
    · exact hsans
    · intro san hsan
      rcases List.mem_append.1 hsan with hsan | hsan
      · exact hsans san hsan
      · obtain rfl := List.mem_singleton.1 hsan
        have hhost : isHostname cn = true := by
          by_contra hhost
          exact h (by simp [hhost])
        exact ⟨.dns, cn, rfl, hhost⟩

/-- The names the check goes through are those of the leaf. -/
theorem mem_constrainedNames (hsans : ∀ san ∈ sans, IsCanonical san) {name : GeneralName} :
    (∃ san ∈ constrainedNames cn sans, named san = some name) ↔ IsChecked cn sans name := by
  have hany := any_isPrefixOf hsans
  unfold constrainedNames IsChecked
  cases cn with
  | none => simp
  | some cn =>
    dsimp only
    split_ifs with h
    · refine ⟨.inl, fun hname => hname.resolve_right ?_⟩
      rintro ⟨hnone, c, hc, hhost, -⟩
      obtain rfl := Option.some.inj hc
      rw [Bool.or_eq_true, hany] at h
      rcases h with ⟨san, hsan, value, hvalue⟩ | h
      · exact hnone san hsan value hvalue
      · simp [hhost] at h
    · rw [Bool.or_eq_true, not_or, hany] at h
      obtain ⟨hnone, hhost⟩ := h
      constructor
      · rintro ⟨san, hsan, hname⟩
        rcases List.mem_append.1 hsan with hsan | hsan
        · exact .inl ⟨san, hsan, hname⟩
        · obtain rfl := List.mem_singleton.1 hsan
          rw [named_dns] at hname
          refine .inr ⟨fun san hsan value hvalue => hnone ⟨san, hsan, value, hvalue⟩, cn, rfl, ?_, ?_⟩
          · simpa using hhost
          · exact (Option.some.inj hname).symm
      · rintro (⟨san, hsan, hname⟩ | ⟨-, c, hc, -, rfl⟩)
        · exact ⟨san, List.mem_append_left _ hsan, hname⟩
        · obtain rfl := Option.some.inj hc
          exact ⟨_, List.mem_append_right _ (List.mem_singleton_self _), named_dns cn⟩

theorem checkNameConstraints_eq (hnc : cert.extension Extensions.nameConstraints = .ok nc) :
    checkNameConstraints cert cn sans =
      (constrainedNames cn sans).forM (checkName (permittedOf nc.value) (excludedOf nc.value)) := by
  have hsome : cert.extension? Extensions.nameConstraints = .ok (some nc) := by
    rw [Cert.extension?, hnc]
  rw [checkNameConstraints, hsome]
  rfl

theorem checkNameConstraints_eq_ok (hnc : cert.extension Extensions.nameConstraints = .ok nc)
    (hsans : ∀ san ∈ sans, IsCanonical san) :
    checkNameConstraints cert cn sans = .ok () ↔
      ∀ name, IsChecked cn sans name → Accepted (permittedOf nc.value) (excludedOf nc.value) name := by
  rw [checkNameConstraints_eq hnc, forM_eq_ok]
  have hcanonical : ∀ san ∈ constrainedNames cn sans, IsCanonical san :=
    isCanonical_of_constrainedNames hsans
  constructor
  · intro h name hname
    obtain ⟨san, hsan, hname⟩ := (mem_constrainedNames hsans).2 hname
    exact (checkName_eq_ok (hcanonical san hsan) hname).1 (h san hsan)
  · intro h san hsan
    obtain ⟨name, hname⟩ := named_of_isCanonical (hcanonical san hsan)
    refine (checkName_eq_ok (hcanonical san hsan) hname).2 (h name ?_)
    exact (mem_constrainedNames hsans).1 ⟨san, hsan, hname⟩

theorem raises_checkNameConstraints (hnc : cert.extension Extensions.nameConstraints = .ok nc)
    (hsans : ∀ san ∈ sans, IsCanonical san) :
    Raises (fun e => e.kind = .nameConstraint) (checkNameConstraints cert cn sans) := by
  rw [checkNameConstraints_eq hnc]
  exact raises_forM fun san hsan => raises_checkName (isCanonical_of_constrainedNames hsans san hsan)

/-! ### The check and the extension -/

variable {name : GeneralName}

theorem not_allowed_of_refused (h : Refused permitted excluded name) :
    ¬ Allowed permitted excluded name := by
  rintro ⟨hexcluded, hpermitted, hemail⟩
  rcases h with ⟨g, hg, -, hin⟩ | ⟨⟨g, hg, hform⟩, hnone⟩ | ⟨value, rfl, g, hg, hform⟩
  · exact hexcluded g hg hin
  · rcases hpermitted with hno | ⟨g', hg', hin⟩
    · exact hno g hg hform
    · exact hnone g' hg' hin
  · exact hemail value rfl g hg hform

theorem not_accepted_of_refused (h : Refused permitted excluded name) :
    ¬ Accepted permitted excluded name := by
  rintro ⟨hexcluded, hpermitted, hemail⟩
  rcases h with ⟨g, hg, hread, hin⟩ | ⟨⟨g, hg, hform⟩, hnone⟩ | ⟨value, rfl, g, hg, hform⟩
  · exact hread (hexcluded g hg hin)
  · rcases hpermitted with hno | ⟨g', hg', hin, -⟩
    · exact hno g hg hform
    · exact hnone g' hg' hin
  · exact hemail value rfl g hg hform

theorem not_refused_iff : ¬ Refused permitted excluded name ↔
    (∀ g ∈ excluded, Contains g name → Unread g) ∧
      ((∃ g ∈ permitted, SameForm g name) → ∃ g ∈ permitted, Contains g name) ∧
      ∀ value, name = .rfc822 value → ∀ g ∈ permitted ++ excluded, ¬ SameForm g name := by
  constructor
  · intro h
    refine ⟨fun g hg hin => ?_, fun hform => ?_, fun value hvalue g hg hform => ?_⟩
    · by_contra hread
      exact h (.inl ⟨g, hg, hread, hin⟩)
    · by_contra hnone
      exact h (.inr (.inl ⟨hform, fun g hg hin => hnone ⟨g, hg, hin⟩⟩))
    · exact h (.inr (.inr ⟨value, hvalue, g, hg, hform⟩))
  · rintro ⟨hexcluded, hpermitted, hemail⟩ (⟨g, hg, hread, hin⟩ | ⟨hform, hnone⟩ | ⟨v, hv, g, hg, hform⟩)
    · exact hread (hexcluded g hg hin)
    · obtain ⟨g, hg, hin⟩ := hpermitted hform
      exact hnone g hg hin
    · exact hemail v hv g hg hform

/-- A name that nothing else refuses is refused by an excluded subtree in one of the spellings. -/
theorem allowed_iff (h : ¬ Refused permitted excluded name) :
    Allowed permitted excluded name ↔ ¬ ∃ g ∈ excluded, Unread g ∧ Contains g name := by
  obtain ⟨hexcluded, hpermitted, hemail⟩ := not_refused_iff.1 h
  constructor
  · rintro hallowed ⟨g, hg, -, hin⟩
    exact hallowed.notExcluded g hg hin
  · intro hnone
    refine ⟨fun g hg hin => hnone ⟨g, hg, hexcluded g hg hin, hin⟩, ?_, hemail⟩
    by_cases hform : ∃ g ∈ permitted, SameForm g name
    · exact .inr (hpermitted hform)
    · exact .inl fun g hg hsame => hform ⟨g, hg, hsame⟩

/-- The check refuses it if it is in such permitted subtrees only. -/
theorem accepted_iff (h : ¬ Refused permitted excluded name) :
    Accepted permitted excluded name ↔
      ¬ ((∃ g ∈ permitted, Contains g name) ∧ ∀ g ∈ permitted, Contains g name → Unread g) := by
  obtain ⟨hexcluded, hpermitted, hemail⟩ := not_refused_iff.1 h
  constructor
  · rintro haccepted ⟨⟨g, hg, hin⟩, hall⟩
    rcases haccepted.isPermitted with hno | ⟨g', hg', hin', hread⟩
    · exact hno g hg (sameForm_of_contains hin)
    · exact hread (hall g' hg' hin')
  · intro hsome
    refine ⟨hexcluded, ?_, hemail⟩
    by_cases hform : ∃ g ∈ permitted, SameForm g name
    · by_contra hnot
      rw [not_or, not_exists] at hnot
      refine hsome ⟨hpermitted hform, fun g hg hin => ?_⟩
      by_contra hread
      exact hnot.2 g ⟨hg, hin, hread⟩
    · exact .inl fun g hg hsame => hform ⟨g, hg, hsame⟩

/-- **Where the check agrees with the extension.**  For an issuer with a NameConstraints extension and
canonical entries, the check returns exactly for names that the extension allows, and raises a
`NameConstraintError` for others, if and only if DNS subtrees that are empty or begin with a full stop
decide nothing. -/
theorem nameConstraints_agree (hnc : cert.extension Extensions.nameConstraints = .ok nc)
    (hsans : ∀ san ∈ sans, IsCanonical san) :
    ((checkNameConstraints cert cn sans = .ok () ↔ Conforms nc.value cn sans) ∧
      (¬ Conforms nc.value cn sans →
        ∃ e, checkNameConstraints cert cn sans = .error e ∧ e.kind = .nameConstraint)) ↔
      Settled nc.value cn sans := by
  have hraise : ¬ checkNameConstraints cert cn sans = .ok () →
      ∃ e, checkNameConstraints cert cn sans = .error e ∧ e.kind = .nameConstraint := by
    intro h
    cases hcheck : checkNameConstraints cert cn sans with
    | ok u => exact absurd hcheck h
    | error e => exact ⟨e, rfl, raises_checkNameConstraints hnc hsans e hcheck⟩
  have hsecond : (checkNameConstraints cert cn sans = .ok () ↔ Conforms nc.value cn sans) →
      ¬ Conforms nc.value cn sans →
        ∃ e, checkNameConstraints cert cn sans = .error e ∧ e.kind = .nameConstraint :=
    fun hiff hnot => hraise (mt hiff.1 hnot)
  rw [and_iff_left_of_imp hsecond, checkNameConstraints_eq_ok hnc hsans]
  unfold Settled
  by_cases hrefused : ∃ name, IsChecked cn sans name ∧
      Refused (permittedOf nc.value) (excludedOf nc.value) name
  · obtain ⟨name, hname, hrefused⟩ := id hrefused
    refine ⟨fun _ => .inl ⟨name, hname, hrefused⟩, fun _ => ⟨fun h => ?_, fun h => ?_⟩⟩
    · exact absurd (h name hname) (not_accepted_of_refused hrefused)
    · exact absurd (h name hname) (not_allowed_of_refused hrefused)
  · have hfree : ∀ name, IsChecked cn sans name →
        ¬ Refused (permittedOf nc.value) (excludedOf nc.value) name :=
      fun name hname h => hrefused ⟨name, hname, h⟩
    have haccepted : (∀ name, IsChecked cn sans name →
        Accepted (permittedOf nc.value) (excludedOf nc.value) name) ↔
        ¬ ∃ name, IsChecked cn sans name ∧ (∃ g ∈ permittedOf nc.value, Contains g name) ∧
          ∀ g ∈ permittedOf nc.value, Contains g name → Unread g := by
      rw [not_exists]
      refine forall_congr' fun name => ?_
      rw [not_and]
      exact forall_congr' fun hname => accepted_iff (hfree name hname)
    have hallowed : Conforms nc.value cn sans ↔ ¬ ∃ name, IsChecked cn sans name ∧
        ∃ g ∈ excludedOf nc.value, Unread g ∧ Contains g name := by
      rw [not_exists]
      refine forall_congr' fun name => ?_
      rw [not_and]
      exact forall_congr' fun hname => allowed_iff (hfree name hname)
    rw [or_iff_right hrefused, haccepted, hallowed, not_iff_not]
    exact iff_comm

/-! ### An imported issuer -/

/-- An issuer from elsewhere with these subtrees. -/
def importedIssuer (permitted excluded : Option (List GeneralName)) : Cert where
  tbs :=
    { serialNumber := 7
      signatureHash := some .sha256
      issuer := [[⟨commonNameOid, .utf8, .text (Str.of "Corporate Root")⟩]]
      notBefore := 0
      notAfter := 2000000000
      subject := [[⟨commonNameOid, .utf8, .text (Str.of "Corporate Issuing CA")⟩]]
      publicKey := ⟨[4, 7]⟩
      extensions :=
        { basicConstraints := some ⟨⟨true, some 0⟩, true⟩
          keyUsage := some ⟨CaX509.caKeyUsage, true⟩
          subjectKeyIdentifier := some ⟨[7], false⟩
          nameConstraints := some ⟨⟨permitted, excluded⟩, true⟩ } }
  signature := []

/-- With a permitted subtree the check agrees on a name in it. -/
theorem nameConstraints_agree_permitted :
    checkNameConstraints (importedIssuer (some [.dns (Str.of "Example.com")]) none) none
        [Str.of "DNS:nas.example.com"] = .ok () ∧
      Conforms ⟨some [.dns (Str.of "Example.com")], none⟩ none [Str.of "DNS:nas.example.com"] := by
  have hok : checkNameConstraints (importedIssuer (some [.dns (Str.of "Example.com")]) none) none
      [Str.of "DNS:nas.example.com"] = .ok () := by decide
  have hsettled : Settled ⟨some [.dns (Str.of "Example.com")], none⟩ none
      [Str.of "DNS:nas.example.com"] := by
    refine .inr ⟨?_, ?_⟩
    · rintro ⟨name, -, g, hg, -⟩
      cases hg
    · rintro ⟨name, -, ⟨g, hg, hin⟩, hall⟩
      have hunread := hall g hg hin
      obtain rfl := List.mem_singleton.1 hg
      exact absurd hunread (by decide)
  have hcanonical : ∀ san ∈ [Str.of "DNS:nas.example.com"], IsCanonical san := by
    rintro san hsan
    obtain rfl := List.mem_singleton.1 hsan
    exact ⟨.dns, Str.of "nas.example.com", rfl, by decide⟩
  have hnc : (importedIssuer (some [.dns (Str.of "Example.com")]) none).extension
      Extensions.nameConstraints = .ok ⟨⟨some [.dns (Str.of "Example.com")], none⟩, _⟩ := rfl
  obtain ⟨hagree, -⟩ := (nameConstraints_agree hnc hcanonical).2 hsettled
  exact ⟨hok, hagree.1 hok⟩

/-- An excluded subtree with a full stop in front excludes nothing. -/
theorem leadingDot_excludes_nothing :
    ¬ ∀ (cert : Cert) (nc : Ext NameConstraints) (cn : Option Str) (sans : List Str),
      cert.extension Extensions.nameConstraints = .ok nc → (∀ san ∈ sans, IsCanonical san) →
      (checkNameConstraints cert cn sans = .ok () ↔ Conforms nc.value cn sans) := by
  intro h
  have hiff := h (importedIssuer none (some [.dns (Str.of ".example.com")])) _ none
    [Str.of "DNS:nas.example.com"] rfl (by
      rintro san hsan
      obtain rfl := List.mem_singleton.1 hsan
      exact ⟨.dns, Str.of "nas.example.com", rfl, by decide⟩)
  have hconforms := hiff.1 (by decide)
  have hallowed := hconforms (.dns (Str.of "nas.example.com"))
    (.inl ⟨_, List.mem_singleton_self _, by decide⟩)
  refine hallowed.notExcluded _ (List.mem_singleton_self _) ?_
  exact ⟨[Str.of "nas"], by decide⟩

end Leaf

end Cabin
