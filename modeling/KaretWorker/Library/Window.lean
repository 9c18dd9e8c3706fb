import Mathlib.Data.Finset.Card
import Mathlib.Data.List.Sort
import Mathlib.Order.Interval.Finset.Nat

/-!
# The newest members of a set of versions

A version is in the window when it is present, does not exceed the top, and
fewer than `size` present versions lie strictly between it and the top. The
window only moves up: removing a version outside it, or raising the top by one,
never brings an older version back in.

The same window is what is left after dropping all but the last `size` entries
of a strictly increasing list, which is how programs compute it.
-/
namespace Retention

/-- Present versions above `version` and at most `top`. -/
def newer (present : Nat → Bool) (top version : Nat) : Finset Nat :=
  (Finset.Ioc version top).filter (fun other => present other = true)

/-- Among the `size` newest present versions at most `top`. -/
def InWindow (present : Nat → Bool) (size top version : Nat) : Prop :=
  version ≤ top ∧ present version = true ∧ (newer present top version).card < size

instance (present : Nat → Bool) (size top version : Nat) :
    Decidable (InWindow present size top version) :=
  inferInstanceAs (Decidable (_ ∧ _ ∧ _))

/-- The newer versions: above this one, up to the top, and there. -/
theorem mem_newer {present : Nat → Bool} {top version other : Nat} :
    other ∈ newer present top version ↔
      version < other ∧ other ≤ top ∧ present other = true := by
  simp only [newer, Finset.mem_filter, Finset.mem_Ioc, and_assoc]

/-- Raising the top adds at most the versions in between. -/
theorem newer_card_le {present present' : Nat → Bool} {base top version : Nat}
    (older : ∀ other, other ≤ base → present' other = true → present other = true) :
    (newer present' top version).card ≤ (newer present base version).card + (top - base) := by
  have covered : newer present' top version ⊆ newer present base version ∪ Finset.Ioc base top := by
    intro other member
    obtain ⟨above, within, isPresent⟩ := mem_newer.mp member
    rw [Finset.mem_union, Finset.mem_Ioc]
    by_cases early : other ≤ base
    · exact Or.inl (mem_newer.mpr ⟨above, early, older other early isPresent⟩)
    · exact Or.inr ⟨Nat.lt_of_not_le early, within⟩
  calc (newer present' top version).card
      ≤ (newer present base version ∪ Finset.Ioc base top).card := Finset.card_le_card covered
    _ ≤ (newer present base version).card + (Finset.Ioc base top).card := Finset.card_union_le _ _
    _ = (newer present base version).card + (top - base) := by rw [Nat.card_Ioc]

/-- A present top is in every window of positive size. -/
theorem top_inWindow {present : Nat → Bool} {size top : Nat} (positive : 0 < size)
    (isPresent : present top = true) : InWindow present size top top := by
  refine ⟨Nat.le_refl top, isPresent, ?_⟩
  have empty : newer present top top = ∅ := by simp [newer]
  rw [empty, Finset.card_empty]
  exact positive

/-- Membership in the window depends only on presence between a version and the
top. -/
theorem inWindow_congr {present present' : Nat → Bool} {size top version : Nat}
    (agree : ∀ other, version ≤ other → other ≤ top → present' other = present other) :
    InWindow present' size top version ↔ InWindow present size top version := by
  have sameNewer : version ≤ top → newer present' top version = newer present top version := by
    intro _
    apply Finset.filter_congr
    intro other member
    obtain ⟨above, below⟩ := Finset.mem_Ioc.mp member
    rw [agree other (Nat.le_of_lt above) below]
  constructor
  · rintro ⟨bounded, isPresent, few⟩
    rw [sameNewer bounded] at few
    exact ⟨bounded, agree version (Nat.le_refl _) bounded ▸ isPresent, few⟩
  · rintro ⟨bounded, isPresent, few⟩
    rw [← sameNewer bounded] at few
    exact ⟨bounded, (agree version (Nat.le_refl _) bounded).trans isPresent, few⟩

/-- Removing one version outside the window brings no version into it.

A removed version between an old one and the top already had a full window above
it, which is untouched, so the old one stays out. Otherwise the removal is not
between the two and changes nothing for it. -/
theorem inWindow_of_removed {present present' : Nat → Bool} {size top removed version : Nat}
    (outside : ¬ InWindow present size top removed)
    (kept : ∀ other, other ≠ removed → present' other = present other)
    (gone : present' removed = false)
    (inside : InWindow present' size top version) : InWindow present size top version := by
  obtain ⟨bounded, isPresent, few⟩ := inside
  have different : version ≠ removed := by
    rintro rfl
    rw [gone] at isPresent
    exact Bool.noConfusion isPresent
  by_cases between : version < removed ∧ removed ≤ top ∧ present removed = true
  · obtain ⟨above, below, wasPresent⟩ := between
    have full : size ≤ (newer present top removed).card := by
      by_contra notFull
      exact outside ⟨below, wasPresent, Nat.lt_of_not_le notFull⟩
    have still : newer present top removed ⊆ newer present' top version := by
      intro other member
      obtain ⟨beyond, limited, otherPresent⟩ := mem_newer.mp member
      exact mem_newer.mpr ⟨Nat.lt_trans above beyond, limited,
        (kept other (Nat.ne_of_gt beyond)).trans otherPresent⟩
    have many : size ≤ (newer present' top version).card :=
      full.trans (Finset.card_le_card still)
    omega
  · refine ⟨bounded, kept version different ▸ isPresent, ?_⟩
    have contained : newer present top version ⊆ newer present' top version := by
      intro other member
      obtain ⟨beyond, limited, otherPresent⟩ := mem_newer.mp member
      have notRemoved : other ≠ removed := by
        rintro rfl
        exact between ⟨beyond, limited, otherPresent⟩
      exact mem_newer.mpr ⟨beyond, limited, (kept other notRemoved).trans otherPresent⟩
    exact Nat.lt_of_le_of_lt (Finset.card_le_card contained) few

/-- Raising the top by one admits at most the new top: an older version in the
new window was in the old one. -/
theorem inWindow_of_raised {present present' : Nat → Bool} {size top version : Nat}
    (kept : ∀ other, other ≤ top → present' other = present other) (older : version ≤ top)
    (inside : InWindow present' size (top + 1) version) : InWindow present size top version := by
  obtain ⟨_, isPresent, few⟩ := inside
  refine ⟨older, kept version older ▸ isPresent, ?_⟩
  have contained : newer present top version ⊆ newer present' (top + 1) version := by
    intro other member
    obtain ⟨beyond, limited, otherPresent⟩ := mem_newer.mp member
    exact mem_newer.mpr ⟨beyond, Nat.le_succ_of_le limited, (kept other limited).trans otherPresent⟩
  exact Nat.lt_of_le_of_lt (Finset.card_le_card contained) few

/-- Removing everything outside the window below the top leaves the window as it is. -/
theorem inWindow_of_trimmed {present present' : Nat → Bool} {size top version : Nat}
    (trimmed : ∀ other, present' other = true ↔
      present other = true ∧ (other ≤ top → InWindow present size top other)) :
    InWindow present' size top version ↔ InWindow present size top version := by
  constructor
  · rintro ⟨bounded, isPresent, _⟩
    exact ((trimmed version).mp isPresent).2 bounded
  · intro inside
    have contained : newer present' top version ⊆ newer present top version := by
      intro other member
      obtain ⟨above, limited, otherPresent⟩ := mem_newer.mp member
      exact mem_newer.mpr ⟨above, limited, ((trimmed other).mp otherPresent).1⟩
    refine ⟨inside.1, (trimmed version).mpr ⟨inside.2.1, fun _ => inside⟩, ?_⟩
    exact Nat.lt_of_le_of_lt (Finset.card_le_card contained) inside.2.2

/-! ## Windows of sorted lists -/

/-- All but the last `size` entries of a strictly increasing list are those with
at least `size` larger entries.

Induct on the list. Its head is below every other entry, so it is dropped exactly
when the tail alone fills the window, and it never counts as larger than a tail
entry. -/
theorem mem_take_iff {versions : List Nat} (increasing : versions.Pairwise (· < ·)) (size : Nat)
    (version : Nat) :
    version ∈ versions.take (versions.length - size) ↔
      version ∈ versions ∧
      size ≤ (versions.filter (fun other => decide (version < other))).length := by
  induction versions with
  | nil => simp
  | cons head rest inductionHypothesis =>
    obtain ⟨headBelow, restIncreasing⟩ := List.pairwise_cons.mp increasing
    have tail := inductionHypothesis restIncreasing
    have headCount : rest.filter (fun other => decide (head < other)) = rest :=
      List.filter_eq_self.mpr (fun other member => by simpa using headBelow other member)
    by_cases fits : size ≤ rest.length
    · have length : (head :: rest).length - size = (rest.length - size) + 1 := by
        simp only [List.length_cons]; omega
      rw [length, List.take_succ_cons, List.mem_cons, List.mem_cons, tail]
      by_cases isHead : version = head
      · subst isHead
        simp [headCount, fits]
      · by_cases inRest : version ∈ rest
        · have below : head < version := headBelow version inRest
          simp [isHead, inRest, Nat.not_lt_of_lt below]
        · simp [isHead, inRest]
    · have length : (head :: rest).length - size = 0 := by simp only [List.length_cons]; omega
      have few : ∀ tested, tested ∈ head :: rest →
          ((head :: rest).filter (fun other => decide (tested < other))).length < size := by
        intro tested member
        rcases List.mem_cons.mp member with rfl | member
        · simp only [List.filter_cons, Nat.lt_irrefl, decide_false, Bool.false_eq_true,
            ↓reduceIte, headCount]
          omega
        · have below : head < tested := headBelow tested member
          have shorter := List.length_filter_le (fun other => decide (tested < other)) rest
          simp only [List.filter_cons, Nat.not_lt_of_lt below, decide_false, Bool.false_eq_true,
            ↓reduceIte]
          omega
      rw [length, List.take_zero]
      constructor
      · intro impossible
        exact absurd impossible List.not_mem_nil
      · rintro ⟨member, many⟩
        exact absurd many (Nat.not_le_of_lt (few version member))

end Retention
