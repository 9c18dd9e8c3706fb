import Mathlib.Data.List.Induction
import Mathlib.Order.Lattice

/-!
# The first of the greatest

A loop over a list that keeps the best candidate so far, and replaces it only by one of
strictly greater priority. It ends with the first candidate among those of the greatest
priority, and with none exactly when there is no candidate.
-/
namespace Selection

variable {α β : Type} [LinearOrder β]

/-- Keep the current best unless the item is a candidate of strictly greater priority. -/
def improve (matching : α → Bool) (priority : α → β) (best : Option α) (item : α) : Option α :=
  if matching item then
    match best with
    | some current => if priority item ≤ priority current then some current else some item
    | none => some item
  else best

/-- The best candidate of a list. -/
def firstGreatest (matching : α → Bool) (priority : α → β) (items : List α) : Option α :=
  items.foldl (improve matching priority) none

/-- A candidate with only lesser candidates before it and no greater one after it. -/
def Leads (matching : α → Bool) (priority : α → β) (items : List α) (item : α) : Prop :=
  ∃ earlier later, items = earlier ++ item :: later ∧ matching item = true ∧
    (∀ other ∈ earlier, matching other = true → priority other < priority item) ∧
    ∀ other ∈ later, matching other = true → priority other ≤ priority item

variable {matching : α → Bool} {priority : α → β}

/-- What leads matches. -/
theorem Leads.matches {items : List α} {item : α} (leads : Leads matching priority items item) :
    matching item = true := by
  obtain ⟨_, _, _, isMatch, _⟩ := leads
  exact isMatch

/-- What leads is one of the items. -/
theorem Leads.mem {items : List α} {item : α} (leads : Leads matching priority items item) :
    item ∈ items := by
  obtain ⟨earlier, later, rfl, _⟩ := leads
  exact List.mem_append_right _ List.mem_cons_self

/-- No candidate has greater priority than the leader. -/
theorem Leads.greatest {items : List α} {item other : α}
    (leads : Leads matching priority items item) (member : other ∈ items)
    (isMatch : matching other = true) : priority other ≤ priority item := by
  obtain ⟨earlier, later, rfl, _, before, after⟩ := leads
  rcases List.mem_append.mp member with member | member
  · exact le_of_lt (before other member isMatch)
  · rcases List.mem_cons.mp member with rfl | member
    · exact le_refl _
    · exact after other member isMatch

/-- The loop over one more item. -/
theorem firstGreatest_concat {items : List α} {last : α} :
    firstGreatest matching priority (items ++ [last]) =
      improve matching priority (firstGreatest matching priority items) last := by
  rw [firstGreatest, List.foldl_append, List.foldl_cons, List.foldl_nil, firstGreatest]

/-- What the loop ends with: no candidate at all, or a leader. -/
theorem firstGreatest_ends (matching : α → Bool) (priority : α → β) (items : List α) :
    (firstGreatest matching priority items = none ∧ ∀ item ∈ items, matching item = false) ∨
      ∃ item, firstGreatest matching priority items = some item ∧
        Leads matching priority items item := by
  induction items using List.reverseRecOn with
  | nil => exact Or.inl ⟨rfl, fun _ impossible => nomatch impossible⟩
  | append_singleton items last inductionHypothesis =>
    rw [firstGreatest_concat]
    by_cases isMatch : matching last = true
    · right
      rcases inductionHypothesis with ⟨nothing, none⟩ | ⟨current, found, leads⟩
      · refine ⟨last, by simp only [improve, isMatch, ↓reduceIte, nothing], items, [], rfl, isMatch,
          ?_, fun _ impossible => nomatch impossible⟩
        intro other member otherMatches
        exact Bool.noConfusion ((none other member).symm.trans otherMatches)
      · by_cases atMost : priority last ≤ priority current
        · refine ⟨current, by simp only [improve, isMatch, ↓reduceIte, found, atMost], ?_⟩
          obtain ⟨earlier, later, rfl, currentMatches, before, after⟩ := leads
          refine ⟨earlier, later ++ [last], by simp, currentMatches, before, ?_⟩
          intro other member otherMatches
          rcases List.mem_append.mp member with member | member
          · exact after other member otherMatches
          · rw [List.mem_singleton.mp member]
            exact atMost
        · refine ⟨last, by simp only [improve, isMatch, ↓reduceIte, found, atMost], items, [], rfl,
            isMatch, ?_, fun _ impossible => nomatch impossible⟩
          intro other member otherMatches
          exact lt_of_le_of_lt (leads.greatest member otherMatches) (not_le.mp atMost)
    · have skipped : improve matching priority (firstGreatest matching priority items) last =
          firstGreatest matching priority items := if_neg isMatch
      rw [skipped]
      refine inductionHypothesis.imp ?_ ?_
      · rintro ⟨nothing, none⟩
        refine ⟨nothing, fun item member => ?_⟩
        rcases List.mem_append.mp member with member | member
        · exact none item member
        · rw [List.mem_singleton.mp member]
          exact eq_false_of_ne_true isMatch
      · rintro ⟨current, found, earlier, later, rfl, currentMatches, before, after⟩
        refine ⟨current, found, earlier, later ++ [last], by simp, currentMatches, before, ?_⟩
        intro other member otherMatches
        rcases List.mem_append.mp member with member | member
        · exact after other member otherMatches
        · rw [List.mem_singleton.mp member] at otherMatches
          exact absurd otherMatches isMatch

/-- Two leaders are one. -/
theorem Leads.unique {items : List α} {item other : α} (left : Leads matching priority items item)
    (right : Leads matching priority items other) : item = other := by
  have same : priority item = priority other :=
    le_antisymm (right.greatest left.mem left.matches) (left.greatest right.mem right.matches)
  obtain ⟨earlier, later, rfl, isMatch, before, _⟩ := left
  obtain ⟨earlier', later', split, otherMatches, before', _⟩ := right
  rcases List.append_eq_append_iff.mp split with ⟨middle, rfl, here⟩ | ⟨middle, rfl, here⟩
  · cases middle with
    | nil => exact (List.cons.inj here).1
    | cons head rest =>
      obtain ⟨rfl, _⟩ := List.cons.inj here
      exact absurd (before' item (by simp) isMatch) (by rw [same]; exact lt_irrefl _)
  · cases middle with
    | nil => exact (List.cons.inj here).1.symm
    | cons head rest =>
      obtain ⟨rfl, _⟩ := List.cons.inj here
      exact absurd (before other (by simp) otherMatches) (by rw [same]; exact lt_irrefl _)

/-- The image of a leader leads the images. -/
theorem Leads.map {γ : Type} {image : γ → α} {items : List γ} {item : γ}
    (leads : Leads (matching ∘ image) (priority ∘ image) items item) :
    Leads matching priority (items.map image) (image item) := by
  obtain ⟨earlier, later, rfl, isMatch, before, after⟩ := leads
  refine ⟨earlier.map image, later.map image, by simp, isMatch, ?_, ?_⟩
  · exact List.forall_mem_map.mpr before
  · exact List.forall_mem_map.mpr after

/-- The loop finds the leader. -/
theorem firstGreatest_iff {items : List α} {item : α} :
    firstGreatest matching priority items = some item ↔ Leads matching priority items item := by
  rcases firstGreatest_ends matching priority items with
    ⟨nothing, none⟩ | ⟨leader, found, leads⟩
  · rw [nothing]
    constructor
    · exact fun impossible => nomatch impossible
    · exact fun leads => Bool.noConfusion ((none item leads.mem).symm.trans leads.matches)
  · rw [found, Option.some.injEq]
    exact ⟨fun same => same ▸ leads, fun other => leads.unique other⟩

/-- The loop finds nothing exactly when there is no candidate. -/
theorem firstGreatest_none {items : List α} :
    firstGreatest matching priority items = none ↔ ∀ item ∈ items, matching item = false := by
  rcases firstGreatest_ends matching priority items with
    ⟨nothing, none⟩ | ⟨leader, found, leads⟩
  · exact ⟨fun _ => none, fun _ => nothing⟩
  · rw [found]
    constructor
    · exact fun impossible => nomatch impossible
    · exact fun none => Bool.noConfusion ((none leader leads.mem).symm.trans leads.matches)

end Selection
