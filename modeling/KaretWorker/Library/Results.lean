import Mathlib.Data.List.Forall2

/-!
# Lists of results

A list is mapped by a step that may fail. It has results exactly when each item has one, in
order; otherwise the error is that of some item.
-/
namespace Results

variable {α β γ ε : Type} {step : α → Except ε β} {items : List α}

/-- The results of a list are those of its items. -/
theorem mapM_ok_iff {results : List β} : items.mapM step = .ok results ↔
    List.Forall₂ (fun item result => step item = .ok result) items results := by
  induction items generalizing results with
  | nil =>
    rw [List.forall₂_nil_left_iff]
    exact ⟨fun maps => (Except.ok.inj maps).symm, fun same => by rw [same]; rfl⟩
  | cons item rest inductionHypothesis =>
    rw [List.mapM_cons, List.forall₂_cons_left_iff]
    constructor
    · intro maps
      cases first : step item with
      | error error =>
        rw [first] at maps
        cases maps
      | ok result =>
        cases others : rest.mapM step with
        | error error =>
          rw [first, others] at maps
          cases maps
        | ok later =>
          rw [first, others] at maps
          exact ⟨result, later, rfl, inductionHypothesis.mp others, (Except.ok.inj maps).symm⟩
    · rintro ⟨result, later, first, others, rfl⟩
      rw [first, inductionHypothesis.mpr others]
      rfl

/-- In related lists every item on the left is related to some item on the right. -/
theorem forall₂_exists {related : γ → α → Prop} {sources : List γ}
    (areRelated : List.Forall₂ related sources items) {source : γ} (member : source ∈ sources) :
    ∃ item ∈ items, related source item := by
  induction areRelated with
  | nil => exact absurd member List.not_mem_nil
  | cons isRelated _ inductionHypothesis =>
    rcases List.mem_cons.mp member with rfl | later
    · exact ⟨_, List.mem_cons_self, isRelated⟩
    · obtain ⟨item, isItem, found⟩ := inductionHypothesis later
      exact ⟨item, List.mem_cons_of_mem _ isItem, found⟩

/-- Each result is that of an item. -/
theorem mapM_mem {results : List β} (maps : items.mapM step = .ok results) {result : β}
    (member : result ∈ results) : ∃ item ∈ items, step item = .ok result :=
  forall₂_exists (mapM_ok_iff.mp maps).flip member

/-- A list with an item that fails has no results. -/
theorem mapM_fails {item : α} (member : item ∈ items) {error : ε}
    (fails : step item = .error error) :
    ∃ error, items.mapM step = .error error := by
  cases maps : items.mapM step with
  | error error => exact ⟨error, rfl⟩
  | ok results =>
    obtain ⟨_, _, isResult⟩ := forall₂_exists (mapM_ok_iff.mp maps) member
    cases fails.symm.trans isResult

/-- Where the result of an item is known, so are the results of a list. -/
theorem mapM_ok_map {results : List β} {value : α → β}
    (known : ∀ item result, step item = .ok result → value item = result)
    (maps : items.mapM step = .ok results) : results = items.map value := by
  refine (List.forall₂_eq_eq_eq ▸ List.forall₂_map_left_iff.mpr ?_ : items.map value = results).symm
  exact (mapM_ok_iff.mp maps).imp known

/-- If every item has a result that suits what the item is related to, so do the results. -/
theorem mapM_related {related : γ → α → Prop} {suits : γ → β → Prop} {sources : List γ}
    (areRelated : List.Forall₂ related sources items)
    (each : ∀ source ∈ sources, ∀ item, related source item →
      ∃ result, step item = .ok result ∧ suits source result) :
    ∃ results, items.mapM step = .ok results ∧ List.Forall₂ suits sources results := by
  induction areRelated with
  | nil => exact ⟨[], rfl, List.Forall₂.nil⟩
  | cons isRelated _ inductionHypothesis =>
    rw [List.forall_mem_cons] at each
    obtain ⟨result, isResult, suited⟩ := each.1 _ isRelated
    obtain ⟨results, areResults, others⟩ := inductionHypothesis each.2
    refine ⟨result :: results, ?_, List.Forall₂.cons suited others⟩
    exact mapM_ok_iff.mpr (List.Forall₂.cons isResult (mapM_ok_iff.mp areResults))

end Results
