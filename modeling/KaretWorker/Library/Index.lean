import Mathlib.Data.List.AList
import Mathlib.Data.List.Duplicate

/-!
# Tables with unique keys

A table filled from a list of entries, one insertion after the other, that stops at the
first key it already holds. It is filled to the end exactly when the keys are distinct,
and then it holds the entries and nothing else, whatever their order; the error is a key that
comes twice.
-/
namespace Indexing

variable {κ ν : Type} [DecidableEq κ]

/-- Insert entries in order; a key that is there already is the error. -/
def indexUnique : List (κ × ν) → AList (fun _ : κ => ν) → Except κ (AList (fun _ : κ => ν))
  | [], table => .ok table
  | (key, value) :: rest, table =>
    if key ∈ table then .error key else indexUnique rest (table.insert key value)

/-- The table is filled exactly when the keys are distinct and new to it. -/
theorem indexUnique_ok {entries : List (κ × ν)} {table : AList (fun _ : κ => ν)} :
    (∃ filled, indexUnique entries table = .ok filled) ↔
      (entries.map Prod.fst).Nodup ∧ ∀ key ∈ entries.map Prod.fst, key ∉ table := by
  induction entries generalizing table with
  | nil => exact ⟨fun _ => ⟨List.nodup_nil, fun _ impossible => nomatch impossible⟩,
      fun _ => ⟨table, rfl⟩⟩
  | cons entry rest inductionHypothesis =>
    obtain ⟨key, value⟩ := entry
    simp only [indexUnique, List.map_cons, List.nodup_cons, List.forall_mem_cons]
    by_cases held : key ∈ table
    · rw [if_pos held]
      exact ⟨fun ⟨_, impossible⟩ => (nomatch impossible), fun ⟨_, new, _⟩ => absurd held new⟩
    · rw [if_neg held, inductionHypothesis]
      simp only [AList.mem_insert, not_or]
      constructor
      · rintro ⟨distinct, new⟩
        exact ⟨⟨fun again => (new key again).1 rfl, distinct⟩, held,
          fun other member => (new other member).2⟩
      · rintro ⟨⟨once, distinct⟩, _, new⟩
        refine ⟨distinct, fun other member => ⟨?_, new other member⟩⟩
        rintro rfl
        exact once member

/-- The error is a key that comes twice, or that was there before. -/
theorem indexUnique_error {entries : List (κ × ν)} {table : AList (fun _ : κ => ν)} {key : κ}
    (fails : indexUnique entries table = .error key) :
    (entries.map Prod.fst).Duplicate key ∨ (key ∈ table ∧ key ∈ entries.map Prod.fst) := by
  induction entries generalizing table with
  | nil => exact nomatch fails
  | cons entry rest inductionHypothesis =>
    obtain ⟨first, value⟩ := entry
    rw [indexUnique] at fails
    split at fails
    · next held =>
      obtain rfl := Except.error.inj fails
      exact Or.inr ⟨held, List.mem_cons_self⟩
    · rcases inductionHypothesis fails with twice | ⟨held, member⟩
      · exact Or.inl (twice.duplicate_cons first)
      · rcases (AList.mem_insert _).mp held with rfl | before
        · exact Or.inl member.duplicate_cons_self
        · exact Or.inr ⟨before, List.mem_cons_of_mem _ member⟩

/-- A filled table holds the entries and what it held before. -/
theorem indexUnique_lookup {entries : List (κ × ν)} {table filled : AList (fun _ : κ => ν)}
    (fills : indexUnique entries table = .ok filled) {key : κ} {value : ν} :
    filled.lookup key = some value ↔ (key, value) ∈ entries ∨ table.lookup key = some value := by
  induction entries generalizing table with
  | nil =>
    obtain rfl := Except.ok.inj fills
    exact ⟨Or.inr, fun held => held.resolve_left List.not_mem_nil⟩
  | cons entry rest inductionHypothesis =>
    obtain ⟨first, firstValue⟩ := entry
    rw [indexUnique] at fills
    split at fills
    · exact nomatch fills
    · next new =>
      rw [inductionHypothesis fills, List.mem_cons, Prod.mk.injEq]
      by_cases same : key = first
      · subst same
        have absent := AList.lookup_eq_none.mpr new
        simp only [AList.lookup_insert, absent, Option.some.injEq, true_and, reduceCtorEq, or_false]
        rw [or_comm, eq_comm]
      · simp only [AList.lookup_insert_ne same, same, false_and, false_or]

/-- Whatever is found after a key was erased is under another key, and was there. -/
theorem lookup_of_erase {entries : AList (fun _ : κ => ν)} {key other : κ} {found : ν}
    (isFound : (entries.erase key).lookup other = some found) :
    other ≠ key ∧ entries.lookup other = some found := by
  by_cases same : other = key
  · subst same
    rw [AList.lookup_erase] at isFound
    exact nomatch isFound
  · rw [AList.lookup_erase_ne same] at isFound
    exact ⟨same, isFound⟩

/-- Whatever is found after an insertion is what was inserted, or is under another key
and was there. -/
theorem lookup_of_insert {entries : AList (fun _ : κ => ν)} {key other : κ} {inserted found : ν}
    (isFound : (entries.insert key inserted).lookup other = some found) :
    (other = key ∧ found = inserted) ∨ (other ≠ key ∧ entries.lookup other = some found) := by
  by_cases same : other = key
  · subst same
    rw [AList.lookup_insert] at isFound
    exact Or.inl ⟨rfl, (Option.some.inj isFound).symm⟩
  · rw [AList.lookup_insert_ne same] at isFound
    exact Or.inr ⟨same, isFound⟩

end Indexing
