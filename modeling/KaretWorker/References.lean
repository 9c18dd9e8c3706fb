import KaretWorker.CleanRun
import KaretWorker.Validation

/-!
# References of mappings

The executor looks up the source and the table of each mapping by id, and skips a
mapping whose source it does not find without a word. The validator reports every
reference that names nothing, except one that is empty; it does report empty ids of
sources and tables, so an empty reference resolves to nothing.

So a valid configuration never has a mapping dropped if and only if no reference is
empty (`never_dropped_iff`), and `empty_reference_dropped` is one that has.
-/
namespace KaretWorker

open Texts Interaction

/-- No mapping is dropped: its references name a source and a table, a run that returns
has evaluated it into that table if it fetched files of the source, and wherever the
loop over the mappings stands, its table is open. -/
structure NeverDropped (config : PipelineConfig) : Prop where
  resolves : ∀ mapping ∈ config.mappings,
    (∃ source ∈ config.sourceContainers, source.id = mapping.sourceContainerId) ∧
      ∃ table ∈ config.analyticTables, table.id = mapping.analyticTableId
  evaluated : ∀ lake warehouse pattern pipelinePrefix cleanRun trace outcome after,
    RunsOver pattern (executeJob (.ok config) pipelinePrefix cleanRun) ⟨false, lake, warehouse⟩
      trace (.ok outcome) after →
    ∀ mapping ∈ config.mappings, ∃ source table, config.sourceOf mapping = some source ∧
      config.tableOf mapping = some table ∧ (Fed config lake pattern source →
        ∃ files reply, (⟨.evaluate mapping (some table) files, reply⟩ : Event Effect Reply) ∈ trace)
  opened : ∀ pipelinePrefix cleanRun files earlier,
    (openTables pipelinePrefix cleanRun config.analyticTables ∅).Returns (fun opened =>
      ∀ publishes, opened = .ok publishes →
        (runMappings config pipelinePrefix files earlier ⟨publishes, 0, 0, []⟩).Returns (fun reached =>
          ∀ progress, reached = .ok progress → ∀ mapping ∈ config.mappings,
            (progress.publishes.lookup mapping.analyticTableId).isSome = true))

section Loop

variable {config : PipelineConfig} {pipelinePrefix : Text} {pattern : ReadPattern}
  {files : List (Text × Object)}

/-- Applying a mapping closes no table. -/
theorem applyMapping_opened (mapping : Mapping) (outputs : List PartitionOutput) (dropped : Nat)
    (progress : Progress) (id : Text) (isOpen : (progress.publishes.lookup id).isSome = true) :
    (applyMapping pipelinePrefix mapping outputs dropped progress).Returns
      (fun reached => (reached.publishes.lookup id).isSome = true) := by
  unfold applyMapping
  split
  · exact isOpen
  · refine Program.returns_bind (Program.returns_trivial _ ?_)
    rintro (error | written)
    · exact isOpen
    · by_cases same : id = mapping.analyticTableId
      · subst same
        simp only [Program.pure_def, Program.Returns, AList.lookup_insert, Option.isSome_some]
      · simpa only [Program.pure_def, Program.Returns, AList.lookup_insert_ne same] using isOpen

/-- The loop over the mappings closes no table that is open. -/
theorem runMappings_opened (mappings : List Mapping) (progress : Progress) (id : Text)
    (isOpen : (progress.publishes.lookup id).isSome = true) :
    (runMappings config pipelinePrefix files mappings progress).Returns (fun reached =>
      ∀ result, reached = .ok result → (result.publishes.lookup id).isSome = true) := by
  induction mappings generalizing progress with
  | nil =>
    intro result same
    rw [← Except.ok.inj same]
    exact isOpen
  | cons mapping rest inductionHypothesis =>
    simp only [runMappings, perform, Program.perform_bind]
    rintro (_ | _)
    · simp only [Bool.false_eq_true, ↓reduceIte]
      split
      · exact inductionHypothesis progress isOpen
      · split
        · exact inductionHypothesis progress isOpen
        · rintro (⟨outputs, dropped⟩ | message | joinError)
          · refine Program.returns_bind (Program.returns_mono
              (applyMapping_opened mapping outputs dropped progress id isOpen) ?_)
            exact fun reached stillOpen => inductionHypothesis reached stillOpen
          · exact inductionHypothesis _ isOpen
          · exact inductionHypothesis _ isOpen
    · exact fun _ impossible => by cases impossible

/-- Every table is open once the tables were opened. -/
theorem openTables_opened (cleanRun : Bool) (tables : List AnalyticTable) (publishes : Publishes) :
    (openTables pipelinePrefix cleanRun tables publishes).Returns (fun opened =>
      ∀ result, opened = .ok result → ∀ id,
        (∃ table ∈ tables, table.id = id) ∨ (publishes.lookup id).isSome = true →
          (result.lookup id).isSome = true) := by
  induction tables generalizing publishes with
  | nil =>
    rintro result same id (⟨table, member, _⟩ | isOpen)
    · exact absurd member List.not_mem_nil
    · rw [← Except.ok.inj same]
      exact isOpen
  | cons table rest inductionHypothesis =>
    refine Program.returns_bind (Program.returns_trivial _ ?_)
    rintro (error | manifest)
    · exact fun _ impossible => nomatch impossible
    refine Program.returns_bind (Program.returns_trivial _ (fun version => ?_))
    refine Program.returns_mono (inductionHypothesis _) ?_
    intro opened holds result same id isTable
    refine holds result same id ?_
    by_cases here : id = table.id
    · subst here
      right
      simp only [AList.lookup_insert, Option.isSome_some]
    · rcases isTable with ⟨other, member, rfl⟩ | isOpen
      · rcases List.mem_cons.mp member with rfl | member
        · exact absurd rfl here
        · exact Or.inl ⟨other, member, rfl⟩
      · right
        simpa only [AList.lookup_insert_ne here] using isOpen

/-- A loop that ends has evaluated every mapping with files. -/
theorem runMappings_evaluated {mappings : List Mapping} {progress reached : Progress}
    {before after : Progressing} {trace : List (Event Effect Reply)}
    (completed : RunsOver pattern (runMappings config pipelinePrefix files mappings progress) before
      trace (.ok reached) after) {mapping : Mapping} (member : mapping ∈ mappings)
    {source : SourceContainer} (isSource : config.sourceOf mapping = some source)
    (fed : (filesUnder source files).isEmpty = false) :
    ∃ reply, evaluation config files mapping source reply ∈ trace := by
  induction mappings generalizing progress before trace with
  | nil => exact absurd member List.not_mem_nil
  | cons head rest inductionHypothesis =>
    rcases runMappings_cons completed with ⟨impossible, _⟩ |
      ⟨first, later, progress', middle, step, continues, rfl⟩
    · exact nomatch impossible
    rcases List.mem_cons.mp member with rfl | later
    · cases step with
      | skipped unfed _ _ => exact nomatch (unfed source isSource).symm.trans fed
      | evaluated other isOther _ reply _ occurs _ _ _ =>
        obtain ⟨⟩ := isSource.symm.trans isOther
        exact ⟨reply, List.mem_append_left _ occurs⟩
    · obtain ⟨reply, occurs⟩ := inductionHypothesis continues later
      exact ⟨reply, List.mem_append_right _ occurs⟩

end Loop

/-! ## When no mapping is dropped -/

section References

variable {config : PipelineConfig}

/-- A reference that is in the collection is found there. -/
theorem sourceOf_some {mapping : Mapping}
    (declared : ∃ source ∈ config.sourceContainers, source.id = mapping.sourceContainerId) :
    ∃ source, config.sourceOf mapping = some source := by
  obtain ⟨source, member, same⟩ := declared
  exact Option.isSome_iff_exists.mp (List.find?_isSome.mpr ⟨source, member, decide_eq_true same⟩)

/-- The table of a mapping is found where it is declared. -/
theorem tableOf_some {mapping : Mapping}
    (declared : ∃ table ∈ config.analyticTables, table.id = mapping.analyticTableId) :
    ∃ table, config.tableOf mapping = some table := by
  obtain ⟨table, member, same⟩ := declared
  exact Option.isSome_iff_exists.mp (List.find?_isSome.mpr ⟨table, member, decide_eq_true same⟩)

/-- References that resolve are never dropped. -/
theorem never_dropped_of_resolves (valid : config.Valid)
    (resolves : ∀ mapping ∈ config.mappings,
      (∃ source ∈ config.sourceContainers, source.id = mapping.sourceContainerId) ∧
        ∃ table ∈ config.analyticTables, table.id = mapping.analyticTableId) :
    NeverDropped config := by
  refine ⟨resolves, ?_, ?_⟩
  · intro lake warehouse pattern pipelinePrefix cleanRun trace outcome after completed
      mapping member
    obtain ⟨source, isSource⟩ := sourceOf_some (resolves mapping member).1
    obtain ⟨table, isTable⟩ := tableOf_some (resolves mapping member).2
    refine ⟨source, table, isSource, isTable, ?_⟩
    intro fed
    cases executeJob_ending completed with
    | evaluated files exactly progress reached before middle loop maps only within outcome grows =>
      obtain ⟨reply, occurs⟩ :=
        runMappings_evaluated maps member isSource ((filesUnder_iff exactly source).mpr fed)
      have occurs := within _ occurs
      rw [evaluation, evaluated_self valid.mappings.distinct member, isTable] at occurs
      exact ⟨_, reply, occurs⟩
  · intro pipelinePrefix cleanRun files earlier
    refine Program.returns_mono (openTables_opened cleanRun config.analyticTables ∅) ?_
    intro opened holds publishes same
    have stays : ∀ mapping, (runMappings config pipelinePrefix files earlier
        ⟨publishes, 0, 0, []⟩).Returns (fun reached => mapping ∈ config.mappings →
          ∀ progress, reached = .ok progress →
            (progress.publishes.lookup mapping.analyticTableId).isSome = true) := by
      intro mapping
      by_cases member : mapping ∈ config.mappings
      · have isOpen := holds publishes same _ (Or.inl (resolves mapping member).2)
        exact Program.returns_mono (runMappings_opened earlier ⟨publishes, 0, 0, []⟩ _ isOpen)
          (fun reached stillOpen _ => stillOpen)
      · exact Program.returns_trivial _ (fun _ listed => absurd listed member)
    exact Program.returns_mono (Program.returns_forall stays)
      (fun reached stillOpen progress isReached mapping member =>
        stillOpen mapping member progress isReached)

/-- In a valid configuration no mapping is dropped if and only if every mapping names a
source and a table. -/
theorem never_dropped_iff (valid : validate config = .ok ()) :
    NeverDropped config ↔ ∀ mapping ∈ config.mappings,
      mapping.sourceContainerId ≠ [] ∧ mapping.analyticTableId ≠ [] := by
  have valid := validate_iff.mp valid
  constructor
  · intro never mapping member
    obtain ⟨⟨source, isSource, sameSource⟩, table, isTable, sameTable⟩ :=
      never.resolves mapping member
    rw [← sameSource, ← sameTable]
    exact ⟨valid.sources.required source isSource, valid.tables.required table isTable⟩
  · intro named
    refine never_dropped_of_resolves valid (fun mapping member => ?_)
    have sound := valid.mapping mapping member
    exact ⟨List.mem_map.mp (sound.source (named mapping member).1),
      List.mem_map.mp (sound.table (named mapping member).2)⟩

end References

/-- A configuration with one mapping of a source into a table. -/
def singleMapping (mapping : Mapping) : PipelineConfig :=
  ⟨[plainSource], [], [mapping], [plainTable "t".toList]⟩

/-- The plain mapping is not dropped. -/
theorem never_dropped_plain : NeverDropped (singleMapping (plainMapping "t".toList)) ↔
    ∀ mapping ∈ (singleMapping (plainMapping "t".toList)).mappings,
      mapping.sourceContainerId ≠ [] ∧ mapping.analyticTableId ≠ [] :=
  never_dropped_iff (by decide +kernel)

/-- A mapping with an empty reference to its source is accepted and dropped. -/
theorem empty_reference_dropped :
    validate (singleMapping { plainMapping "t".toList with sourceContainerId := [] }) = .ok () ∧
      ¬ NeverDropped (singleMapping { plainMapping "t".toList with sourceContainerId := [] }) := by
  refine ⟨by decide +kernel, ?_⟩
  intro never
  obtain ⟨⟨source, member, same⟩, _⟩ := never.resolves _ List.mem_cons_self
  rw [List.mem_singleton.mp member] at same
  exact absurd same (by decide)

end KaretWorker
