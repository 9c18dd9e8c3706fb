import KaretWorker.ReadFailure

/-!
# Reads of the sources

A run lists the source containers and downloads the candidates; a listing or a
download that fails is skipped with a log line. A mapping is then evaluated over
whatever was fetched under its source's prefix.

For runs over one lake with a given pattern of failures, this module says which
files are fetched and what the mapping loop does with them.
-/
namespace KaretWorker

open Texts Interaction

/-- Which listings of source prefixes and which downloads fail. -/
structure ReadPattern where
  listFails : Text → Prop
  getFails : Text → Prop

/-- A read of the lake fails exactly as the pattern says. -/
def FailsAs (pattern : ReadPattern) : (effect : Effect) → Reply effect → Prop
  | .listKeys .lake lead, .error _ => pattern.listFails lead
  | .listKeys .lake lead, .ok _ => ¬ pattern.listFails lead
  | .getBytes .lake key, .error _ => pattern.getFails key
  | .getBytes .lake key, .ok _ => ¬ pattern.getFails key
  | _, _ => True

/-- The effect that ends the reading of the sources. -/
def Effect.endsReading : Effect → Bool
  | .buildInlineRegistry _ => true
  | _ => false

/-- The buckets of a run, and whether it has finished reading its sources. -/
structure Progressing where
  finishedReading : Bool
  buckets : Buckets

/-- One effect of a run whose source reads fail as the pattern says. Everything else
may be answered in any way. -/
def Patterned (pattern : ReadPattern) (before : Progressing) (effect : Effect)
    (reply : Reply effect) (after : Progressing) : Prop :=
  Genuine effect reply ∧
    (∃ given, answer before.buckets effect given = some (reply, after.buckets)) ∧
    after.finishedReading = (before.finishedReading || effect.endsReading) ∧
    (before.finishedReading = false → FailsAs pattern effect reply)

/-- A run to its end over a lake, with its source reads failing as the pattern says. -/
abbrev RunsOver {α : Type} (pattern : ReadPattern) (job : Job α) (before : Progressing)
    (trace : List (Event Effect Reply)) (value : α) (after : Progressing) : Prop :=
  Program.Completes (Patterned pattern) job before trace value after

/-! ## What the claim of a clean run is -/

/-- The object is stored under the container's prefix with an accepted extension. -/
def Offered (lake : Store) (container : SourceContainer) (key : Text) : Prop :=
  container.pathPrefix <+: key ∧ container.accepts key = true ∧ (lake.lookup key).isSome = true

/-- The object is offered by a container whose listing succeeds, and so does its
download. -/
def Fetched (config : PipelineConfig) (lake : Store) (pattern : ReadPattern) (key : Text) : Prop :=
  ¬ pattern.getFails key ∧
    ∃ container ∈ config.sourceContainers, ¬ pattern.listFails container.pathPrefix ∧
      Offered lake container key

/-- Some fetched object lies under the container's prefix. -/
def Fed (config : PipelineConfig) (lake : Store) (pattern : ReadPattern)
    (container : SourceContainer) : Prop :=
  ∃ key, Fetched config lake pattern key ∧ container.pathPrefix <+: key

/-- The mapping was evaluated into partitions. In a run without errors these are
uploaded and published in place of the mapping's previous files. -/
def Replaces (mapping : Mapping) (trace : List (Event Effect Reply)) : Prop :=
  ∃ table files outputs dropped,
    (⟨.evaluate mapping table files, .partitions outputs dropped⟩ : Event Effect Reply) ∈ trace

/-- The object was among the files the mapping was evaluated over. -/
def HandedOver (mapping : Mapping) (key : Text) (body : Object)
    (trace : List (Event Effect Reply)) : Prop :=
  ∃ table files reply,
    (⟨.evaluate mapping table files, reply⟩ : Event Effect Reply) ∈ trace ∧ (key, body) ∈ files

/-- The promise of a clean outcome. -/
def ReadsAll (config : PipelineConfig) (lake : Store) (trace : List (Event Effect Reply))
    (result : Except JobError JobOutcome) : Prop :=
  (∀ outcome, result = .ok outcome → outcome.errors = [] →
    ∀ mapping ∈ config.mappings, ∀ container, config.sourceOf mapping = some container →
      Replaces mapping trace → ∀ key body, Offered lake container key →
        lake.lookup key = some body → HandedOver mapping key body trace) ∧
  (result = .error .noFiles →
    ∀ container ∈ config.sourceContainers, ∀ key, ¬ Offered lake container key)

/-- Failures never split a source: a mapping that is fed has its source fetched
whole, unless a fed mapping names no declared table; and something was fetched,
unless nothing is offered. -/
def WholeSources (config : PipelineConfig) (lake : Store) (pattern : ReadPattern) : Prop :=
  ((∃ mapping ∈ config.mappings, ∃ container, config.sourceOf mapping = some container ∧
      Fed config lake pattern container ∧ config.tableOf mapping = none) ∨
    ∀ mapping ∈ config.mappings, ∀ container, config.sourceOf mapping = some container →
      Fed config lake pattern container →
      ∀ key, Offered lake container key → Fetched config lake pattern key) ∧
  ((∃ key, Fetched config lake pattern key) ∨
    ∀ container ∈ config.sourceContainers, ∀ key, ¬ Offered lake container key)

/-! ## Reading the sources -/

section Reading

variable {pattern : ReadPattern} {lake warehouse : Store} {after : Progressing}
  {trace : List (Event Effect Reply)}

/-- A read leaves everything as it is. -/
theorem patterned_read {before : Progressing} {effect : Effect} {reply : Reply effect}
    (isRead : (∃ bucket key, effect = .getBytes bucket key) ∨
      ∃ bucket lead, effect = .listKeys bucket lead)
    (patterned : Patterned pattern before effect reply after) : after = before := by
  obtain ⟨_, ⟨given, answered⟩, stage, _⟩ := patterned
  obtain ⟨finished, buckets⟩ := after
  rcases isRead with ⟨bucket, key, rfl⟩ | ⟨bucket, lead, rfl⟩
  · simp only [Effect.endsReading, Bool.or_false] at stage
    have same := (answer_getBytes answered).1
    simp only at same
    rw [same, stage]
  · simp only [Effect.endsReading, Bool.or_false] at stage
    have same := (answer_listKeys answered).1
    simp only at same
    rw [same, stage]

/-- The candidates grow by the listed objects with an accepted extension. -/
theorem mem_addCandidates {container : SourceContainer} {candidates listed : List Text}
    {key : Text} : key ∈ addCandidates container candidates listed ↔
      key ∈ candidates ∨ (key ∈ listed ∧ container.accepts key = true) := by
  unfold addCandidates
  induction listed generalizing candidates with
  | nil => simp
  | cons head rest inductionHypothesis =>
    rw [List.foldl_cons, inductionHypothesis]
    split <;> grind

/-- The candidates are the objects offered by the containers whose listing
succeeds. -/
theorem listSources_completes {containers : List SourceContainer} {candidates found : List Text}
    (completed : RunsOver pattern (listSources containers candidates) ⟨false, lake, warehouse⟩ trace
      found after) :
    after = ⟨false, lake, warehouse⟩ ∧ ∀ key, key ∈ found ↔ key ∈ candidates ∨
      ∃ container ∈ containers, ¬ pattern.listFails container.pathPrefix ∧
        Offered lake container key := by
  induction containers generalizing candidates trace with
  | nil =>
    cases completed
    simp
  | cons container rest inductionHypothesis =>
    simp only [listSources, perform, Program.perform_bind] at completed
    obtain ⟨reply, middle, later, patterned, continues, _⟩ := Program.call_completes completed
    obtain rfl := patterned_read (Or.inr ⟨_, _, rfl⟩) patterned
    obtain ⟨_, ⟨given, answered⟩, _, fails⟩ := patterned
    cases reply with
    | error error =>
      have failed : pattern.listFails container.pathPrefix := fails rfl
      obtain ⟨same, members⟩ := inductionHypothesis continues
      refine ⟨same, fun key => ?_⟩
      simp only [members, List.mem_cons, exists_eq_or_imp, failed, not_true_eq_false, false_and,
        false_or]
    | ok listed =>
      have succeeded : ¬ pattern.listFails container.pathPrefix := fails rfl
      obtain rfl := (answer_listKeys answered).2 listed rfl
      obtain ⟨same, members⟩ := inductionHypothesis continues
      refine ⟨same, fun key => ?_⟩
      simp only [members, mem_addCandidates, List.mem_cons, exists_eq_or_imp, succeeded,
        not_false_eq_true, true_and, Store.mem_listKeys, Buckets.store, Offered, or_assoc,
          and_assoc]
      tauto

/-- The downloaded files are the candidates whose download succeeds, with the
bodies they have in the lake. -/
theorem downloadAll_completes {candidates : List Text} {files : List (Text × Object)}
    {result : Except JobError (List (Text × Object))}
    (completed : RunsOver pattern (downloadAll candidates files) ⟨false, lake, warehouse⟩ trace
      result after) :
    after = ⟨false, lake, warehouse⟩ ∧ (result = .error .cancelled ∨
      ∃ found, result = .ok found ∧ ∀ key body, (key, body) ∈ found ↔ (key, body) ∈ files ∨
        (key ∈ candidates ∧ ¬ pattern.getFails key ∧ lake.lookup key = some body)) := by
  induction candidates generalizing files trace with
  | nil =>
    cases completed
    simp
  | cons key rest inductionHypothesis =>
    simp only [downloadAll, perform, Program.perform_bind] at completed
    obtain ⟨cancelled, middle, later, patterned, continues, _⟩ := Program.call_completes completed
    obtain ⟨_, ⟨given, answered⟩, stage, _⟩ := patterned
    obtain rfl : middle = ⟨false, lake, warehouse⟩ := by
      obtain ⟨finished, buckets⟩ := middle
      cases given <;> simp only [answer, Option.some.injEq, Prod.mk.injEq, reduceCtorEq] at answered
      simp only [Effect.endsReading, Bool.or_false] at stage
      rw [stage, ← answered.2]
    cases cancelled with
    | true =>
      cases continues
      exact ⟨rfl, Or.inl rfl⟩
    | false =>
      simp only [Bool.false_eq_true, ↓reduceIte] at continues
      obtain ⟨reply, middle, later, patterned, continues, _⟩ := Program.call_completes continues
      obtain rfl := patterned_read (Or.inl ⟨_, _, rfl⟩) patterned
      obtain ⟨_, ⟨given, answered⟩, _, fails⟩ := patterned
      cases reply with
      | error error =>
        have failed : pattern.getFails key := fails rfl
        obtain ⟨same, outcome⟩ := inductionHypothesis continues
        refine ⟨same, outcome.imp_right ?_⟩
        rintro ⟨found, isFound, members⟩
        refine ⟨found, isFound, fun other body => ?_⟩
        rw [members, List.mem_cons]
        constructor
        · rintro (before | ⟨member, downloads⟩)
          · exact Or.inl before
          · exact Or.inr ⟨Or.inr member, downloads⟩
        · rintro (before | ⟨rfl | member, succeeds, present⟩)
          · exact Or.inl before
          · exact absurd failed succeeds
          · exact Or.inr ⟨member, succeeds, present⟩
      | ok fetched =>
        have succeeded : ¬ pattern.getFails key := fails rfl
        have present : lake.lookup key = some fetched := by
          rcases (answer_getBytes answered).2 with ⟨_, ⟨⟩, present⟩ | ⟨_, impossible, _⟩
          · exact present
          · cases impossible
        obtain ⟨same, outcome⟩ := inductionHypothesis continues
        refine ⟨same, outcome.imp_right ?_⟩
        rintro ⟨found, isFound, members⟩
        refine ⟨found, isFound, fun other body => ?_⟩
        rw [members, List.mem_append, List.mem_singleton, List.mem_cons, Prod.mk.injEq]
        constructor
        · rintro ((before | ⟨rfl, rfl⟩) | ⟨member, downloads⟩)
          · exact Or.inl before
          · exact Or.inr ⟨Or.inl rfl, succeeded, present⟩
          · exact Or.inr ⟨Or.inr member, downloads⟩
        · rintro (before | ⟨rfl | member, succeeds, isBody⟩)
          · exact Or.inl (Or.inl before)
          · exact Or.inl (Or.inr ⟨rfl, Option.some.inj (isBody.symm.trans present)⟩)
          · exact Or.inr ⟨member, succeeds, isBody⟩

/-- Files are what the configuration, the lake and the pattern let a run fetch. -/
def FilesOf (config : PipelineConfig) (lake : Store) (pattern : ReadPattern)
    (files : List (Text × Object)) : Prop :=
  ∀ key body, (key, body) ∈ files ↔
    Fetched config lake pattern key ∧ lake.lookup key = some body

/-- A container's files are not empty exactly when it is fed. -/
theorem filesUnder_iff {config : PipelineConfig} {files : List (Text × Object)}
    (exactly : FilesOf config lake pattern files) (container : SourceContainer) :
    (filesUnder container files).isEmpty = false ↔ Fed config lake pattern container := by
  rw [List.isEmpty_eq_false_iff_exists_mem]
  constructor
  · rintro ⟨⟨key, body⟩, member⟩
    obtain ⟨isFile, under⟩ := List.mem_filter.mp member
    exact ⟨key, ((exactly key body).mp isFile).1, List.isPrefixOf_iff_prefix.mp under⟩
  · rintro ⟨key, fetched, under⟩
    have isFetched := fetched
    obtain ⟨_, _, _, _, _, _, isStored⟩ := isFetched
    obtain ⟨body, present⟩ := Option.isSome_iff_exists.mp isStored
    exact ⟨(key, body), List.mem_filter.mpr ⟨(exactly key body).mpr ⟨fetched, present⟩,
      List.isPrefixOf_iff_prefix.mpr under⟩⟩

end Reading

/-! ## Evaluating the mappings -/

/-- The effect hands files to a mapping. -/
def Effect.Evaluates : Effect → Prop
  | .evaluate _ _ _ => True
  | _ => False

section Mappings

variable {config : PipelineConfig} {pipelinePrefix : Text} {pattern : ReadPattern}
  {files : List (Text × Object)} {before after : Progressing} {trace : List (Event Effect Reply)}

/-- The effect stores a data file. -/
def Effect.StoresData : Effect → Prop
  | .putObject .warehouse _ (.data _) => True
  | _ => False

/-- Uploads start no mapping. -/
theorem Effect.StoresData.not_evaluates {effect : Effect} (stores : effect.StoresData) :
    ¬ effect.Evaluates := by
  intro evaluates
  cases effect with
  | evaluate mapping table files => exact stores
  | getBytes | listKeys | putObject | deleteObject | loadCancel | now | overflow | iterate
  | buildInlineRegistry | rowsFromCsv | newMatcher => exact evaluates

/-- Partitions are uploaded by puts of data. -/
theorem uploadPartitions_stores (pipelinePrefix : Text) (version : Nat) (mappingId : Text)
    (outputs : List PartitionOutput) (written : List ManifestFile) :
    (uploadPartitions pipelinePrefix version mappingId outputs written).Calls
      Effect.StoresData := by
  induction outputs generalizing written with
  | nil => trivial
  | cons output rest inductionHypothesis =>
    unfold uploadPartitions
    split
    · trivial
    · refine ⟨trivial, ?_⟩
      rintro (error | ⟨⟩)
      · trivial
      · exact inductionHypothesis _

/-- Applying a mapping stores data files and does nothing else. -/
theorem applyMapping_stores (mapping : Mapping) (outputs : List PartitionOutput) (dropped : Nat)
    (progress : Progress) :
    (applyMapping pipelinePrefix mapping outputs dropped progress).Calls Effect.StoresData := by
  unfold applyMapping
  split
  · trivial
  · refine Program.calls_bind (uploadPartitions_stores _ _ _ _ _) ?_
    rintro (error | written)
    · trivial
    · trivial

/-- Taking a mapping's result starts no other mapping. -/
theorem applyMapping_calls (mapping : Mapping) (outputs : List PartitionOutput) (dropped : Nat)
    (progress : Progress) :
    (applyMapping pipelinePrefix mapping outputs dropped progress).Calls
      (fun effect => ¬ effect.Evaluates) :=
  Program.calls_mono (applyMapping_stores mapping outputs dropped progress)
    (fun _ => Effect.StoresData.not_evaluates)

/-- Applying a mapping only adds errors. -/
theorem applyMapping_errors {mapping : Mapping} {outputs : List PartitionOutput} {dropped : Nat}
    {progress result : Progress}
    (completed :
      RunsOver pattern (applyMapping pipelinePrefix mapping outputs dropped progress) before
      trace result after) : progress.errors <+: result.errors := by
  unfold applyMapping at completed
  split at completed
  · cases completed
    exact List.prefix_append _ _
  · obtain ⟨_, uploaded, _, _, _, finishes, _⟩ := Program.bind_completes completed
    cases uploaded with
    | error error =>
      cases finishes
      exact List.prefix_append _ _
    | ok written =>
      cases finishes
      exact List.prefix_refl _

/-- The event of evaluating a mapping over a container's files. -/
def evaluation (config : PipelineConfig) (files : List (Text × Object)) (mapping : Mapping)
    (container : SourceContainer) (reply : Evaluation) : Event Effect Reply :=
  ⟨.evaluate ((config.mappings.find? (fun other => other.id = mapping.id)).getD mapping)
    (config.tableOf mapping) (filesUnder container files), reply⟩

/-- What the mapping loop does with its first mapping. -/
inductive MappingStep (config : PipelineConfig) (files : List (Text × Object)) (mapping : Mapping)
    (progress : Progress) (first : List (Event Effect Reply)) (progress' : Progress) : Prop where
  | skipped (unfed : ∀ container, config.sourceOf mapping = some container →
        (filesUnder container files).isEmpty = true)
      (quiet : ∀ event ∈ first, ¬ event.1.Evaluates) (same : progress' = progress)
  | evaluated (container : SourceContainer) (isSource : config.sourceOf mapping = some container)
      (fed : (filesUnder container files).isEmpty = false) (reply : Evaluation)
      (genuine : Genuine (evaluation config files mapping container reply).1 reply)
      (occurs : evaluation config files mapping container reply ∈ first)
      (only : ∀ event ∈ first,
        event = evaluation config files mapping container reply ∨ ¬ event.1.Evaluates)
      (grows : progress.errors <+: progress'.errors)
      (reported : (∀ outputs dropped, reply ≠ .partitions outputs dropped) → progress'.errors ≠ [])

/-- The mapping loop ends cancelled at its first mapping, or deals with it and goes
on with the rest. -/
theorem runMappings_cons {mapping : Mapping} {rest : List Mapping} {progress : Progress}
    {result : Except JobError Progress}
    (completed :
      RunsOver pattern (runMappings config pipelinePrefix files (mapping :: rest) progress)
      before trace result after) :
    (result = .error .cancelled ∧ ∀ event ∈ trace, ¬ event.1.Evaluates) ∨
      ∃ first later progress' middle, MappingStep config files mapping progress first progress' ∧
        RunsOver pattern (runMappings config pipelinePrefix files rest progress') middle
          later result
          after ∧ trace = first ++ later := by
  simp only [runMappings, perform, Program.perform_bind] at completed
  obtain ⟨cancelled, middle, later, _, continues, rfl⟩ := Program.call_completes completed
  have polled : ∀ event ∈ [(⟨.loadCancel, cancelled⟩ : Event Effect Reply)],
      ¬ event.1.Evaluates := by
    intro event member
    rw [List.mem_singleton.mp member]
    exact id
  cases cancelled with
  | true =>
    cases continues
    exact Or.inl ⟨rfl, polled⟩
  | false =>
    right
    simp only [Bool.false_eq_true, ↓reduceIte] at continues
    cases isSource : config.sourceOf mapping with
    | none =>
      rw [isSource] at continues
      refine ⟨[_], later, progress, middle, .skipped ?_ polled rfl, continues, rfl⟩
      exact fun container impossible => by cases isSource.symm.trans impossible
    | some container =>
      rw [isSource] at continues
      simp only at continues
      cases unfed : (filesUnder container files).isEmpty with
      | true =>
        rw [if_pos unfed] at continues
        refine ⟨[_], later, progress, middle, .skipped ?_ polled rfl, continues, rfl⟩
        intro other isOther
        obtain ⟨⟩ := isSource.symm.trans isOther
        exact unfed
      | false =>
        rw [if_neg (by simp [unfed])] at continues
        obtain ⟨reply, reached, further, ⟨genuine, _⟩, goesOn, rfl⟩ :=
          Program.call_completes continues
        have occurs : evaluation config files mapping container reply ∈
            [⟨.loadCancel, false⟩, evaluation config files mapping container reply] :=
          List.mem_cons_of_mem _ List.mem_cons_self
        have only : ∀ event ∈
              [⟨.loadCancel, false⟩, evaluation config files mapping container reply],
            event = evaluation config files mapping container reply ∨ ¬ event.1.Evaluates := by
          intro event member
          rcases List.mem_cons.mp member with rfl | member
          · exact Or.inr id
          · exact Or.inl (List.mem_singleton.mp member)
        cases reply with
        | failed message =>
          exact ⟨_, further, _, reached, .evaluated container isSource unfed (.failed message)
            genuine occurs only (List.prefix_append _ [message]) (fun _ => by simp), goesOn, rfl⟩
        | panicked joinError =>
          exact ⟨_, further, _, reached, .evaluated container isSource unfed (.panicked joinError)
            genuine occurs only (List.prefix_append _ [_]) (fun _ => by simp), goesOn, rfl⟩
        | partitions outputs dropped =>
          obtain ⟨applying, progress', between, afterwards, applies, finishes, rfl⟩ :=
            Program.bind_completes goesOn
          have quiet := Program.calls_completes
            (applyMapping_calls mapping outputs dropped progress) applies
          refine ⟨[⟨.loadCancel, false⟩, evaluation config files mapping container
            (.partitions outputs dropped)] ++ applying, afterwards, progress', between,
            .evaluated container isSource unfed (.partitions outputs dropped) genuine
              (List.mem_append_left _ occurs) ?_ (applyMapping_errors applies)
              (fun different => absurd rfl (different outputs dropped)), finishes, rfl⟩
          intro event member
          rcases List.mem_append.mp member with early | applied
          · exact only event early
          · exact Or.inr (quiet event applied)

/-- Each evaluation of the mapping loop is of some mapping over all fetched files of
its source. -/
theorem runMappings_events {mappings : List Mapping} {progress : Progress}
    {result : Except JobError Progress}
    (completed : RunsOver pattern (runMappings config pipelinePrefix files mappings progress) before
      trace result after) {event : Event Effect Reply} (occurred : event ∈ trace)
    (evaluates : event.1.Evaluates) :
    ∃ mapping ∈ mappings, ∃ container reply, config.sourceOf mapping = some container ∧
      (filesUnder container files).isEmpty = false ∧
      event = evaluation config files mapping container reply := by
  induction mappings generalizing progress before trace with
  | nil =>
    cases completed
    exact absurd occurred List.not_mem_nil
  | cons mapping rest inductionHypothesis =>
    rcases runMappings_cons completed with ⟨_, quiet⟩ |
      ⟨first, later, progress', middle, step, continues, rfl⟩
    · exact absurd evaluates (quiet event occurred)
    rcases List.mem_append.mp occurred with early | late
    · cases step with
      | skipped _ quiet _ => exact absurd evaluates (quiet event early)
      | evaluated container isSource fed reply _ _ only _ _ =>
        rcases only event early with same | quiet
        · exact ⟨mapping, List.mem_cons_self, container, reply, isSource, fed, same⟩
        · exact absurd evaluates quiet
    · obtain ⟨other, member, found⟩ := inductionHypothesis continues late
      exact ⟨other, List.mem_cons_of_mem _ member, found⟩

/-- The mapping loop only adds errors. -/
theorem runMappings_errors {mappings : List Mapping} {progress reached : Progress}
    (completed : RunsOver pattern (runMappings config pipelinePrefix files mappings progress) before
      trace (.ok reached) after) : progress.errors <+: reached.errors := by
  induction mappings generalizing progress before trace with
  | nil =>
    cases completed
    exact List.prefix_refl _
  | cons mapping rest inductionHypothesis =>
    rcases runMappings_cons completed with ⟨impossible, _⟩ |
      ⟨first, later, progress', middle, step, continues, rfl⟩
    · exact nomatch impossible
    have grows := inductionHypothesis continues
    cases step with
    | skipped _ _ same =>
      rw [same] at grows
      exact grows
    | evaluated _ _ _ _ _ _ _ grew _ => exact grew.trans grows

/-- In a mapping loop that ends without errors, every mapping with files was
evaluated into partitions. -/
theorem runMappings_partitions {mappings : List Mapping} {progress reached : Progress}
    (completed : RunsOver pattern (runMappings config pipelinePrefix files mappings progress) before
      trace (.ok reached) after) (clean : reached.errors = []) {mapping : Mapping}
    (member : mapping ∈ mappings) {container : SourceContainer}
    (isSource : config.sourceOf mapping = some container)
    (fed : (filesUnder container files).isEmpty = false) :
    ∃ outputs dropped,
      evaluation config files mapping container (.partitions outputs dropped) ∈ trace ∧
      (config.tableOf mapping).isSome = true := by
  induction mappings generalizing progress before trace with
  | nil => exact absurd member List.not_mem_nil
  | cons head rest inductionHypothesis =>
    rcases runMappings_cons completed with ⟨impossible, _⟩ |
      ⟨first, later, progress', middle, step, continues, rfl⟩
    · exact nomatch impossible
    rcases List.mem_cons.mp member with rfl | later
    · cases step with
      | skipped unfed _ _ => exact nomatch (unfed container isSource).symm.trans fed
      | evaluated other isOther _ reply genuine occurs _ _ reported =>
        obtain ⟨⟩ := isSource.symm.trans isOther
        have noErrors : progress'.errors = [] := by
          have grows := runMappings_errors continues
          rw [clean] at grows
          exact List.prefix_nil.mp grows
        cases reply with
        | partitions outputs dropped =>
          obtain ⟨declared, isDeclared, _⟩ := genuine
          exact ⟨outputs, dropped, List.mem_append_left _ occurs, by
            rw [isDeclared, Option.isSome_some]⟩
        | failed message =>
            exact absurd noErrors (reported (fun _ _ impossible => nomatch impossible))
        | panicked joinError =>
          exact absurd noErrors (reported (fun _ _ impossible => nomatch impossible))
    · obtain ⟨outputs, dropped, occurs, declared⟩ := inductionHypothesis continues later
      exact ⟨outputs, dropped, List.mem_append_right _ occurs, declared⟩

end Mappings

end KaretWorker
