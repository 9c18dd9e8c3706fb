import KaretWorker.CleanRun
import KaretWorker.Ingestion

/-!
# Files and their sources

A run finds the source of a file in three ways. It lists each container and keeps the
objects with one of the container's extensions; it gives a mapping the files under its
container's prefix; and ingestion takes the first container whose prefix the key has.

The validator rejects prefixes that lie within one another. A key therefore has at most
one of them, and the three ways agree (`routes_agree`).
-/
namespace KaretWorker

open Texts Interaction

/-- The key lies under the container's prefix and has one of its extensions. -/
def SourceContainer.Holds (container : SourceContainer) (key : Text) : Prop :=
  container.pathPrefix <+: key ∧ container.accepts key = true

/-- What is promised of the sources of a configuration: at most one prefix matches a key,
so the order of the containers does not matter; and whatever a run evaluates a mapping
over is held by the mapping's container, which is the one that ingestion uses. -/
structure RoutesAgree (config : PipelineConfig) : Prop where
  unique : ∀ key, ∀ left right : Fin config.sourceContainers.length,
    (config.sourceContainers.get left).pathPrefix <+: key →
    (config.sourceContainers.get right).pathPrefix <+: key → left = right
  anyOrder : ∀ key, ∀ reordered : List SourceContainer, reordered.Perm config.sourceContainers →
    resolveSourceContainer key { config with sourceContainers := reordered } =
      resolveSourceContainer key config
  selected : ∀ pipelinePrefix cleanRun buckets trace result final,
    Program.Completes (Given (fun _ _ _ => True)) (executeJob (.ok config) pipelinePrefix cleanRun)
      buckets trace result final →
    ∀ mapping table files reply,
      (⟨.evaluate mapping table files, reply⟩ : Event Effect Reply) ∈ trace →
      mapping ∈ config.mappings ∧ ∃ container, config.sourceOf mapping = some container ∧
        ∀ file ∈ files, container.Holds file.1 ∧
          resolveSourceContainer file.1 config = .ok container ∧
          ∀ polars readJsonSource registry bytes,
            ingestFile polars readJsonSource registry config mapping file.1 bytes =
              ingestFrom polars readJsonSource registry file.1 container mapping bytes

section Containers

variable {config : PipelineConfig}

/-- No key lies under the prefixes of two containers. -/
theorem prefix_unique (valid : config.Valid) {key : Text}
    {left right : Fin config.sourceContainers.length}
    (isLeft : (config.sourceContainers.get left).pathPrefix <+: key)
    (isRight : (config.sourceContainers.get right).pathPrefix <+: key) : left = right := by
  have apart := List.pairwise_iff_get.mp valid.apart
  rcases lt_trichotomy left right with before | same | after
  · obtain ⟨notLeft, notRight⟩ := apart left right before
    rcases List.prefix_or_prefix_of_prefix isLeft isRight with within | within
    · exact absurd within notLeft
    · exact absurd within notRight
  · exact same
  · obtain ⟨notRight, notLeft⟩ := apart right left after
    rcases List.prefix_or_prefix_of_prefix isLeft isRight with within | within
    · exact absurd within notLeft
    · exact absurd within notRight

/-- A container that lies around a key is the one around it. -/
theorem container_unique (valid : config.Valid) {key : Text} {left right : SourceContainer}
    (isLeft : left ∈ config.sourceContainers) (isRight : right ∈ config.sourceContainers)
    (around : left.pathPrefix <+: key) (alsoAround : right.pathPrefix <+: key) : left = right := by
  obtain ⟨position, rfl⟩ := List.mem_iff_get.mp isLeft
  obtain ⟨other, rfl⟩ := List.mem_iff_get.mp isRight
  rw [prefix_unique valid around alsoAround]

/-- Whatever list of the containers is searched, a key resolves to the one around it. -/
theorem resolve_around (valid : config.Valid) {key : Text} {containers : List SourceContainer}
    (among : containers ⊆ config.sourceContainers) {container : SourceContainer}
    (member : container ∈ containers) (around : container.pathPrefix <+: key) :
    resolveSourceContainer key { config with sourceContainers := containers } = .ok container := by
  have isAround : container.pathPrefix.isPrefixOf key = true :=
    List.isPrefixOf_iff_prefix.mpr around
  cases found : containers.find? (fun other => other.pathPrefix.isPrefixOf key) with
  | none => exact absurd isAround (List.find?_eq_none.mp found container member)
  | some other =>
    have otherAround := List.find?_some found
    have same := container_unique valid (among (List.mem_of_find?_eq_some found)) (among member)
      (List.isPrefixOf_iff_prefix.mp otherAround) around
    simp only [resolveSourceContainer, found, same]

/-- The order of the containers does not matter. -/
theorem resolve_perm (valid : config.Valid) (key : Text) {reordered : List SourceContainer}
    (perm : reordered.Perm config.sourceContainers) :
    resolveSourceContainer key { config with sourceContainers := reordered } =
      resolveSourceContainer key config := by
  by_cases found : ∃ container ∈ config.sourceContainers, container.pathPrefix <+: key
  · obtain ⟨container, member, around⟩ := found
    rw [resolve_around valid perm.subset (perm.symm.subset member) around]
    exact (resolve_around valid (List.Subset.refl _) member around).symm
  · have unresolved : ∀ containers : List SourceContainer, containers ⊆ config.sourceContainers →
        containers.find? (fun container => container.pathPrefix.isPrefixOf key) = none := by
      intro containers among
      refine List.find?_eq_none.mpr (fun container member around => found ⟨container, ?_, ?_⟩)
      · exact among member
      · exact List.isPrefixOf_iff_prefix.mp around
    simp only [resolveSourceContainer, unresolved _ perm.subset, unresolved _ (List.Subset.refl _)]

end Containers

/-! ## Files of a run -/

section Files

variable {config : PipelineConfig}

/-- A listing yields keys with the lead that was asked for. -/
def Listed : (effect : Effect) → Reply effect → Prop
  | .listKeys _ lead, .ok keys => ∀ key ∈ keys, lead <+: key
  | _, _ => True

/-- A mapping of the configuration is evaluated over files held by its container. -/
def Effect.Routed (config : PipelineConfig) : Effect → Prop
  | .evaluate mapping _ files => mapping ∈ config.mappings ∧
      ∃ container, config.sourceOf mapping = some container ∧
        ∀ file ∈ files, container.Holds file.1
  | _ => True

/-- The key is held by some container of the configuration. -/
def Claimed (config : PipelineConfig) (key : Text) : Prop :=
  ∃ container ∈ config.sourceContainers, container.Holds key

/-- Every evaluation of the program is routed, as long as listings are served with the
keys they ask for. -/
abbrev Routes {α : Type} (config : PipelineConfig) (post : α → Prop) (job : Job α) : Prop :=
  Program.Follows Listed (fun _ effect _ _ => effect.Routed config) (fun value _ => post value) job ()

/-- A listing is answered with keys under its prefix. -/
theorem given_listed {permits : Buckets → Effect → Answer → Prop} {buckets buckets' : Buckets}
    {effect : Effect} {reply : Reply effect} (given : Given permits buckets effect reply buckets') :
    Listed effect reply := by
  obtain ⟨_, _, _, answered⟩ := given
  cases effect with
  | listKeys bucket lead =>
    cases reply with
    | error error => trivial
    | ok keys =>
      obtain rfl := (answer_listKeys answered).2 keys rfl
      exact fun key member => (Store.mem_listKeys.mp member).1
  | getBytes | putObject | deleteObject | loadCancel | now | overflow | iterate
  | buildInlineRegistry
  | rowsFromCsv | newMatcher | evaluate => trivial

/-- Whatever evaluates nothing is routed. -/
theorem routes_quiet {α : Type} {job : Job α}
    (quiet : job.Calls (fun effect => ¬ effect.Evaluates)) :
    Routes config (fun _ => True) job := by
  refine Program.follows_mono (Program.follows_of_calls quiet () ?_) (fun _ _ _ => trivial)
  intro effect _ silent
  cases effect with
  | evaluate mapping table files => exact absurd trivial silent
  | getBytes | listKeys | putObject | deleteObject | loadCancel | now | overflow | iterate
  | buildInlineRegistry | rowsFromCsv | newMatcher => trivial

/-- The candidates are claimed by containers. -/
theorem listSources_routes {containers : List SourceContainer} {candidates : List Text}
    (among : containers ⊆ config.sourceContainers)
    (claimed : ∀ key ∈ candidates, Claimed config key) :
    Routes config (fun found => ∀ key ∈ found, Claimed config key)
      (listSources containers candidates) := by
  induction containers generalizing candidates with
  | nil => exact claimed
  | cons container rest inductionHypothesis =>
    have isContainer := among List.mem_cons_self
    have later : rest ⊆ config.sourceContainers :=
      fun _ member => among (List.mem_cons_of_mem _ member)
    simp only [listSources, perform, Program.perform_bind]
    rintro (error | listed) hasLead
    · exact ⟨(), trivial, inductionHypothesis later claimed⟩
    · refine ⟨(), trivial, inductionHypothesis later (fun key member => ?_)⟩
      rcases mem_addCandidates.mp member with before | ⟨isListed, accepted⟩
      · exact claimed key before
      · exact ⟨container, isContainer, hasLead key isListed, accepted⟩

/-- What is downloaded was claimed by a source. -/
theorem downloadAll_routes {candidates : List Text} {files : List (Text × Object)}
    (claimed : ∀ key ∈ candidates, Claimed config key)
    (filesClaimed : ∀ file ∈ files, Claimed config file.1) :
    Routes config
      (fun result => ∀ found, result = .ok found → ∀ file ∈ found, Claimed config file.1)
      (downloadAll candidates files) := by
  induction candidates generalizing files with
  | nil =>
    rintro found ⟨⟩
    exact filesClaimed
  | cons key rest inductionHypothesis =>
    rw [List.forall_mem_cons] at claimed
    simp only [downloadAll, perform, Program.perform_bind]
    rintro (_ | _) _
    · refine ⟨(), trivial, ?_⟩
      rintro (error | body) _
      · exact ⟨(), trivial, inductionHypothesis claimed.2 filesClaimed⟩
      · refine ⟨(), trivial, inductionHypothesis claimed.2 (fun file member => ?_)⟩
        rcases List.mem_append.mp member with before | last
        · exact filesClaimed file before
        · rw [List.mem_singleton.mp last]
          exact claimed.1
    · exact ⟨(), trivial, fun _ impossible => by cases impossible⟩

/-- A claimed key under a container's prefix is held by that container. -/
theorem Claimed.held (valid : config.Valid) {key : Text} (claimed : Claimed config key)
    {container : SourceContainer} (member : container ∈ config.sourceContainers)
    (around : container.pathPrefix <+: key) : container.Holds key := by
  obtain ⟨holder, isHolder, holds⟩ := claimed
  rw [container_unique valid member isHolder around holds.1]
  exact holds

/-- The mapping loop evaluates mappings over files of their containers. -/
theorem runMappings_routes (valid : config.Valid) {pipelinePrefix : Text}
    {files : List (Text × Object)} (claimed : ∀ file ∈ files, Claimed config file.1)
    {mappings : List Mapping} (among : mappings ⊆ config.mappings) (progress : Progress) :
    Routes config (fun _ => True) (runMappings config pipelinePrefix files mappings progress) := by
  induction mappings generalizing progress with
  | nil => trivial
  | cons mapping rest inductionHypothesis =>
    have goesOn := fun progress =>
      inductionHypothesis (fun _ member => among (List.mem_cons_of_mem _ member)) progress
    simp only [runMappings, perform, Program.perform_bind]
    rintro (_ | _) _
    · refine ⟨(), trivial, ?_⟩
      simp only [Bool.false_eq_true, ↓reduceIte]
      split
      · exact goesOn _
      next container isSource =>
      split
      · exact goesOn _
      -- The looked-up mapping is the mapping itself, for ids are distinct.
      rw [evaluated_self valid.mappings.distinct (among List.mem_cons_self)]
      intro evaluation _
      refine ⟨(), ⟨among List.mem_cons_self, container, isSource, fun file member => ?_⟩, ?_⟩
      · obtain ⟨isFile, around⟩ := List.mem_filter.mp member
        exact (claimed file isFile).held valid (List.mem_of_find?_eq_some isSource)
          (List.isPrefixOf_iff_prefix.mp around)
      · cases evaluation with
        | failed | panicked => exact goesOn _
        | partitions outputs dropped =>
          exact Program.follows_bind (Program.follows_mono
            (routes_quiet (applyMapping_calls mapping outputs dropped progress))
            (fun _ _ _ => goesOn _))
    · exact ⟨(), trivial, trivial⟩

/-- Every evaluation of a run is routed. -/
theorem executeJob_routes (valid : config.Valid) (pipelinePrefix : Text) (cleanRun : Bool) :
    Routes config (fun _ => True) (executeJob (.ok config) pipelinePrefix cleanRun) := by
  have opens := Program.calls_mono
    (openTables_reads pipelinePrefix cleanRun config.analyticTables ∅)
    (fun _ => Effect.Reads.not_evaluates)
  refine Program.follows_bind (Program.follows_mono (routes_quiet opens) ?_)
  rintro (error | publishes) _ _
  · trivial
  refine Program.follows_bind (Program.follows_mono
    (listSources_routes (List.Subset.refl _) (fun _ impossible => nomatch impossible)) ?_)
  rintro candidates _ claimed
  refine Program.follows_bind (Program.follows_mono
    (downloadAll_routes claimed (fun _ impossible => nomatch impossible)) ?_)
  rintro (error | files) _ filesClaimed
  · trivial
  simp only
  split
  · trivial
  refine Program.follows_bind (Program.follows_mono
    (routes_quiet (loadDimensions_quiet config.dimensions)) ?_)
  rintro (error | ⟨⟩) _ _
  · trivial
  refine Program.follows_bind (Program.follows_mono
    (runMappings_routes valid (filesClaimed files rfl) (List.Subset.refl _) _) ?_)
  rintro (error | progress) _ _
  · trivial
  simp only [perform, Program.perform_bind]
  intro order _
  refine ⟨(), trivial, Program.follows_bind (Program.follows_mono
    (routes_quiet (publishTables_quiet _ _ _)) (fun _ _ _ => trivial))⟩

end Files

/-- In a configuration that the validator accepts, listing, selection and ingestion agree
on the container of a file. -/
theorem routes_agree {config : PipelineConfig} (accepted : validate config = .ok ()) :
    RoutesAgree config := by
  have valid := validate_iff.mp accepted
  refine ⟨fun _ _ _ => prefix_unique valid, fun key _ perm => resolve_perm valid key perm, ?_⟩
  intro pipelinePrefix cleanRun buckets trace result final completed mapping table files
    reply occurs
  obtain ⟨_, _, path⟩ := Program.follows_completes
    (executeJob_routes valid pipelinePrefix cleanRun) (fun _ _ _ _ => given_listed) completed
  obtain ⟨_, _, isMapping, container, isSource, holds⟩ := path.moves _ occurs
  refine ⟨isMapping, container, isSource, fun file member => ?_⟩
  have resolved : resolveSourceContainer file.1 config = .ok container :=
    resolve_around valid (List.Subset.refl _) (List.mem_of_find?_eq_some isSource)
      (holds file member).1
  refine ⟨holds file member, resolved, fun polars readJsonSource registry bytes => ?_⟩
  simp only [ingestFile, resolved]

/-- A configuration with a CSV source and a JSON source side by side. -/
def twoSources : PipelineConfig :=
  ⟨[plainSource, { plainSource with id := "j".toList, pathPrefix := "json/".toList, format := .ndjson }],
    [], [plainMapping "t".toList], [plainTable "t".toList]⟩

/-- Its routes agree. -/
theorem routes_agree_two : RoutesAgree twoSources := routes_agree (by decide +kernel)

end KaretWorker
