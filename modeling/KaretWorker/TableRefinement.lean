import KaretWorker.Library.Index
import KaretWorker.TableProtocol

/-!
# The executor keeps to the table protocol

For any table with a slash-free id, and any configuration whose other tables lie
apart from it, every run of `executeJob` follows the protocol automaton of that
table. The publish state the run carries and the phase of the automaton agree at
every loop: `Tracks` says how.
-/
namespace KaretWorker

open Texts Interaction

/-- The run's publish state agrees with the phase of one table. An unopened table
is still waiting. An opened one is being written at its entry's version, and each
file of the entry was in the manifest read or has been put. -/
structure Tracks (pipelinePrefix id : Text) (publishes : Publishes) (phase : Phase) : Prop where
  located : ∀ other entry, publishes.lookup other = some entry →
    (other = id ∨ Apart id other) ∧ entry.tablePrefix = tablePrefix pipelinePrefix other
  unopened : publishes.lookup id = none → phase = .waiting
  opened : ∀ entry, publishes.lookup id = some entry →
    ∃ base written, phase = .writing entry.version base written ∧
      ∀ file ∈ entry.files, file ∈ base ∨ file.key ∈ written

/-- Each entry is of the table or apart from it, under its own prefix, after one such
entry was put in. -/
theorem located_insert {pipelinePrefix id inserted : Text} {publishes : Publishes}
    {entry : TablePublish}
    (located : ∀ other entry, publishes.lookup other = some entry →
      (other = id ∨ Apart id other) ∧ entry.tablePrefix = tablePrefix pipelinePrefix other)
    (within : inserted = id ∨ Apart id inserted)
    (placed : entry.tablePrefix = tablePrefix pipelinePrefix inserted) (other : Text)
    (found : TablePublish) (lookup : (publishes.insert inserted entry).lookup other = some found) :
    (other = id ∨ Apart id other) ∧ found.tablePrefix = tablePrefix pipelinePrefix other := by
  rcases Indexing.lookup_of_insert lookup with ⟨rfl, rfl⟩ | ⟨_, before⟩
  · exact ⟨within, placed⟩
  · exact located other found before

section Tracks

variable {pipelinePrefix id : Text} {publishes : Publishes} {phase : Phase}

/-- A tracked table may be opened, for the first time or again. -/
theorem Tracks.openable (tracks : Tracks pipelinePrefix id publishes phase) : phase.Openable := by
  cases found : publishes.lookup id with
  | none => rw [tracks.unopened found]; trivial
  | some entry =>
    obtain ⟨base, written, isWriting, _⟩ := tracks.opened entry found
    rw [isWriting]
    trivial

/-- An entry of another table does not affect the tracking. -/
theorem Tracks.insert_other (tracks : Tracks pipelinePrefix id publishes phase) {other : Text}
    {entry : TablePublish} (apart : Apart id other)
    (placed : entry.tablePrefix = tablePrefix pipelinePrefix other) :
    Tracks pipelinePrefix id (publishes.insert other entry) phase where
  located := located_insert tracks.located (Or.inr apart) placed
  unopened := by
    rw [AList.lookup_insert_ne apart.1.symm]
    exact tracks.unopened
  opened := by
    rw [AList.lookup_insert_ne apart.1.symm]
    exact tracks.opened

/-- An entry for the table itself must match the new phase. -/
theorem Tracks.insert_self (tracks : Tracks pipelinePrefix id publishes phase)
    {entry : TablePublish} (placed : entry.tablePrefix = tablePrefix pipelinePrefix id)
    {base : List ManifestFile} {written : List Text}
    (listed : ∀ file ∈ entry.files, file ∈ base ∨ file.key ∈ written) :
    Tracks pipelinePrefix id (publishes.insert id entry) (.writing entry.version base written) where
  located := located_insert tracks.located (Or.inl rfl) placed
  unopened := by
    rw [AList.lookup_insert]
    exact fun impossible => nomatch impossible
  opened := by
    rw [AList.lookup_insert]
    rintro found ⟨⟩
    exact ⟨base, written, rfl, listed⟩

end Tracks

/-! ## Opening the tables -/

/-- What reading a table leaves the protocol with: a manifest whose version has a
successor starts the writing of that successor. -/
def Opened (result : Except Text TableManifest) (phase : Phase) : Prop :=
  ∀ manifest, result = .ok manifest → manifest.version + 1 < u64Bound →
    phase = .writing (manifest.version + 1) manifest.files []

/-- Reading one manifest opens the table or fails. -/
theorem readVersion_keeps (table : Text) (version : Nat) :
    Keeps table Opened (readVersion table version) (.reading version) := by
  rintro (error | (pointer | manifest | bytes)) _
  · exact ⟨_, .manifestUnread version _, fun _ impossible => nomatch impossible⟩
  · exact ⟨_, .manifestUnread version _, fun _ impossible => nomatch impossible⟩
  · by_cases bounded : manifest.version + 1 < u64Bound
    · refine ⟨_, .manifestRead version manifest bounded, ?_⟩
      rintro found ⟨⟩ _
      rfl
    · refine ⟨_, .manifestUnread version _, ?_⟩
      rintro found ⟨⟩ within
      exact absurd within bounded
  · exact ⟨_, .manifestUnread version _, fun _ impossible => nomatch impossible⟩

/-- Opening a table reads its pointer, then the manifest it names. -/
theorem readCurrent_keeps (table : Text) {phase : Phase} (ready : phase.Openable) :
    Keeps table Opened (readCurrent table) phase := by
  rintro (error | (pointer | manifest | bytes)) _
  · refine ⟨_, .pointerMissing phase ready error, ?_⟩
    rintro found ⟨⟩ _
    rfl
  · exact ⟨_, .pointerRead phase ready pointer, readVersion_keeps table pointer.version⟩
  · exact ⟨_, .pointerMalformed phase ready _, fun _ impossible => nomatch impossible⟩
  · exact ⟨_, .pointerMalformed phase ready _, fun _ impossible => nomatch impossible⟩

/-- Opening the tables of a configuration ends tracked, or with an error. -/
theorem openTables_keeps {pipelinePrefix id : Text} (plain : '/' ∉ id) (cleanRun : Bool)
    (tables : List AnalyticTable) (separate : ∀ table ∈ tables, table.id = id ∨ Apart id table.id)
    (publishes : Publishes) {phase : Phase} (tracks : Tracks pipelinePrefix id publishes phase) :
    Keeps (tablePrefix pipelinePrefix id)
      (fun result final => ∀ opened, result = .ok opened → Tracks pipelinePrefix id opened final)
      (openTables pipelinePrefix cleanRun tables publishes) phase := by
  induction tables generalizing publishes phase with
  | nil =>
    rintro opened ⟨⟩
    exact tracks
  | cons table rest inductionHypothesis =>
    have restSeparate : ∀ other ∈ rest, other.id = id ∨ Apart id other.id :=
      fun other member => separate other (List.mem_cons_of_mem _ member)
    rcases separate table List.mem_cons_self with same | apart
    · have read := readCurrent_keeps (tablePrefix pipelinePrefix id) tracks.openable
      rw [openTables, same]
      refine Program.follows_bind (Program.follows_mono read ?_)
      rintro (error | manifest) after opened
      · exact fun _ impossible => nomatch impossible
      · by_cases bounded : manifest.version + 1 < u64Bound
        · simp only [nextVersion, bounded, ↓reduceIte, Program.pure_def, Program.done_bind]
          apply inductionHypothesis restSeparate
          rw [opened manifest rfl bounded]
          apply tracks.insert_self rfl
          intro file member
          cases cleanRun with
          | true => exact absurd member List.not_mem_nil
          | false => exact Or.inl member
        · simp only [nextVersion, bounded, ↓reduceIte]
          exact fun never => nomatch never
    · have elsewhere : (readCurrent (tablePrefix pipelinePrefix table.id)).Calls
          (Foreign (tablePrefix pipelinePrefix id)) := readCurrent_foreign plain apart
      refine Program.follows_bind (Program.follows_mono
        (Program.follows_of_calls elsewhere phase (Move.foreign phase)) ?_)
      rintro (error | manifest) after rfl
      · exact fun _ impossible => nomatch impossible
      · by_cases bounded : manifest.version + 1 < u64Bound
        · simp only [nextVersion, bounded, ↓reduceIte, Program.pure_def, Program.done_bind]
          exact inductionHypothesis restSeparate _ (tracks.insert_other apart rfl)
        · simp only [nextVersion, bounded, ↓reduceIte]
          exact fun never => nomatch never

/-! ## Reading the lake -/

/-- Listing the sources touches no table. -/
theorem listSources_foreign (table : Text) (containers : List SourceContainer)
    (candidates : List Text) : (listSources containers candidates).Calls (Foreign table) := by
  induction containers generalizing candidates with
  | nil => trivial
  | cons container rest inductionHypothesis =>
    refine ⟨trivial, ?_⟩
    rintro (error | listed)
    · exact inductionHypothesis _
    · exact inductionHypothesis _

/-- Downloads touch no table. -/
theorem downloadAll_foreign (table : Text) (candidates : List Text)
    (files : List (Text × Object)) : (downloadAll candidates files).Calls (Foreign table) := by
  induction candidates generalizing files with
  | nil => trivial
  | cons key rest inductionHypothesis =>
    refine ⟨trivial, ?_⟩
    rintro (_ | _)
    · refine ⟨trivial, ?_⟩
      rintro (error | body)
      · exact inductionHypothesis _
      · exact inductionHypothesis _
    · trivial

/-- The effect reads the lake or builds a dimension. -/
def Effect.OnLake : Effect → Prop
  | .getBytes .lake _ => True
  | .listKeys .lake _ => True
  | .buildInlineRegistry _ => True
  | .rowsFromCsv _ _ => True
  | .newMatcher _ => True
  | _ => False

/-- Reads of the lake touch no table. -/
theorem Effect.OnLake.foreign {effect : Effect} (onLake : effect.OnLake) (table : Text) :
    Foreign table effect := by
  unfold Effect.OnLake at onLake
  split at onLake
  · trivial
  · trivial
  · trivial
  · trivial
  · trivial
  · exact onLake.elim

/-- Dimension files are read in the lake. -/
theorem readDimensionFiles_onLake (dimension : Dimension) (keys : List Text) :
    (readDimensionFiles dimension keys).Calls Effect.OnLake := by
  induction keys with
  | nil => trivial
  | cons key rest inductionHypothesis =>
    refine ⟨trivial, ?_⟩
    rintro (error | body)
    · trivial
    · refine ⟨trivial, ?_⟩
      rintro (error | ⟨⟩)
      · trivial
      · exact inductionHypothesis

/-- Rows are loaded from the lake. -/
theorem loadFileDimensions_onLake (dimensions : List Dimension) :
    (loadFileDimensions dimensions).Calls Effect.OnLake := by
  induction dimensions with
  | nil => trivial
  | cons dimension rest inductionHypothesis =>
    unfold loadFileDimensions
    split
    · exact inductionHypothesis
    · refine ⟨trivial, ?_⟩
      rintro (error | keys)
      · trivial
      · change Program.Calls _ (readDimensionFiles dimension _ >>= _)
        refine Program.calls_bind (readDimensionFiles_onLake dimension _) ?_
        rintro (error | ⟨⟩)
        · trivial
        · refine ⟨trivial, ?_⟩
          rintro (error | ⟨⟩)
          · trivial
          · exact inductionHypothesis

/-- Loading dimensions reads the lake only. -/
theorem loadDimensions_onLake (dimensions : List Dimension) :
    (loadDimensions dimensions).Calls Effect.OnLake := by
  refine ⟨trivial, ?_⟩
  rintro (error | ⟨⟩)
  · trivial
  · exact loadFileDimensions_onLake dimensions

/-- Loading dimensions touches no table. -/
theorem loadDimensions_foreign (table : Text) (dimensions : List Dimension) :
    (loadDimensions dimensions).Calls (Foreign table) :=
  Program.calls_mono (loadDimensions_onLake dimensions) (fun _ onLake => onLake.foreign table)

/-! ## Uploading one mapping -/

/-- Partitions of the table itself go under the version being written, and every
file reported was put. -/
theorem uploadPartitions_keeps {pipelinePrefix id : Text} (plain : '/' ∉ id) (version : Nat)
    (mappingId : Text) (base : List ManifestFile) (outputs : List PartitionOutput)
    (shaped : ∀ output ∈ outputs, ∃ segments, output.key = partitionKey id segments mappingId)
    (accumulated : List ManifestFile) {earlier written : List Text} (grown : earlier ⊆ written)
    (put : ∀ file ∈ accumulated, file.key ∈ written) :
    Keeps (tablePrefix pipelinePrefix id)
      (fun result final => ∃ written', final = .writing version base written' ∧
        earlier ⊆ written' ∧ ∀ files, result = .ok files → ∀ file ∈ files, file.key ∈ written')
      (uploadPartitions pipelinePrefix version mappingId outputs accumulated)
      (.writing version base written) := by
  induction outputs generalizing accumulated written with
  | nil =>
    refine ⟨written, rfl, grown, ?_⟩
    rintro files ⟨⟩
    exact put
  | cons output rest inductionHypothesis =>
    obtain ⟨segments, key⟩ := shaped output List.mem_cons_self
    have restShaped : ∀ output ∈ rest, ∃ segments,
        output.key = partitionKey id segments mappingId :=
      fun other member => shaped other (List.mem_cons_of_mem _ member)
    unfold uploadPartitions
    rw [key, partitionKey, split_join plain]
    have placed : ∀ path, pipelinePrefix ++ id ++ '/' :: path =
        tablePrefix pipelinePrefix id ++ path := by
      intro path
      rw [tablePrefix, List.append_assoc _ ['/'], List.singleton_append]
    rintro (error | ⟨⟩) _
    · refine ⟨_, .uploadFailed version base written _ output.bytes _ (placed _) error,
        written, rfl, grown, ?_⟩
      exact fun _ impossible => by cases impossible
    · refine ⟨_, .uploaded version base written _ output.bytes _ (placed _), ?_⟩
      apply inductionHypothesis restShaped
      · exact fun _ member => List.mem_cons_of_mem _ (grown member)
      · intro file member
        rcases List.mem_append.mp member with before | new
        · exact List.mem_cons_of_mem _ (put file before)
        · rw [List.mem_singleton.mp new]
          exact List.mem_cons_self

/-- Partitions of a table that lies apart are put elsewhere. -/
theorem uploadPartitions_foreign {pipelinePrefix id other : Text} (plain : '/' ∉ id)
    (apart : Apart id other) (version : Nat) (mappingId : Text) (outputs : List PartitionOutput)
    (shaped : ∀ output ∈ outputs, ∃ segments, output.key = partitionKey other segments mappingId)
    (accumulated : List ManifestFile) :
    (uploadPartitions pipelinePrefix version mappingId outputs accumulated).Calls
      (Foreign (tablePrefix pipelinePrefix id)) := by
  induction outputs generalizing accumulated with
  | nil => trivial
  | cons output rest inductionHypothesis =>
    obtain ⟨segments, key⟩ := shaped output List.mem_cons_self
    have restShaped : ∀ output ∈ rest, ∃ segments,
        output.key = partitionKey other segments mappingId :=
      fun other member => shaped other (List.mem_cons_of_mem _ member)
    unfold uploadPartitions
    split
    · trivial
    · next first path split =>
      obtain ⟨joined, firstPlain⟩ := split_sound split
      have firstApart : Apart id first := by
        refine apart_of_plain firstPlain ?_
        rintro rfl
        rw [key, partitionKey] at joined
        rcases join_nested plain joined.symm with same | inside
        · exact apart.1 same
        · exact apart.2 inside
      refine ⟨key_separate plain firstApart _, ?_⟩
      rintro (error | ⟨⟩)
      · trivial
      · exact inductionHypothesis restShaped _

/-- Applying a mapping's partitions keeps the tracking. -/
theorem applyMapping_keeps {pipelinePrefix id : Text} (plain : '/' ∉ id) (mapping : Mapping)
    (outputs : List PartitionOutput) (dropped : Nat) (progress : Progress)
    (shaped : ∀ output ∈ outputs, ∃ segments,
      output.key = partitionKey mapping.analyticTableId segments mapping.id)
    {phase : Phase} (tracks : Tracks pipelinePrefix id progress.publishes phase) :
    Keeps (tablePrefix pipelinePrefix id)
      (fun result final => Tracks pipelinePrefix id result.publishes final)
      (applyMapping pipelinePrefix mapping outputs dropped progress) phase := by
  unfold applyMapping
  cases found : progress.publishes.lookup mapping.analyticTableId with
  | none => exact tracks
  | some entry =>
    obtain ⟨rfl | apart, placed⟩ := tracks.located _ _ found
    · obtain ⟨base, written, rfl, listed⟩ := tracks.opened entry found
      refine Program.follows_bind (Program.follows_mono (uploadPartitions_keeps plain entry.version
        mapping.id base outputs shaped [] (List.Subset.refl written)
        (fun file member => absurd member List.not_mem_nil)) ?_)
      rintro (error | files) final ⟨written', rfl, grown, put⟩
      · exact {
          located := tracks.located
          unopened := fun absent => nomatch found.symm.trans absent
          opened := by
            intro entry' lookup
            obtain ⟨⟩ := found.symm.trans lookup
            refine ⟨base, written', rfl, ?_⟩
            exact fun file member => (listed file member).imp_right (fun before => grown before) }
      · refine @Tracks.insert_self _ _ _ _ tracks { entry with
          files := applyMappingWrites entry.files mapping.id files, touched := true } placed _ _ ?_
        intro file member
        rcases mem_applyMappingWrites.mp member with ⟨before, _⟩ | new
        · exact (listed file before).imp_right (fun before => grown before)
        · exact Or.inr (put files rfl file new)
    · have elsewhere : (uploadPartitions pipelinePrefix entry.version mapping.id outputs []).Calls
          (Foreign (tablePrefix pipelinePrefix id)) :=
        uploadPartitions_foreign plain apart entry.version mapping.id outputs shaped []
      refine Program.follows_bind (Program.follows_mono
        (Program.follows_of_calls elsewhere phase (Move.foreign phase)) ?_)
      rintro (error | files) after rfl
      · exact tracks
      · exact tracks.insert_other apart placed

/-- The partitions of a mapping are keyed under the table it names. -/
theorem evaluated_shape (config : PipelineConfig) (mapping : Mapping) {evaluated : Mapping}
    {files : List (Text × Object)} {outputs : List PartitionOutput} {dropped : Nat}
    (sameId : evaluated.id = mapping.id)
    (genuine : Genuine (.evaluate evaluated (config.tableOf mapping) files)
      (.partitions outputs dropped)) :
    ∀ output ∈ outputs, ∃ segments,
      output.key = partitionKey mapping.analyticTableId segments mapping.id := by
  obtain ⟨declared, found, keyed, _⟩ := genuine
  have named := config.tableOf_id found
  rw [sameId, named] at keyed
  exact keyed

/-- Looking a mapping up again by its id finds one with that id. -/
theorem lookup_again (config : PipelineConfig) (mapping : Mapping) :
    ((config.mappings.find? (fun other => other.id = mapping.id)).getD mapping).id =
    mapping.id := by
  cases found : config.mappings.find? (fun other => other.id = mapping.id) with
  | none => rfl
  | some other => simpa using List.find?_some found

/-- The mapping loop keeps the tracking, or ends with an error. -/
theorem runMappings_keeps {pipelinePrefix id : Text} (plain : '/' ∉ id) (config : PipelineConfig)
    (files : List (Text × Object)) (mappings : List Mapping) (progress : Progress) {phase : Phase}
    (tracks : Tracks pipelinePrefix id progress.publishes phase) :
    Keeps (tablePrefix pipelinePrefix id)
      (fun result final => ∀ reached, result = .ok reached →
        Tracks pipelinePrefix id reached.publishes final)
      (runMappings config pipelinePrefix files mappings progress) phase := by
  induction mappings generalizing progress phase with
  | nil =>
    rintro reached ⟨⟩
    exact tracks
  | cons mapping rest inductionHypothesis =>
    simp only [runMappings, perform, Program.perform_bind]
    rintro (_ | _) _
    · refine ⟨phase, .foreign phase _ _ trivial, ?_⟩
      simp only [Bool.false_eq_true, ↓reduceIte]
      split
      · exact inductionHypothesis progress tracks
      · split
        · exact inductionHypothesis progress tracks
        · rintro (⟨outputs, dropped⟩ | message | joinError) genuine
          · refine ⟨phase, .foreign phase _ _ trivial, ?_⟩
            refine Program.follows_bind (Program.follows_mono (applyMapping_keeps plain mapping
              outputs dropped progress ?_ tracks) ?_)
            · exact evaluated_shape config mapping (lookup_again config mapping) genuine
            · exact fun reached after tracks => inductionHypothesis reached tracks
          · exact ⟨phase, .foreign phase _ _ trivial, inductionHypothesis _ tracks⟩
          · exact ⟨phase, .foreign phase _ _ trivial, inductionHypothesis _ tracks⟩
    · exact ⟨phase, .foreign phase _ _ trivial, fun _ impossible => nomatch impossible⟩

/-! ## Publishing -/

/-- Deleting the targets of a vacuum stays within the vacuum. -/
theorem deleteTargets_keeps (table : Text) (current : Nat) (relative : List Text)
    (retained : List TableManifest) (targets : List Text)
    (allowed : ∀ key ∈ targets, key ∈ vacuumTargets relative current retained) (deleted : Nat) :
    Keeps table (fun _ final => final = .vacuuming current relative retained [])
      (deleteTargets table targets deleted) (.vacuuming current relative retained []) := by
  induction targets generalizing deleted with
  | nil => rfl
  | cons key rest inductionHypothesis =>
    have restAllowed : ∀ other ∈ rest, other ∈ vacuumTargets relative current retained :=
      fun other member => allowed other (List.mem_cons_of_mem _ member)
    have target := allowed key List.mem_cons_self
    rintro (error | ⟨⟩) _
    · exact ⟨_, .deleted current relative retained key target _, inductionHypothesis restAllowed _⟩
    · exact ⟨_, .deleted current relative retained key target _, inductionHypothesis restAllowed _⟩

/-- Reading the retained manifests ends with all of them read, or gives up. -/
theorem readRetained_keeps (table : Text) (current : Nat) (relative : List Text)
    (pending : List Nat) (retained : List TableManifest) :
    Keeps table
      (fun result final => ∀ manifests, result = .ok manifests →
        final = .vacuuming current relative manifests [])
      (readRetained table pending retained) (.vacuuming current relative retained pending) := by
  induction pending generalizing retained with
  | nil =>
    rintro manifests ⟨⟩
    rfl
  | cons version rest inductionHypothesis =>
    rintro (error | (pointer | manifest | bytes)) _
    · exact ⟨_, .retainedUnread current relative retained version rest _,
        fun _ impossible => nomatch impossible⟩
    · exact ⟨_, .retainedUnread current relative retained version rest _,
        fun _ impossible => nomatch impossible⟩
    · exact ⟨_, .retainedRead current relative retained version rest manifest,
        inductionHypothesis _⟩
    · exact ⟨_, .retainedUnread current relative retained version rest _,
        fun _ impossible => nomatch impossible⟩

/-- A vacuum lists, reads and deletes in the protocol's order. -/
theorem vacuum_keeps (table : Text) (current : Nat) :
    Keeps table (fun _ _ => True) (vacuum table current) (.listing current) := by
  simp only [vacuum, perform, Program.perform_bind]
  rintro (error | keys) _
  · exact ⟨_, .listFailed current error, trivial⟩
  · refine ⟨_, .listed current keys _ rfl, ?_⟩
    refine Program.follows_bind (Program.follows_mono (readRetained_keeps table current _ _ _) ?_)
    rintro (error | retained) final reached
    · trivial
    · rw [reached retained rfl]
      exact Program.follows_bind (Program.follows_mono
        (deleteTargets_keeps table current _ retained _ (fun _ member => member) 0)
        (fun _ _ _ => trivial))

/-- A publish writes the manifest and then the pointer; if both succeed the
table is ready to be listed. -/
theorem publish_keeps (table : Text) (manifest : TableManifest) {base : List ManifestFile}
    {written : List Text} (listed : ∀ file ∈ manifest.files, file ∈ base ∨ file.key ∈ written) :
    Keeps table (fun result final => result = .ok () → final = .listing manifest.version)
      (publish table manifest) (.writing manifest.version base written) := by
  rintro (error | ⟨⟩) _
  · exact ⟨_, .manifestFailed manifest.version base written manifest rfl listed error,
      fun impossible => nomatch impossible⟩
  · refine ⟨_, .manifestWritten manifest.version base written manifest rfl listed, ?_⟩
    rintro (error | ⟨⟩) _
    · exact ⟨_, .pointerFailed manifest.version error, fun impossible => nomatch impossible⟩
    · exact ⟨_, .pointerWritten manifest.version, fun _ => rfl⟩

/-- Publishing a table whose entry is tracked keeps to the protocol. -/
theorem publishTable_keeps {table : Text} {base : List ManifestFile} {written : List Text}
    (tableId : Text) (entry : TablePublish) (errors : List Text)
    (placed : entry.tablePrefix = table)
    (listed : ∀ file ∈ entry.files, file ∈ base ∨ file.key ∈ written) :
    Keeps table (fun _ _ => True) (publishTable tableId entry errors)
      (.writing entry.version base written) := by
  subst placed
  simp only [publishTable, perform, Program.perform_bind]
  split
  · intro createdAt _
    refine ⟨_, .foreign _ _ _ trivial, ?_⟩
    let manifest : TableManifest := ⟨entry.version, createdAt, none, entry.files⟩
    refine Program.follows_bind (Program.follows_mono
      (publish_keeps entry.tablePrefix manifest listed) ?_)
    rintro (error | ⟨⟩) final flipped
    · trivial
    · rw [flipped rfl]
      exact Program.follows_bind (Program.follows_mono (vacuum_keeps entry.tablePrefix
        entry.version) (fun _ _ _ => trivial))
  · trivial

/-- Publishing tables in an order that does not hold the table leaves its phase
alone. -/
theorem publishTables_foreign {pipelinePrefix id : Text} (plain : '/' ∉ id) {publishes : Publishes}
    (located : ∀ other entry, publishes.lookup other = some entry →
      (other = id ∨ Apart id other) ∧ entry.tablePrefix = tablePrefix pipelinePrefix other)
    (order : List Text) (absent : id ∉ order) (errors : List Text) :
    (publishTables publishes order errors).Calls (Foreign (tablePrefix pipelinePrefix id)) := by
  induction order generalizing errors with
  | nil => trivial
  | cons tableId rest inductionHypothesis =>
    obtain ⟨different, restAbsent⟩ := not_or.mp (List.mem_cons.not.mp absent)
    unfold publishTables
    split
    · exact inductionHypothesis restAbsent errors
    · next entry found =>
      obtain ⟨same | apart, placed⟩ := located tableId entry found
      · exact absurd same.symm different
      · exact Program.calls_bind (publishTable_foreign plain apart tableId entry errors placed)
          (inductionHypothesis restAbsent)

/-- Publishing the tables, each at most once, keeps to the protocol. -/
theorem publishTables_keeps {pipelinePrefix id : Text} (plain : '/' ∉ id) {publishes : Publishes}
    {phase : Phase} (tracks : Tracks pipelinePrefix id publishes phase) (order : List Text)
    (distinct : order.Nodup) (errors : List Text) :
    Keeps (tablePrefix pipelinePrefix id) (fun _ _ => True)
      (publishTables publishes order errors) phase := by
  induction order generalizing errors with
  | nil => trivial
  | cons tableId rest inductionHypothesis =>
    obtain ⟨absent, restDistinct⟩ := List.nodup_cons.mp distinct
    unfold publishTables
    split
    · exact inductionHypothesis restDistinct errors
    · next entry found =>
      obtain ⟨rfl | apart, placed⟩ := tracks.located tableId entry found
      · obtain ⟨base, written, rfl, listed⟩ := tracks.opened entry found
        refine Program.follows_bind (Program.follows_mono
          (publishTable_keeps tableId entry errors placed listed) ?_)
        intro errors final _
        exact Program.follows_mono (Program.follows_of_calls
          (publishTables_foreign plain tracks.located rest absent errors) final
          (Move.foreign final)) (fun _ _ _ => trivial)
      · have elsewhere : (publishTable tableId entry errors).Calls
            (Foreign (tablePrefix pipelinePrefix id)) :=
          publishTable_foreign plain apart tableId entry errors placed
        refine Program.follows_bind (Program.follows_mono
          (Program.follows_of_calls elsewhere phase (Move.foreign phase)) ?_)
        rintro errors after rfl
        exact inductionHypothesis restDistinct errors

/-- Every run of the executor keeps to the protocol of a table with a slash-free
id, as long as the configuration's other tables lie apart from it. -/
theorem executeJob_keeps {pipelinePrefix id : Text} (plain : '/' ∉ id)
    (loaded : Except JobError PipelineConfig)
    (separate : ∀ config, loaded = .ok config →
      ∀ table ∈ config.analyticTables, table.id = id ∨ Apart id table.id) (cleanRun : Bool) :
    Keeps (tablePrefix pipelinePrefix id) (fun _ _ => True)
      (executeJob loaded pipelinePrefix cleanRun) .waiting := by
  cases loaded with
  | error error => trivial
  | ok config =>
    have start : Tracks pipelinePrefix id ∅ .waiting :=
      ⟨fun other entry found => (nomatch found), fun _ => rfl, fun entry found => (nomatch found)⟩
    refine Program.follows_bind (Program.follows_mono (openTables_keeps plain cleanRun
      config.analyticTables (separate config rfl) ∅ start) ?_)
    rintro (error | publishes) phase opened
    · trivial
    have tracks := opened publishes rfl
    refine Program.follows_bind (Program.follows_mono (Program.follows_of_calls
      (listSources_foreign _ config.sourceContainers []) phase (Move.foreign phase)) ?_)
    rintro candidates after rfl
    refine Program.follows_bind (Program.follows_mono (Program.follows_of_calls
      (downloadAll_foreign _ candidates []) after (Move.foreign after)) ?_)
    rintro (error | files) after rfl
    · trivial
    dsimp only
    split
    · trivial
    refine Program.follows_bind (Program.follows_mono (Program.follows_of_calls
      (loadDimensions_foreign _ config.dimensions) after (Move.foreign after)) ?_)
    rintro (error | ⟨⟩) after rfl
    · trivial
    refine Program.follows_bind (Program.follows_mono (runMappings_keeps plain config files
      config.mappings ⟨publishes, 0, 0, []⟩ tracks) ?_)
    rintro (error | progress) final reached
    · trivial
    simp only [perform, Program.perform_bind]
    intro order shuffled
    refine ⟨final, .foreign final _ _ trivial, ?_⟩
    exact Program.follows_bind (Program.follows_mono (publishTables_keeps plain
      (reached progress rfl) order (shuffled.nodup_iff.mpr progress.publishes.nodupKeys)
      progress.errors) (fun _ _ _ => trivial))

end KaretWorker
