import KaretWorker.PipelinePrefix
import KaretWorker.SoleRun

/-!
# Keys of uploaded objects

A partition's key begins with its table's id. The uploader cuts that key at the first
slash and splices the version in there; a manifest records what follows the cut, and a
reader resolves it under the whole table id. The two agree exactly when the id has no
slash, which the validator does not ask for.

`keys_agree_iff` states this for every configuration that is accepted and every run with
it; `slashed_table_disagrees` is a table whose readers look elsewhere.
-/
namespace KaretWorker

open Texts Interaction

/-- The file was listed by a manifest of the table that the run got before. -/
def Carried (table : Text) (before : List (Event Effect Reply)) (file : ManifestFile) : Prop :=
  ∃ version previous,
    (⟨.getBytes .warehouse (table ++ manifestKey version), .ok (.manifest previous)⟩ :
      Event Effect Reply) ∈ before ∧ file ∈ previous.files

/-- The file was recorded for a partition of a mapping of the table, and resolves to the
key the partition was put under. -/
def PutAsResolved (config : PipelineConfig) (pipelinePrefix : Text) (table : AnalyticTable)
    (version : Nat) (before : List (Event Effect Reply)) (file : ManifestFile) : Prop :=
  ∃ mapping ∈ config.mappings, config.tableOf mapping = some table ∧
    ∃ puts, uploaded mapping.id before = some puts ∧
      ∃ put ∈ puts, file = recordedFile version mapping.id put.1 ∧
        put.2 = tablePrefix pipelinePrefix table.id ++ file.key

/-- Whatever manifest a run writes, it is one of a declared table, and each file it lists
was carried over or put where a reader of the manifest resolves it. -/
def KeysAgree (config : PipelineConfig) : Prop :=
  ∀ pipelinePrefix, validatePipelinePrefix pipelinePrefix = .ok () →
    ∀ cleanRun permits buckets trace outcome final,
      Program.Completes (Given permits) (executeJob (.ok config) pipelinePrefix cleanRun) buckets
        trace (.ok outcome) final →
      ∀ before key manifest reply after,
        trace = before ++ ⟨.putObject .warehouse key (.manifest manifest), reply⟩ :: after →
        ∃ table ∈ config.analyticTables,
          key = tablePrefix pipelinePrefix table.id ++ manifestKey manifest.version ∧
          ∀ file ∈ manifest.files,
            Carried (tablePrefix pipelinePrefix table.id) before file ∨
              PutAsResolved config pipelinePrefix table manifest.version before file

/-- The mappings that name a source target tables without a slash in their ids. -/
def PlainTargets (config : PipelineConfig) : Prop :=
  ∀ mapping ∈ config.mappings, mapping.sourceContainerId ≠ [] →
    ∀ table, config.tableOf mapping = some table → '/' ∉ table.id

/-! ## Where manifests are put -/

/-- The effect puts no object. -/
def Putless (effect : Effect) : Prop := ∀ bucket key body, effect ≠ .putObject bucket key body

/-- Reads put nothing. -/
theorem Effect.Reads.putless {effect : Effect} (reads : effect.Reads) : Putless effect := by
  rintro bucket key body rfl
  exact absurd reads id

section Manifests

variable {publishes : Publishes}

/-- The effect puts nothing but the manifest or the pointer of a publish state. -/
def PutsState (entry : TablePublish) (effect : Effect) : Prop :=
  ∀ bucket key body, effect = .putObject bucket key body →
    (key = entry.tablePrefix ++ manifestKey entry.version ∧
      ∃ createdAt, body = .manifest ⟨entry.version, createdAt, none, entry.files⟩) ∨
    (key = entry.tablePrefix ++ currentKey ∧ body = .pointer ⟨entry.version⟩)

variable {entry : TablePublish}

/-- What puts nothing puts nothing else. -/
theorem Putless.puts {effect : Effect} (putless : Putless effect) : PutsState entry effect :=
  fun bucket key body isPut => absurd isPut (putless bucket key body)

/-- The deletions of a vacuum put nothing. -/
theorem deleteTargets_putless (table : Text) (targets : List Text) (deleted : Nat) :
    (deleteTargets table targets deleted).Calls Putless := by
  induction targets generalizing deleted with
  | nil => trivial
  | cons key rest inductionHypothesis =>
    refine ⟨by rintro _ _ _ ⟨⟩, ?_⟩
    rintro (error | ⟨⟩) <;> exact inductionHypothesis _

/-- A vacuum puts nothing. -/
theorem vacuum_putless (table : Text) (current : Nat) : (vacuum table current).Calls Putless := by
  simp only [vacuum, perform, Program.perform_bind]
  refine ⟨by rintro _ _ _ ⟨⟩, ?_⟩
  rintro (error | all)
  · trivial
  · refine Program.calls_bind (Program.calls_mono (readRetained_reads _ _ _)
      (fun _ reads => reads.putless)) ?_
    rintro (error | retained)
    · trivial
    · exact Program.calls_bind (deleteTargets_putless _ _ _) (fun _ => trivial)

/-- Publishing puts the manifest of the state and then its pointer. -/
theorem publish_puts (createdAt : Text) :
    (publish entry.tablePrefix ⟨entry.version, createdAt, none, entry.files⟩).Calls
      (PutsState entry) := by
  refine ⟨?_, ?_⟩
  · rintro bucket key body ⟨⟩
    exact Or.inl ⟨rfl, _, rfl⟩
  · rintro (error | ⟨⟩)
    · trivial
    · refine ⟨?_, fun _ => trivial⟩
      rintro bucket key body ⟨⟩
      exact Or.inr ⟨rfl, rfl⟩

/-- Publishing a table puts its manifest and its pointer only. -/
theorem publishTable_puts (tableId : Text) (errors : List Text) :
    (publishTable tableId entry errors).Calls (PutsState entry) := by
  simp only [publishTable, perform, Program.perform_bind]
  split
  · refine ⟨by rintro _ _ _ ⟨⟩, fun createdAt => Program.calls_bind (publish_puts createdAt) ?_⟩
    rintro (error | ⟨⟩)
    · trivial
    · exact Program.calls_bind (Program.calls_mono (vacuum_putless _ _)
        (fun _ putless => putless.puts)) (fun _ => trivial)
  · trivial

/-- Publishing the tables puts manifests and pointers of their publish states only. -/
theorem publishTables_puts (order errors : List Text) :
    (publishTables publishes order errors).Calls (fun effect =>
      ∀ bucket key body, effect = .putObject bucket key body →
        ∃ tableId entry, publishes.lookup tableId = some entry ∧ PutsState entry effect) := by
  induction order generalizing errors with
  | nil => trivial
  | cons tableId rest inductionHypothesis =>
    unfold publishTables
    split
    · exact inductionHypothesis _
    · next entry found =>
      exact Program.calls_bind (Program.calls_mono (publishTable_puts tableId errors)
        (fun _ puts _ _ _ _ => ⟨tableId, entry, found, puts⟩)) (fun _ => inductionHypothesis _)

end Manifests

/-! ## Runs of accepted configurations -/

/-- An event that does not occur in the first part of a trace lies in the second. -/
theorem split_later {α : Type} {first later before after : List α} {event : α}
    (absent : event ∉ first) (same : first ++ later = before ++ event :: after) :
    ∃ between, before = first ++ between ∧ later = between ++ event :: after := by
  rcases List.append_eq_append_iff.mp same with ⟨between, longer, split⟩ | ⟨between, longer, split⟩
  · exact ⟨between, longer, split⟩
  · cases between with
    | nil => exact ⟨[], by rw [longer, List.append_nil, List.append_nil], split.symm⟩
    | cons other rest =>
      obtain ⟨rfl, _⟩ := List.cons.inj split
      exact absurd (longer ▸ List.mem_append_right _ List.mem_cons_self) absent

section Runs

variable {config : PipelineConfig} {pipelinePrefix : Text} {cleanRun : Bool}
  {permits : Buckets → Effect → Answer → Prop} {buckets final : Buckets}
  {trace : List (Event Effect Reply)} {outcome : JobOutcome}

/-- A partition of a table without a slash in its id is put where the file recorded for
it is resolved. -/
theorem uploadKey_resolved {tableId : Text} (plain : '/' ∉ tableId) {version : Nat}
    {mappingId : Text} {output : PartitionOutput} {segments : List Text}
    (shaped : output.key = partitionKey tableId segments mappingId) :
    uploadKey pipelinePrefix version output =
      tablePrefix pipelinePrefix tableId ++ (recordedFile version mappingId output).key := by
  have front : (keyHalves output).1 = tableId := by
    rw [keyHalves, shaped, partitionKey, split_join plain, Option.getD_some]
  rw [uploadKey, front, tablePrefix, List.append_assoc _ ['/'], List.singleton_append]
  rfl

/-- The run's puts of manifests and pointers all lie in its last part. -/
theorem Parts.located
    (parts : Parts permits config pipelinePrefix cleanRun buckets trace outcome final)
    {before after : List (Event Effect Reply)} {key : Text} {body : Object}
    {reply : Except Text Unit} (notData : ∀ bytes, body ≠ .data bytes)
    (occurs : trace = before ++ ⟨.putObject .warehouse key body, reply⟩ :: after) :
    ∃ between, before = parts.opening ++ (parts.reading ++ (parts.mapping ++
        (⟨.iterate parts.reached.publishes.keys, parts.order⟩ :: between))) ∧
      parts.closing = between ++ ⟨.putObject .warehouse key body, reply⟩ :: after := by
  let put : Event Effect Reply := ⟨.putObject .warehouse key body, reply⟩
  have notOpening : put ∉ parts.opening := fun member =>
    absurd (Program.calls_completes (openTables_reads _ _ _ _) parts.opens put member) id
  have notReading : put ∉ parts.reading := fun member => parts.unwritten put member key rfl
  have notMapping : put ∉ parts.mapping := by
    intro member
    obtain ⟨_, bytes, isPut⟩ := (parts.uploads put member).data key rfl
    have isData : body = .data bytes := by simpa [put] using isPut
    exact notData bytes isData
  obtain ⟨afterOpening, rfl, later⟩ := split_later notOpening (parts.split.symm.trans occurs)
  obtain ⟨afterReading, rfl, last⟩ := split_later notReading later
  obtain ⟨afterMapping, rfl, rest⟩ := split_later notMapping last
  cases afterMapping with
  | nil => exact nomatch (Sigma.mk.inj (List.cons.inj rest).1).1
  | cons event between =>
    obtain ⟨rfl, closes⟩ := List.cons.inj rest
    exact ⟨between, rfl, closes⟩

/-- In a run with plain targets every manifest agrees with the uploads. -/
theorem keys_agree_of_plain (valid : config.Valid) (plain : PlainTargets config) :
    KeysAgree config := by
  intro pipelinePrefix _ cleanRun permits buckets trace outcome final completed before key manifest
    reply after occurs
  obtain ⟨parts⟩ := executeJob_parts completed
  obtain ⟨between, rfl, closes⟩ := parts.located (by rintro _ ⟨⟩) occurs
  obtain ⟨sameUploads, spared⟩ := parts.uploaded_before closes
  have occurred : (⟨.putObject .warehouse key (.manifest manifest), reply⟩ : Event Effect Reply) ∈
      parts.closing := closes ▸ List.mem_append_right _ List.mem_cons_self
  obtain ⟨tableId, entry, isEntry, puts⟩ := Program.calls_completes (publishTables_puts _ _)
    parts.publishes _ occurred _ key (.manifest manifest) rfl
  obtain ⟨rfl, createdAt, ⟨⟩⟩ | ⟨_, impossible⟩ := puts _ key (.manifest manifest) rfl
  case inr => exact nomatch impossible
  obtain ⟨table, member, rfl, current, reading, within, reads, isOpen, revised⟩ :=
    parts.entry valid.mappings.distinct closes isEntry
  refine ⟨table, member, by rw [revised.located]; rfl, fun file listed => ?_⟩
  rw [revised.files.mem_iff] at listed
  rcases List.mem_append.mp listed with kept | new
  · left
    have fromCurrent : file ∈ current.files := by
      have isKept : file ∈ (if cleanRun then [] else current.files) := List.mem_of_mem_filter kept
      split at isKept
      · exact absurd isKept List.not_mem_nil
      · exact isKept
    rcases readCurrent_carried reads with rfl | ⟨version, got⟩
    · exact absurd fromCurrent List.not_mem_nil
    · exact ⟨version, current, List.mem_append_left _ (within _ got), fromCurrent⟩
  · right
    obtain ⟨mapping, succeeds, isFile⟩ := List.mem_flatMap.mp new
    obtain ⟨isMapping, chosen⟩ := List.mem_filter.mp succeeds
    obtain ⟨targets, isUploaded⟩ := of_decide_eq_true chosen
    obtain ⟨puts, arePuts⟩ := Option.isSome_iff_exists.mp isUploaded
    rw [uploadedFiles, arePuts, Option.getD_some] at isFile
    obtain ⟨put, isPut, rfl⟩ := List.mem_map.mp isFile
    obtain ⟨sourced, target, state, isTarget, isState, keyed⟩ :=
      parts.run.uploads valid.mappings.distinct spared isMapping
        ((sameUploads _).symm.trans arePuts)
    obtain ⟨isKey, segments, shaped⟩ := keyed put isPut
    rw [targets, isOpen] at isState
    obtain ⟨⟩ := isState
    have isTable : target = table := by
      have named := config.tableOf_id isTarget
      exact List.inj_on_of_nodup_map valid.tables.distinct
        (List.mem_of_find?_eq_some isTarget) member
        (named.trans targets)
    subst isTable
    have named := named_of_sourced valid sourced
    refine ⟨mapping, isMapping, isTarget, puts, arePuts, put, isPut, ?_, ?_⟩
    · rw [revised.version]
      rfl
    · rw [isKey]
      exact uploadKey_resolved (plain mapping isMapping named target isTarget) (targets ▸ shaped)

end Runs

/-! ## A run whose table has a slash in its id -/

section Slashed

variable {config : PipelineConfig} {pipelinePrefix : Text} {buckets final : Buckets}
  {trace : List (Event Effect Reply)}

/-- The warehouse can be written but not read. -/
def WriteOnly (_ : Buckets) (effect : Effect) (given : Answer) : Prop :=
  (∃ key, effect = .getBytes .warehouse key) ∨ (∃ lead, effect = .listKeys .warehouse lead) →
    ∃ error, given = .refused error

/-- A warehouse that cannot be read still serves whatever a run writes. -/
theorem writeOnly_serves : Serves WriteOnly := by
  rintro buckets effect given noGet noList _ (⟨key, isGet⟩ | ⟨lead, isList⟩)
  · exact absurd isGet (noGet key)
  · exact absurd isList (noList lead)

/-- No get of the warehouse succeeds. -/
theorem writeOnly_got {key : Text} {body : Object} {reply : Except Text Object}
    (given : Given WriteOnly buckets (.getBytes .warehouse key) reply final) :
    reply ≠ .ok body := by
  obtain ⟨_, answered, permitted, isAnswer⟩ := given
  obtain ⟨error, rfl⟩ := permitted (Or.inl ⟨key, rfl⟩)
  rintro rfl
  simp only [answer, Option.some.injEq, Prod.mk.injEq, reduceCtorEq, false_and] at isAnswer

/-- Nothing of such a warehouse is ever read. -/
theorem writeOnly_events {α : Type} {job : Job α} {value : α}
    (completed : Program.Completes (Given WriteOnly) job buckets trace value final) (key : Text)
    (body : Object) : (⟨.getBytes .warehouse key, .ok body⟩ : Event Effect Reply) ∉ trace := by
  induction completed with
  | done value world => exact List.not_mem_nil
  | call answered rest inductionHypothesis =>
    intro member
    rcases List.mem_cons.mp member with same | later
    · obtain ⟨rfl, rfl⟩ := Sigma.mk.inj same
      exact writeOnly_got answered rfl
    · exact inductionHypothesis later

/-- Every table is opened as unpublished. -/
theorem writeOnly_opens (tables : List AnalyticTable) (publishes : Publishes) (buckets : Buckets) :
    ∃ opened, Ends WriteOnly (openTables pipelinePrefix false tables publishes) buckets (.ok opened)
      buckets := by
  induction tables generalizing publishes with
  | nil => exact ⟨publishes, .done _ _⟩
  | cons table rest inductionHypothesis =>
    obtain ⟨opened, ends⟩ := inductionHypothesis
      (publishes.insert table.id (openedState pipelinePrefix false table.id .empty))
    exact ⟨opened, .call (.refused []) trivial (fun _ => ⟨[], rfl⟩) rfl ends⟩

/-- Where nothing can be read, every table is opened as if it were new. -/
theorem writeOnly_entries {tables : List AnalyticTable} {opened : Publishes}
    (opens : Program.Completes (Given WriteOnly) (openTables pipelinePrefix false tables ∅) buckets
      trace (.ok opened) final) {tableId : Text} {entry : TablePublish}
    (found : opened.lookup tableId = some entry) :
    entry = openedState pipelinePrefix false tableId .empty := by
  obtain ⟨table, _, rfl, current, reading, _, reads, rfl⟩ :=
    (openTables_entries opens found).resolve_left (by rintro ⟨⟩)
  rcases readCurrent_carried reads with rfl | ⟨version, got⟩
  · rfl
  · exact absurd got (writeOnly_events reads _ _)

/-- A table is published, with its vacuum given up. -/
theorem writeOnly_publishes {tableId : Text} {entry : TablePublish} (touched : entry.touched = true)
    (errors : List Text) (lake warehouse : Store) :
    ∃ errors', Ends WriteOnly (publishTable tableId entry errors) ⟨lake, warehouse⟩ errors'
      ⟨lake, (warehouse.insert (entry.tablePrefix ++ manifestKey entry.version)
        (.manifest ⟨entry.version, [], none, entry.files⟩)).insert
          (entry.tablePrefix ++ currentKey) (.pointer ⟨entry.version⟩)⟩ := by
  have put : ∀ buckets key body, Given WriteOnly buckets (.putObject .warehouse key body) (.ok ())
      (buckets.set .warehouse (buckets.warehouse.insert key body)) := fun _ _ _ =>
    writeOnly_serves.given .served trivial (by rintro _ ⟨⟩) (by rintro _ ⟨⟩) rfl rfl
  have now : ∀ buckets, Given WriteOnly buckets .now [] buckets := fun _ =>
    writeOnly_serves.given (.clock []) trivial (by rintro _ ⟨⟩) (by rintro _ ⟨⟩) rfl rfl
  have unlisted : ∀ buckets lead,
      Given WriteOnly buckets (.listKeys .warehouse lead) (.error []) buckets := fun _ lead =>
    ⟨trivial, .refused [], fun _ => ⟨[], rfl⟩, rfl⟩
  refine ⟨errors, ?_⟩
  simp only [publishTable, publish, vacuum, touched, ↓reduceIte, perform, Program.perform_bind]
  exact Program.ends_call (now _) (Program.ends_call (put _ _ _) (Program.ends_call (put _ _ _)
    (Program.ends_call (unlisted _ _) (Program.ends_done _ _))))

/-- A mapping with a source whose table has a slash in its id lets a run record a file
where it was not put. -/
theorem not_slashed_of_agree (valid : config.Valid) (agree : KeysAgree config) :
    PlainTargets config := by
  intro mapping member sourced table isTable slash
  have tableId := config.tableOf_id isTable
  obtain ⟨container, isSource⟩ :=
    sourceOf_some (List.mem_map.mp ((valid.mapping mapping member).source sourced))
  obtain ⟨opened, opens⟩ : ∃ opened, Ends WriteOnly
      (openTables "p/".toList false config.analyticTables ∅) ⟨soleLake container, ∅⟩ (.ok opened)
      ⟨soleLake container, ∅⟩ := writeOnly_opens _ ∅ _
  have ⟨opening, opensSo⟩ := opens
  obtain ⟨entry, found⟩ := Option.isSome_iff_exists.mp (Program.returns_completes
    (openTables_opened false config.analyticTables ∅) opensSo opened rfl mapping.analyticTableId
    (Or.inl ⟨table, List.mem_of_find?_eq_some isTable, tableId⟩))
  obtain rfl := writeOnly_entries opensSo found
  obtain ⟨outcome, trace, completed⟩ := writeOnly_serves.executes valid.mappings.distinct member
    isSource isTable opens (fun other state isState => by
      obtain rfl := writeOnly_entries opensSo isState
      rfl) found (fun errors => writeOnly_publishes rfl errors _ _)
  let file := recordedFile 1 mapping.id (samplePartition table mapping.id)
  let key := tablePrefix "p/".toList mapping.analyticTableId ++ manifestKey 1
  let manifest : TableManifest := ⟨1, [], none, applyMappingWrites [] mapping.id [file]⟩
  have stored : ∀ warehouse : Store, ((warehouse.insert key (.manifest manifest)).insert
      (tablePrefix "p/".toList mapping.analyticTableId ++ currentKey) (.pointer ⟨1⟩)).lookup key =
        some (.manifest manifest) := by
    intro warehouse
    rw [AList.lookup_insert_ne (fun same =>
      manifestKey_ne_currentKey 1 (List.append_cancel_left same)), AList.lookup_insert]
  obtain ⟨⟨effect, reply⟩, occurs, isPut⟩ := completes_put completed (stored _) (by rintro ⟨⟩)
  obtain rfl : effect = _ := isPut
  obtain ⟨before, after, split⟩ := List.append_of_mem occurs
  obtain ⟨parts⟩ := executeJob_parts completed
  obtain ⟨between, rfl, closes⟩ := parts.located (by rintro _ ⟨⟩) split
  obtain ⟨sameUploads, spared⟩ := parts.uploaded_before closes
  obtain ⟨declared, _, _, resolved⟩ := agree "p/".toList (by decide +kernel) false WriteOnly _ trace
    outcome _ completed _ key _ reply after split
  have listed : file ∈ applyMappingWrites [] mapping.id [file] :=
    mem_applyMappingWrites.mpr (Or.inr List.mem_cons_self)
  rcases resolved file listed with ⟨version, previous, got, _⟩ |
    ⟨other, isOther, isTarget, puts, arePuts, put, isPut, isFile, isKey⟩
  · have within : (⟨.getBytes .warehouse (tablePrefix "p/".toList declared.id ++
        manifestKey version), .ok (.manifest previous)⟩ : Event Effect Reply) ∈ trace := by
      rw [split]
      exact List.mem_append_left _ got
    exact writeOnly_events completed _ _ within
  · -- The put is of this mapping, so its key lies under the first segment of the id only.
    rw [sameUploads] at arePuts
    have isMapping : other = mapping :=
      List.inj_on_of_nodup_map valid.mappings.distinct isOther member
        (congrArg ManifestFile.mappingId isFile).symm
    subst isMapping
    obtain ⟨⟩ := isTarget.symm.trans isTable
    obtain ⟨_, _, opened', _, isOpen, keyed⟩ :=
      parts.run.uploads valid.mappings.distinct spared isOther arePuts
    obtain ⟨isUpload, segments, shaped⟩ := keyed put isPut
    obtain ⟨⟨front, path⟩, halves⟩ := split_shaped other.analyticTableId segments other.id
    rw [← shaped] at halves
    obtain rfl := writeOnly_entries parts.opens isOpen
    have resolves : uploadKey "p/".toList 1 put.1 =
        tablePrefix "p/".toList table.id ++ (recordedFile 1 other.id put.1).key :=
      isUpload.symm.trans (isKey.trans (congrArg (fun recorded : ManifestFile =>
        tablePrefix "p/".toList table.id ++ recorded.key) isFile))
    rw [uploadKey, recordedFile, keyHalves, halves, Option.getD_some] at resolves
    have segment : front = table.id := by
      simpa [tablePrefix] using resolves
    exact (split_sound halves).2 (segment ▸ slash)

/-- For an accepted configuration, manifests agree with uploads in every run if and only
if no mapping with a source targets a table with a slash in its id. -/
theorem keys_agree_iff (accepted : validate config = .ok ()) :
    KeysAgree config ↔ PlainTargets config :=
  ⟨not_slashed_of_agree (validate_iff.mp accepted), keys_agree_of_plain (validate_iff.mp accepted)⟩

end Slashed

/-- The small configuration has plain targets. -/
theorem keys_agree_small : KeysAgree (singleMapping (plainMapping "t".toList)) ↔
    PlainTargets (singleMapping (plainMapping "t".toList)) :=
  keys_agree_iff (by decide +kernel)

/-- One source and one mapping into a table with a slash in its id. -/
def slashedConfig : PipelineConfig :=
  ⟨[plainSource], [], [plainMapping "a/b".toList], [plainTable "a/b".toList]⟩

/-- It is accepted, and some run with it records a file where it was not put. -/
theorem slashed_table_disagrees :
    validate slashedConfig = .ok () ∧ ¬ KeysAgree slashedConfig := by
  have accepted : validate slashedConfig = .ok () := by decide +kernel
  refine ⟨accepted, fun agree => ?_⟩
  have plain := not_slashed_of_agree (validate_iff.mp accepted) agree
  exact plain (plainMapping "a/b".toList) (List.mem_singleton.mpr rfl) (by decide)
    (plainTable "a/b".toList) rfl (by decide)

end KaretWorker
