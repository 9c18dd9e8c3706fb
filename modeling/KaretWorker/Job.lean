import KaretWorker.Publish

/-!
# The shared pipeline-job executor

`execute_job` of `src/job.rs`, from the point where the configuration has been
fetched, parsed and validated. Every table of the configuration is opened first;
then the sources are listed and downloaded, the dimensions built, the mappings
evaluated and uploaded one by one, and last each table that got new output is
published and vacuumed.

The per-mapping blocking task is one effect: ingestion, assertions, dedup and
partitioning have no access to the buckets. Progress updates and log lines have
no bearing on a run and are left out.
-/
namespace KaretWorker

open Texts Interaction

/-- Failures that prevent a run from starting at all. -/
inductive JobError where
  | configRead (error : Text)
  | configParse (error : Text)
  | configInvalid (errors : Text)
  | noFiles
  | dimension (error : Text)
  | cancelled
  deriving DecidableEq, Repr

/-- Terminal result of a successful (possibly partially failed) run. -/
structure JobOutcome where
  partitionsWritten : Nat
  filesProcessed : Nat
  rowsDeduped : Nat
  errors : List Text
  deriving DecidableEq, Repr

/-- Per-table publish state. -/
structure TablePublish where
  tablePrefix : Text
  version : Nat
  files : List ManifestFile
  touched : Bool
  deriving DecidableEq, Repr

/-- The publish state of every table of the run, by table id. -/
abbrev Publishes : Type := AList (fun _ : Text => TablePublish)

/-- Prefix of a table's objects in the warehouse. -/
def tablePrefix (pipelinePrefix tableId : Text) : Text := pipelinePrefix ++ tableId ++ ['/']

/-- The version after `version`. The addition is on `u64`: this is the build with overflow
checks and assertions, which stops after the last version, where one without would go on at 0. -/
def nextVersion (version : Nat) : Job Nat :=
  if version + 1 < u64Bound then pure (version + 1)
  else do
    let never ← perform .overflow
    nomatch never

/-- Open every table: its next version, and the files it starts from, none for a
clean run. -/
def openTables (pipelinePrefix : Text) (cleanRun : Bool) :
    List AnalyticTable → Publishes → Job (Except JobError Publishes)
  | [], publishes => pure (.ok publishes)
  | table :: rest, publishes => do
    match ← readCurrent (tablePrefix pipelinePrefix table.id) with
    | .error error => pure (.error (.configRead error))
    | .ok current => do
      let version ← nextVersion current.version
      let files := if cleanRun then [] else current.files
      openTables pipelinePrefix cleanRun rest (publishes.insert table.id
        ⟨tablePrefix pipelinePrefix table.id, version, files, false⟩)

/-- Append the listed keys with an accepted extension that were not seen before. -/
def addCandidates (container : SourceContainer) (candidates listed : List Text) : List Text :=
  listed.foldl (fun found key =>
    if container.accepts key && !found.contains key then found ++ [key] else found) candidates

/-- List every source container; a listing that fails is skipped. -/
def listSources : List SourceContainer → List Text → Job (List Text)
  | [], candidates => pure candidates
  | container :: rest, candidates => do
    match ← perform (.listKeys .lake container.pathPrefix) with
    | .ok listed => listSources rest (addCandidates container candidates listed)
    | .error _ => listSources rest candidates

/-- Download the candidates in order; a download that fails is skipped. The
cancel flag is read before each. -/
def downloadAll :
    List Text → List (Text × Object) → Job (Except JobError (List (Text × Object)))
  | [], files => pure (.ok files)
  | key :: rest, files => do
    if ← perform .loadCancel then
      pure (.error .cancelled)
    else
      match ← perform (.getBytes .lake key) with
      | .ok body => downloadAll rest (files ++ [(key, body)])
      | .error _ => downloadAll rest files

/-- Read the CSV files of one file-backed dimension. -/
def readDimensionFiles (dimension : Dimension) : List Text → Job (Except JobError Unit)
  | [] => pure (.ok ())
  | key :: rest => do
    match ← perform (.getBytes .lake key) with
    | .error error =>
      pure (.error (.dimension ("reading ".toList ++ key ++ ": ".toList ++ error)))
    | .ok body =>
      match ← perform (.rowsFromCsv dimension body) with
      | .error error => pure (.error (.dimension error))
      | .ok () => readDimensionFiles dimension rest

/-- Build the matchers of the file-backed dimensions. -/
def loadFileDimensions : List Dimension → Job (Except JobError Unit)
  | [] => pure (.ok ())
  | dimension :: rest =>
    match dimension.rows with
    | .inline _ _ => loadFileDimensions rest
    | .file pathPrefix _ _ _ => do
      match ← perform (.listKeys .lake pathPrefix) with
      | .error error =>
        pure (.error (.dimension ("listing ".toList ++ pathPrefix ++ ": ".toList ++ error)))
      | .ok keys =>
        match ← readDimensionFiles dimension
            (keys.filter (fun key => ".csv".toList.isSuffixOf key)) with
        | .error error => pure (.error error)
        | .ok () =>
          match ← perform (.newMatcher dimension) with
          | .error error => pure (.error (.dimension error))
          | .ok () => loadFileDimensions rest

/-- Precompile the dimension registry, inline dimensions first. -/
def loadDimensions (dimensions : List Dimension) : Job (Except JobError Unit) := do
  match ← perform (.buildInlineRegistry dimensions) with
  | .error error => pure (.error (.dimension error))
  | .ok () => loadFileDimensions dimensions

/-- Upload partitions into the table's staging version. The version is spliced in
after the table segment of the partition key; the first failure stops. -/
def uploadPartitions (pipelinePrefix : Text) (version : Nat) (mappingId : Text) :
    List PartitionOutput → List ManifestFile → Job (Except Text (List ManifestFile))
  | [], written => pure (.ok written)
  | partition :: rest, written =>
    match splitOnce '/' partition.key with
    | none =>
      pure (.error ("partition key ".toList ++ partition.key ++ " has no table segment".toList))
    | some (tableId, path) => do
      let relative := versionPrefix version ++ path
      let fullKey := pipelinePrefix ++ tableId ++ '/' :: relative
      match ← perform (.putObject .warehouse fullKey (.data partition.bytes)) with
      | .error error =>
        pure (.error ("S3 PutObject failed for ".toList ++ fullKey ++ ": ".toList ++ error))
      | .ok () =>
        uploadPartitions pipelinePrefix version mappingId rest
          (written ++ [⟨relative, mappingId, partition.bytes.length⟩])

/-- What the mapping loop has accumulated. -/
structure Progress where
  publishes : Publishes
  partitions : Nat
  deduped : Nat
  errors : List Text

/-- The downloaded files under a container's prefix. -/
def filesUnder (container : SourceContainer) (files : List (Text × Object)) :
    List (Text × Object) :=
  files.filter (fun file => container.pathPrefix.isPrefixOf file.1)

/-- Upload one mapping's partitions and, if all of them were written, replace its
files in its table's publish state. -/
def applyMapping (pipelinePrefix : Text) (mapping : Mapping) (outputs : List PartitionOutput)
    (dropped : Nat) (progress : Progress) : Job Progress :=
  let deduped := progress.deduped + dropped
  match progress.publishes.lookup mapping.analyticTableId with
  | none =>
    pure { progress with
      deduped := deduped
      errors := progress.errors ++ ["mapping ".toList ++ mapping.id ++ ": table ".toList ++
        mapping.analyticTableId ++ " not declared".toList] }
  | some entry => do
    match ← uploadPartitions pipelinePrefix entry.version mapping.id outputs [] with
    | .ok written =>
      pure { progress with
        deduped := deduped
        partitions := progress.partitions + written.length
        publishes := progress.publishes.insert mapping.analyticTableId
          { entry with files := applyMappingWrites entry.files mapping.id written, touched := true } }
    | .error error =>
      pure { progress with
        deduped := deduped
        errors := progress.errors ++ ["upload ".toList ++ mapping.id ++ ": ".toList ++ error] }

/-- Evaluate and upload the mappings in order. The cancel flag is read before
each; a mapping whose source is unknown or has no files is skipped. -/
def runMappings (config : PipelineConfig) (pipelinePrefix : Text) (files : List (Text × Object)) :
    List Mapping → Progress → Job (Except JobError Progress)
  | [], progress => pure (.ok progress)
  | mapping :: rest, progress => do
    if ← perform .loadCancel then
      pure (.error .cancelled)
    else
      match config.sourceOf mapping with
      | none => runMappings config pipelinePrefix files rest progress
      | some container =>
        let mappingFiles := filesUnder container files
        if mappingFiles.isEmpty then
          runMappings config pipelinePrefix files rest progress
        else do
          -- The task looks its mapping up again by id in its copy of the config.
          let evaluated := (config.mappings.find? (fun other => other.id = mapping.id)).getD mapping
          match ← perform (.evaluate evaluated (config.tableOf mapping) mappingFiles) with
          | .failed message =>
            runMappings config pipelinePrefix files rest
              { progress with errors := progress.errors ++ [message] }
          | .panicked joinError =>
            runMappings config pipelinePrefix files rest
              { progress with errors := progress.errors ++
                ["mapping ".toList ++ mapping.id ++ " task panicked: ".toList ++ joinError] }
          | .partitions outputs dropped => do
            let progress ← applyMapping pipelinePrefix mapping outputs dropped progress
            runMappings config pipelinePrefix files rest progress

/-- Publish one table and vacuum it. A table that got no new output is left on
its previous version; a failed vacuum is not an error of the run. -/
def publishTable (tableId : Text) (entry : TablePublish) (errors : List Text) :
    Job (List Text) :=
  if entry.touched then do
    let createdAt ← perform .now
    let manifest : TableManifest := ⟨entry.version, createdAt, none, entry.files⟩
    match ← publish entry.tablePrefix manifest with
    | .error error =>
      pure (errors ++ ["publish ".toList ++ tableId ++ ": ".toList ++ error])
    | .ok () => do
      let _ ← vacuum entry.tablePrefix manifest.version
      pure errors
  else pure errors

/-- Publish the tables in the iteration order of the hash map. -/
def publishTables (publishes : Publishes) : List Text → List Text → Job (List Text)
  | [], errors => pure errors
  | tableId :: rest, errors =>
    match publishes.lookup tableId with
    | none => publishTables publishes rest errors
    | some entry => do
      let errors ← publishTable tableId entry errors
      publishTables publishes rest errors

/-- Execute one pipeline run. -/
def executeJob (loaded : Except JobError PipelineConfig) (pipelinePrefix : Text)
    (cleanRun : Bool) : Job (Except JobError JobOutcome) :=
  match loaded with
  | .error error => pure (.error error)
  | .ok config => do
    match ← openTables pipelinePrefix cleanRun config.analyticTables ∅ with
    | .error error => pure (.error error)
    | .ok publishes => do
      let candidates ← listSources config.sourceContainers []
      match ← downloadAll candidates [] with
      | .error error => pure (.error error)
      | .ok files =>
        if files.isEmpty then
          pure (.error .noFiles)
        else
          match ← loadDimensions config.dimensions with
          | .error error => pure (.error error)
          | .ok () =>
            match ← runMappings config pipelinePrefix files config.mappings
                ⟨publishes, 0, 0, []⟩ with
            | .error error => pure (.error error)
            | .ok progress => do
              let order ← perform (.iterate progress.publishes.keys)
              let errors ← publishTables progress.publishes order progress.errors
              pure (.ok ⟨progress.partitions, files.length, progress.deduped, errors⟩)

end KaretWorker
