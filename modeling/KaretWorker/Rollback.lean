import KaretWorker.NextVersion

/-!
# Published versions across a rollback

The next version of a table is the one after the version its pointer names. Somebody may
have pointed a table back to an older version whose manifest is still there; the next run
then takes a number that was used before, and writes over what was published under it.

A lineage is any sequence of finished runs and such rollbacks. `published_immutable` shows
that runs leave published versions alone as long as every run that puts anything under the
table has read a pointer that names the newest version so far; `rollback_overwrites` is a
run that has not.
-/
namespace KaretWorker

open Texts Interaction

/-! ## First segments -/

/-- What precedes the first slash. -/
def firstSegment (text : Text) : Text := text.takeWhile (· ≠ '/')

/-- What follows the first slash is not part of the first segment. -/
theorem firstSegment_join (left right : Text) :
    firstSegment (left ++ '/' :: right) = firstSegment left := by
  induction left with
  | nil => rfl
  | cons character rest inductionHypothesis =>
    by_cases isSlash : character = '/'
    · simp [firstSegment, isSlash]
    · simpa [firstSegment, isSlash] using inductionHypothesis

section Keys

variable {pipelinePrefix id other relative : Text} {version directory : Nat}

/-- A key under a table shows the first segment of the table's id. -/
theorem firstSegment_shared {key : Text}
    (same : tablePrefix pipelinePrefix id ++ relative = pipelinePrefix ++ other ++ '/' :: key) :
    firstSegment id = firstSegment other := by
  have joined : id ++ '/' :: relative = other ++ '/' :: key := by simpa [tablePrefix] using same
  rw [← firstSegment_join id relative, joined, firstSegment_join]

/-- Keys under two tables agree only if the first segments do. -/
theorem firstSegment_tables {key : Text}
    (same : tablePrefix pipelinePrefix id ++ relative = tablePrefix pipelinePrefix other ++ key) :
    firstSegment id = firstSegment other := by
  have joined : tablePrefix pipelinePrefix id ++ relative = pipelinePrefix ++ other ++ '/' :: key :=
    same.trans (by simp [tablePrefix])
  exact firstSegment_shared joined

/-- A version directory spliced into an id ends up before another one of the same
version only. -/
theorem version_spliced {rest tail path : Text} (lengthBound : Nat)
    (bounded : rest.length ≤ lengthBound)
    (same : 'v' :: decimal version ++ '/' :: (rest ++ '/' :: tail) =
      rest ++ '/' :: ('v' :: decimal directory ++ '/' :: path)) : version = directory := by
  have plain : ∀ number, '/' ∉ 'v' :: decimal number := fun number member =>
    (List.mem_cons.mp member).elim (by decide) (not_mem_decimal (by decide) number)
  induction lengthBound generalizing rest with
  | zero =>
    obtain rfl := List.eq_nil_of_length_eq_zero (Nat.le_zero.mp bounded)
    exact absurd (List.cons.inj same).1 (by decide)
  | succ lengthBound inductionHypothesis =>
    rcases join_cases same with ⟨equal, split⟩ | ⟨more, longer, split⟩ | ⟨more, longer, _⟩
    · rw [← equal] at split
      have numbers := join_injective (plain version) (plain directory) split
      exact decimal_injective (List.cons.inj numbers.1).2
    · rw [longer] at bounded split
      have shorter : more.length ≤ lengthBound := by
        simp only [List.length_append, List.length_cons] at bounded
        omega
      exact inductionHypothesis shorter (by simpa using split)
    · exact absurd (longer ▸ List.mem_append_right _ List.mem_cons_self) (plain version)

/-- A partition uploaded into a version directory of its own table is of that version. -/
theorem upload_version {output : PartitionOutput} {segments : List Text} {mappingId path : Text}
    (shaped : output.key = partitionKey id segments mappingId)
    (same : tablePrefix pipelinePrefix id ++ (versionPrefix directory ++ path) =
      uploadKey pipelinePrefix version output) : version = directory := by
  obtain ⟨⟨front, back⟩, split⟩ := split_shaped id segments mappingId
  have halves : keyHalves output = (front, back) := by
    rw [keyHalves, shaped, split, Option.getD_some]
  obtain ⟨joined, plain⟩ := split_sound split
  rw [uploadKey, halves] at same
  have keys : front ++ '/' :: ('v' :: decimal version ++ '/' :: back) =
      id ++ '/' :: ('v' :: decimal directory ++ '/' :: path) := by
    simpa [tablePrefix, versionPrefix] using same.symm
  cases cut : splitOnce '/' id with
  | none =>
    obtain ⟨rfl, spliced⟩ := join_injective plain (not_mem_of_unsplit cut) keys
    have directories : versionPrefix version ++ back = versionPrefix directory ++ path := by
      simpa [versionPrefix] using spliced
    exact versionPrefix_injective directories
  | some halves =>
    obtain ⟨first, rest⟩ := halves
    obtain ⟨rfl, plainFirst⟩ := split_sound cut
    rw [List.append_assoc, List.cons_append] at keys
    obtain ⟨rfl, spliced⟩ := join_injective plain plainFirst keys
    rw [partitionKey, List.append_assoc, List.cons_append] at joined
    obtain ⟨_, isBack⟩ := join_injective plainFirst plain joined
    rw [← isBack] at spliced
    exact version_spliced rest.length (Nat.le_refl _) spliced

end Keys

/-! ## What a run puts -/

/-- An object that a run puts for a table, given the manifest that it read. -/
inductive PutFor (pipelinePrefix : Text) (table : AnalyticTable) (current : TableManifest)
    (key : Text) (body : Object) : Prop
  | upload (output : PartitionOutput) (segments : List Text) (mappingId : Text) (bytes : List UInt8)
      (shaped : output.key = partitionKey table.id segments mappingId)
      (isKey : key = uploadKey pipelinePrefix (current.version + 1) output)
      (isBody : body = .data bytes)
  | manifest (createdAt : Text) (files : List ManifestFile)
      (listed : ∀ file ∈ files, file ∈ current.files ∨
        ∃ path, file.key = versionPrefix (current.version + 1) ++ path)
      (isKey : key = tablePrefix pipelinePrefix table.id ++ manifestKey (current.version + 1))
      (isBody : body = .manifest ⟨current.version + 1, createdAt, none, files⟩)
  | pointer (isKey : key = tablePrefix pipelinePrefix table.id ++ currentKey)
      (isBody : body = .pointer ⟨current.version + 1⟩)

section Puts

variable {permits : Buckets → Effect → Answer → Prop} {config : PipelineConfig}
  {pipelinePrefix : Text} {cleanRun : Bool} {buckets final : Buckets}
  {trace : List (Event Effect Reply)}

/-- An upload puts a partition. -/
theorem Uploads.putFor {effect : Effect}
    (uploads : Uploads permits config pipelinePrefix buckets trace effect) {key : Text}
    {body : Object} (isPut : effect = .putObject .warehouse key body) :
    ∃ table current, ReadAs permits config pipelinePrefix buckets trace table current ∧
      PutFor pipelinePrefix table current key body := by
  obtain ⟨table, current, output, segments, mappingId, bytes, readAs, shaped, isKey, isData⟩ :=
    uploads key (by rw [isPut]; rfl)
  have isBody : body = .data bytes := by simpa [isPut] using isData
  exact ⟨table, current, readAs, .upload output segments mappingId bytes shaped isKey isBody⟩

/-- Whatever a run puts in the warehouse is for the version after the one that it read. -/
theorem executeJob_puts {result : Except JobError JobOutcome}
    (completed : Program.Completes (Given permits)
      (executeJob (.ok config) pipelinePrefix cleanRun) buckets trace result final) :
    ∀ event ∈ trace, ∀ key body, event.1 = .putObject .warehouse key body →
      ∃ table current, ReadAs permits config pipelinePrefix buckets trace table current ∧
        PutFor pipelinePrefix table current key body := by
  cases result with
  | error error =>
    exact fun event member key body => (executeJob_unpublished completed event member).putFor
  | ok outcome =>
    obtain ⟨parts⟩ := executeJob_parts completed
    have opening : ∀ event ∈ parts.opening, event ∈ trace := fun _ occurs =>
      parts.split ▸ List.mem_append_left _ occurs
    intro event member key body isPut
    rw [parts.split] at member
    rcases List.mem_append.mp member with isOpening | member
    · have reads := Program.calls_completes (openTables_reads _ _ _ _) parts.opens event isOpening
      rw [isPut] at reads
      exact absurd reads id
    rcases List.mem_append.mp member with isReading | member
    · exact absurd (by rw [isPut]; rfl) (parts.unwritten event isReading key)
    rcases List.mem_append.mp member with isMapping | member
    · exact (parts.uploads event isMapping).putFor isPut
    rcases List.mem_cons.mp member with rfl | isClosing
    · exact nomatch isPut
    obtain ⟨tableId, entry, found, puts⟩ := Program.calls_completes (publishTables_puts _ _)
      parts.publishes event isClosing _ key body isPut
    obtain ⟨state, isState, descends⟩ := parts.run.origin found
    obtain ⟨table, isTable, rfl, current, reading, within, reads, rfl⟩ :=
      (openTables_entries parts.opens isState).resolve_left (by rintro ⟨⟩)
    have located : entry.tablePrefix = tablePrefix pipelinePrefix table.id := descends.located
    have version : entry.version = current.version + 1 := descends.version
    refine ⟨table, current,
      ⟨isTable, reading, fun event occurs => opening event (within event occurs),
      reads⟩, ?_⟩
    rcases puts _ key body isPut with ⟨isKey, createdAt, isBody⟩ | ⟨isKey, isBody⟩
    · rw [located, version] at isKey
      rw [version] at isBody
      refine .manifest createdAt entry.files (fun file isFile => ?_) isKey isBody
      rcases descends.listed file isFile with kept | new
      · left
        have isKept : file ∈ (if cleanRun then [] else current.files) := kept
        split at isKept
        · exact absurd isKept List.not_mem_nil
        · exact isKept
      · exact Or.inr new
    · rw [located] at isKey
      rw [version] at isBody
      exact .pointer isKey isBody

end Puts

/-! ## Sequences of runs and rollbacks -/

/-- The version named by what came back for a pointer. -/
def versionOf : Except Text Object → Nat
  | .ok (.pointer pointer) => pointer.version
  | _ => 0

/-- The version that the pointer of a table names, if it has one. -/
def namedBy (table : Text) (buckets : Buckets) : List Nat :=
  match buckets.under table currentKey with
  | some (.pointer pointer) => [pointer.version]
  | _ => []

/-- Every other table of the configuration lies under another first segment. -/
def ApartFrom (id : Text) (config : PipelineConfig) : Prop :=
  ∀ table ∈ config.analyticTables, table.id = id ∨ firstSegment table.id ≠ firstSegment id

instance (id : Text) (config : PipelineConfig) : Decidable (ApartFrom id config) :=
  inferInstanceAs (Decidable (∀ table ∈ config.analyticTables, _))

/-- The states of a table that was never written before, with the versions its pointer has
named, after finished runs that a rule admits and rollbacks. A rollback points the table
to an older version whose manifest is there. -/
inductive Lineage (rule : Text → List Nat → List (Event Effect Reply) → Prop)
    (pipelinePrefix id : Text) : Buckets → List Nat → Prop
  | start {buckets : Buckets}
      (unwritten : ∀ key, buckets.under (tablePrefix pipelinePrefix id) key = none) :
      Lineage rule pipelinePrefix id buckets []
  | run {buckets final : Buckets} {pointed : List Nat} {permits : Buckets → Effect → Answer → Prop}
      {config : PipelineConfig} {cleanRun : Bool} {trace : List (Event Effect Reply)}
      {result : Except JobError JobOutcome} (lake : Store)
      (lineage : Lineage rule pipelinePrefix id buckets pointed) (apart : ApartFrom id config)
      (completed : Program.Completes (Given permits)
        (executeJob (.ok config) pipelinePrefix cleanRun) { buckets with lake := lake } trace result
        final)
      (admitted : rule (tablePrefix pipelinePrefix id) pointed trace) :
      Lineage rule pipelinePrefix id final
        (pointed ++ namedBy (tablePrefix pipelinePrefix id) final)
  | rollback {buckets : Buckets} {pointed : List Nat} {pointer : CurrentPointer} {version : Nat}
      {manifest : TableManifest} (lineage : Lineage rule pipelinePrefix id buckets pointed)
      (current : buckets.under (tablePrefix pipelinePrefix id) currentKey = some (.pointer pointer))
      (older : version < pointer.version)
      (present : buckets.under (tablePrefix pipelinePrefix id) (manifestKey version) =
        some (.manifest manifest)) :
      Lineage rule pipelinePrefix id
        (buckets.set .warehouse (buckets.warehouse.insert
          (tablePrefix pipelinePrefix id ++ currentKey) (.pointer ⟨version⟩)))
        (pointed ++ [version])

/-- A run that puts anything under the table has read a pointer to the newest version. -/
def ReadNewest (table : Text) (pointed : List Nat) (trace : List (Event Effect Reply)) : Prop :=
  (∃ event ∈ trace, ∃ relative body, event.1 = .putObject .warehouse (table ++ relative) body) →
    ∀ reply, (⟨.getBytes .warehouse (table ++ currentKey), reply⟩ : Event Effect Reply) ∈ trace →
      ∀ version ∈ pointed, version ≤ versionOf reply

/-- A run puts nothing over the manifests of the versions that the pointer has named, over
the files that those manifests list, or after the pointer that it puts itself. -/
structure LeavesAlone (table : Text) (pointed : List Nat) (buckets : Buckets)
    (trace : List (Event Effect Reply)) : Prop where
  manifests : ∀ version ∈ pointed, ∀ body reply,
    ⟨.putObject .warehouse (table ++ manifestKey version) body, reply⟩ ∉ trace
  files : ∀ version ∈ pointed, ∀ manifest,
    buckets.under table (manifestKey version) = some (.manifest manifest) →
    ∀ file ∈ manifest.files, ∀ body reply,
      ⟨.putObject .warehouse (table ++ file.key) body, reply⟩ ∉ trace
  sealed : ∀ before pointer reply after,
    trace = before ++ ⟨.putObject .warehouse (table ++ currentKey) (.pointer pointer), reply⟩ :: after →
    ∀ event ∈ after, ∀ relative body, event.1 ≠ .putObject .warehouse (table ++ relative) body

/-- Every manifest is of the version its key names, and lists files of versions up to it. -/
def Orderly (table : Text) (buckets : Buckets) : Prop :=
  ∀ version body, buckets.under table (manifestKey version) = some body →
    ∃ manifest, body = .manifest manifest ∧ manifest.version = version ∧
      ∀ file ∈ manifest.files, ∃ directory path, directory ≤ version ∧
        file.key = versionPrefix directory ++ path

section Lineages

variable {permits : Buckets → Effect → Answer → Prop} {config : PipelineConfig}
  {pipelinePrefix id : Text} {cleanRun : Bool} {buckets final : Buckets}
  {trace : List (Event Effect Reply)} {table : AnalyticTable} {current : TableManifest}

/-- What is put for a table under another first segment is not under this one. -/
theorem PutFor.elsewhere {key : Text} {body : Object}
    (put : PutFor pipelinePrefix table current key body)
    (apart : firstSegment table.id ≠ firstSegment id) (relative : Text) :
    key ≠ tablePrefix pipelinePrefix id ++ relative := by
  rintro rfl
  cases put with
  | upload output segments mappingId bytes shaped isKey _ =>
    obtain ⟨⟨front, back⟩, split⟩ := split_shaped table.id segments mappingId
    have halves : keyHalves output = (front, back) := by
      rw [keyHalves, shaped, split, Option.getD_some]
    rw [uploadKey, halves] at isKey
    have segment : firstSegment front = firstSegment table.id := by
      rw [← firstSegment_join front back, ← (split_sound split).1, partitionKey, firstSegment_join]
    exact apart (segment.symm.trans (firstSegment_shared isKey).symm)
  | manifest _ _ _ isKey _ | pointer isKey _ =>
    exact apart (firstSegment_tables isKey).symm

/-- A manifest that is put is of the next version, and lists files of the versions up to
it. -/
theorem PutFor.of_manifest {version : Nat} {body : Object}
    (put : PutFor pipelinePrefix table current
      (tablePrefix pipelinePrefix table.id ++ manifestKey version) body) :
    version = current.version + 1 ∧ ∃ createdAt files,
      body = .manifest ⟨current.version + 1, createdAt, none, files⟩ ∧
      ∀ file ∈ files, file ∈ current.files ∨
        ∃ path, file.key = versionPrefix (current.version + 1) ++ path := by
  cases put with
  | upload output segments mappingId bytes shaped isKey _ =>
    have ending : ".parquet".toList <:+ tablePrefix pipelinePrefix table.id ++
      manifestKey version :=
      isKey ▸ uploadKey_suffix shaped
    exact absurd ((List.suffix_append _ _).trans (List.suffix_append _ _))
      (not_json_of_parquet ending)
  | manifest createdAt files listed isKey isBody =>
    exact ⟨manifestKey_injective (List.append_cancel_left isKey), createdAt, files, isBody, listed⟩
  | pointer isKey _ =>
    exact absurd (List.append_cancel_left isKey) (manifestKey_ne_currentKey version)

/-- A file that is put into a version directory is of the next version. -/
theorem PutFor.of_file {directory : Nat} {path : Text} {body : Object}
    (put : PutFor pipelinePrefix table current
      (tablePrefix pipelinePrefix table.id ++ (versionPrefix directory ++ path)) body) :
    directory = current.version + 1 := by
  cases put with
  | upload output segments mappingId bytes shaped isKey _ =>
      exact (upload_version shaped isKey).symm
  | manifest _ _ _ isKey _ =>
    exact absurd (List.append_cancel_left isKey) (versionPrefix_ne_manifestKey _ _ _)
  | pointer isKey _ =>
    exact absurd (List.append_cancel_left isKey) (versionPrefix_ne_currentKey _ _)

/-- The manifest read for an orderly table is of the version its pointer named. -/
theorem Orderly.reads {tablePath : Text} {reading : List (Event Effect Reply)}
    (orderly : Orderly tablePath buckets)
    (reads : Program.Completes (Given permits) (readCurrent tablePath) buckets reading (.ok current)
      final) :
    ∃ reply, (⟨.getBytes .warehouse (tablePath ++ currentKey), reply⟩ : Event Effect Reply) ∈
      reading ∧
      current.version = versionOf reply ∧
      ∀ file ∈ current.files, ∃ directory path, directory ≤ current.version ∧
        file.key = versionPrefix directory ++ path := by
  obtain ⟨reply, middle, later, ⟨_, given, _, answered⟩, continues, rfl⟩ :=
    Program.call_completes reads
  have unchanged := (answer_getBytes answered).1
  rcases reply with error | (pointer | manifest | bytes)
  · cases continues
    exact ⟨_, List.mem_cons_self, rfl, fun _ impossible => absurd impossible List.not_mem_nil⟩
  · obtain ⟨reply, _, last, ⟨_, given', _, answered'⟩, finishes, rfl⟩ :=
      Program.call_completes continues
    rcases (answer_getBytes answered').2 with ⟨body, rfl, present⟩ | ⟨error, rfl, _⟩
    · rw [unchanged] at present
      obtain ⟨manifest, rfl, isVersion, listed⟩ := orderly _ _ present
      cases finishes
      exact ⟨_, List.mem_cons_self, isVersion, isVersion ▸ listed⟩
    · cases finishes
  · cases continues
  · cases continues

end Lineages

/-! ## Nothing after the pointer -/

section Sealed

variable {permits : Buckets → Effect → Answer → Prop} {pipelinePrefix id : Text}
  {buckets final : Buckets} {trace before after : List (Event Effect Reply)} {publishes : Publishes}
  {order errors result : List Text}

/-- Publishing a table puts nothing after its pointer. -/
theorem publishTable_sealed {entry : TablePublish}
    (completed : Program.Completes (Given permits)
      (publishTable id entry errors) buckets trace result
      final) {key : Text} {pointer : CurrentPointer} {reply : Except Text Unit}
    (occurs : trace = before ++ ⟨.putObject .warehouse key (.pointer pointer), reply⟩ :: after) :
    ∀ event ∈ after, Putless event.1 := by
  simp only [publishTable, perform, Program.perform_bind] at completed
  split at completed
  case isFalse =>
    cases completed
    exact absurd occurs (by simp)
  obtain ⟨createdAt, _, later, _, afterClock, rfl⟩ := Program.call_completes completed
  obtain ⟨publishing, published, _, vacuuming, publishes, afterPublish, rfl⟩ :=
    Program.bind_completes afterClock
  have vacuums : ∀ event ∈ vacuuming, Putless event.1 := by
    cases published with
    | error error =>
      cases afterPublish
      exact fun _ impossible => absurd impossible List.not_mem_nil
    | ok done =>
      obtain ⟨vacuum, _, _, rest, runs, finishes, rfl⟩ := Program.bind_completes afterPublish
      cases finishes
      rw [List.append_nil]
      exact Program.calls_completes (vacuum_putless _ _) runs
  simp only [publish, perform, Program.perform_bind] at publishes
  obtain ⟨stored, _, flipping, _, flips, rfl⟩ := Program.call_completes publishes
  have notVacuum : ∀ between, vacuuming ≠
      between ++ ⟨.putObject .warehouse key (.pointer pointer), reply⟩ :: after := by
    rintro between rfl
    exact vacuums _ (List.mem_append_right _ List.mem_cons_self) _ _ _ rfl
  -- The clock and the manifest come first, so the pointer is what follows them.
  rcases before with _ | ⟨clock, _ | ⟨manifest, between⟩⟩
  · cases (Sigma.mk.inj (List.cons.inj occurs).1).1
  · have impossible := (Sigma.mk.inj (List.cons.inj (List.cons.inj occurs).2).1).1
    simp only [Effect.putObject.injEq, reduceCtorEq, and_false] at impossible
  · have last := (List.cons.inj (List.cons.inj occurs).2).2
    rcases stored with error | done
    · cases flips
      exact absurd last (notVacuum between)
    · obtain ⟨flipped, _, _, _, finishes, rfl⟩ := Program.call_completes flips
      cases finishes
      cases between with
      | nil => exact (List.cons.inj last).2 ▸ vacuums
      | cons event between => exact absurd (List.cons.inj last).2 (notVacuum between)

/-- The effect puts nothing under the table. -/
def PutsElsewhere (table : Text) (effect : Effect) : Prop :=
  ∀ relative body, effect ≠ .putObject .warehouse (table ++ relative) body

/-- Publishing a table under another first segment puts nothing under this one. -/
theorem publishTable_elsewhere {tableId : Text} {entry : TablePublish}
    (located : entry.tablePrefix = tablePrefix pipelinePrefix tableId)
    (apart : firstSegment tableId ≠ firstSegment id) :
    (publishTable tableId entry errors).Calls (PutsElsewhere (tablePrefix pipelinePrefix id)) := by
  refine Program.calls_mono (publishTable_puts tableId errors) ?_
  intro effect puts relative body isPut
  rcases puts _ _ body isPut with ⟨isKey, _⟩ | ⟨isKey, _⟩ <;>
  · rw [located] at isKey
    exact apart (firstSegment_tables isKey).symm

/-- Publishing tables with other first segments puts nothing under this one. -/
theorem publishTables_elsewhere (located : Located pipelinePrefix publishes)
    (apart : ∀ tableId ∈ order, firstSegment tableId ≠ firstSegment id) :
    (publishTables publishes order errors).Calls
      (PutsElsewhere (tablePrefix pipelinePrefix id)) := by
  induction order generalizing errors with
  | nil => trivial
  | cons tableId rest inductionHypothesis =>
    have restApart := fun other member => apart other (List.mem_cons_of_mem _ member)
    unfold publishTables
    split
    · exact inductionHypothesis restApart
    · next entry found =>
      exact Program.calls_bind (publishTable_elsewhere (located tableId entry found)
        (apart tableId List.mem_cons_self)) (fun _ => inductionHypothesis restApart)

/-- Publishing tables under other first segments along with one puts nothing under that
one after its pointer. -/
theorem publishTables_sealed (located : Located pipelinePrefix publishes)
    (apart : ∀ tableId ∈ order, tableId = id ∨ firstSegment tableId ≠ firstSegment id)
    (distinct : order.Nodup)
    (completed : Program.Completes (Given permits)
      (publishTables publishes order errors) buckets trace
      result final) {pointer : CurrentPointer} {reply : Except Text Unit}
    (occurs : trace = before ++ ⟨.putObject .warehouse (tablePrefix pipelinePrefix id ++ currentKey)
      (.pointer pointer), reply⟩ :: after) :
    ∀ event ∈ after, PutsElsewhere (tablePrefix pipelinePrefix id) event.1 := by
  induction order generalizing errors buckets trace before with
  | nil =>
    cases completed
    exact absurd occurs (by simp)
  | cons tableId rest inductionHypothesis =>
    obtain ⟨absent, restDistinct⟩ := List.nodup_cons.mp distinct
    have restApart := fun other member => apart other (List.mem_cons_of_mem _ member)
    unfold publishTables at completed
    split at completed
    · exact inductionHypothesis restApart restDistinct completed occurs
    next entry found =>
    obtain ⟨publishing, _, _, others, publishes', continues, rfl⟩ :=
      Program.bind_completes completed
    rcases apart tableId List.mem_cons_self with rfl | elsewhere
    · have othersApart : ∀ other ∈ rest, firstSegment other ≠ firstSegment tableId :=
        fun other member =>
        (restApart other member).resolve_left (fun same => absent (same ▸ member))
      have later := Program.calls_completes (publishTables_elsewhere located othersApart) continues
      rcases List.append_eq_append_iff.mp occurs with ⟨between, longer, split⟩ |
          ⟨between, longer, split⟩
      · exact absurd rfl (later _ (split ▸ List.mem_append_right _ List.mem_cons_self) _ _)
      · cases between with
        | nil => exact absurd rfl (later _ (split ▸ List.mem_cons_self) _ _)
        | cons event between =>
          obtain ⟨rfl, rfl⟩ := List.cons.inj split
          intro other member
          rcases List.mem_append.mp member with own | others
          · exact fun relative body =>
              publishTable_sealed publishes' longer other own _ _ _
          · exact later other others
    · have notHere := Program.calls_completes
        (publishTable_elsewhere (located tableId entry found) elsewhere) publishes'
      obtain ⟨between, rfl, split⟩ := split_later (fun member => notHere _ member _ _ rfl) occurs
      exact inductionHypothesis restApart restDistinct continues split

end Sealed

/-! ## Runs of a lineage -/

section Runs

variable {permits : Buckets → Effect → Answer → Prop} {config : PipelineConfig}
  {pipelinePrefix id : Text} {cleanRun : Bool} {buckets final : Buckets} {pointed : List Nat}
  {trace : List (Event Effect Reply)} {result : Except JobError JobOutcome}

/-- What a run puts under a table is for the version after the one its pointer named. -/
theorem executeJob_puts_under (apart : ApartFrom id config)
    (orderly : Orderly (tablePrefix pipelinePrefix id) buckets)
    (completed : Program.Completes (Given permits)
      (executeJob (.ok config) pipelinePrefix cleanRun) buckets trace result final)
    {event : Event Effect Reply} (member : event ∈ trace) {relative : Text} {body : Object}
    (isPut : event.1 = .putObject .warehouse (tablePrefix pipelinePrefix id ++ relative) body) :
    ∃ table current reply, table.id = id ∧
      (⟨.getBytes .warehouse (tablePrefix pipelinePrefix id ++ currentKey), reply⟩ :
        Event Effect Reply) ∈ trace ∧ current.version = versionOf reply ∧
      (∀ file ∈ current.files, ∃ directory path, directory ≤ current.version ∧
        file.key = versionPrefix directory ++ path) ∧
      PutFor pipelinePrefix table current (tablePrefix pipelinePrefix id ++ relative) body := by
  obtain ⟨table, current, ⟨isTable, reading, within, reads⟩, put⟩ :=
    executeJob_puts completed event member _ body isPut
  rcases apart table isTable with rfl | elsewhere
  · obtain ⟨reply, isRead, isVersion, listed⟩ := orderly.reads reads
    exact ⟨table, current, reply, rfl, within _ isRead, isVersion, listed, put⟩
  · exact absurd rfl (put.elsewhere elsewhere relative)

/-- A run keeps an orderly table orderly. -/
theorem Orderly.run (apart : ApartFrom id config)
    (orderly : Orderly (tablePrefix pipelinePrefix id) buckets)
    (completed : Program.Completes (Given permits)
      (executeJob (.ok config) pipelinePrefix cleanRun) buckets trace result final) :
    Orderly (tablePrefix pipelinePrefix id) final := by
  intro version body stored
  by_cases already : buckets.under (tablePrefix pipelinePrefix id) (manifestKey version) = some body
  · exact orderly version body already
  · obtain ⟨event, member, isPut⟩ := completes_put completed stored already
    obtain ⟨table, current, _, rfl, _, _, listed, put⟩ :=
      executeJob_puts_under apart orderly completed member isPut
    obtain ⟨rfl, createdAt, files, rfl, fromCurrent⟩ := put.of_manifest
    refine ⟨_, rfl, rfl, fun file isFile => ?_⟩
    rcases fromCurrent file isFile with kept | ⟨path, new⟩
    · obtain ⟨directory, path, below, isKey⟩ := listed file kept
      exact ⟨directory, path, Nat.le_succ_of_le below, isKey⟩
    · exact ⟨current.version + 1, path, Nat.le_refl _, new⟩

/-- Every state of a lineage is orderly. -/
theorem Lineage.orderly {rule : Text → List Nat → List (Event Effect Reply) → Prop}
    (lineage : Lineage rule pipelinePrefix id buckets pointed) :
    Orderly (tablePrefix pipelinePrefix id) buckets := by
  induction lineage with
  | start unwritten => exact fun version body stored => nomatch (unwritten _).symm.trans stored
  | run lake lineage apart completed admitted inductionHypothesis =>
    refine Orderly.run apart ?_ completed
    exact inductionHypothesis
  | rollback lineage current older present inductionHypothesis =>
    intro version body stored
    rw [under_insert, Function.update_of_ne (manifestKey_ne_currentKey version)] at stored
    exact inductionHypothesis version body stored

/-- The run's puts all come before its pointer. -/
theorem executeJob_sealed (apart : ApartFrom id config)
    (completed : Program.Completes (Given permits)
      (executeJob (.ok config) pipelinePrefix cleanRun) buckets trace result final)
    {before after : List (Event Effect Reply)} {pointer : CurrentPointer} {reply : Except Text Unit}
    (occurs : trace = before ++ ⟨.putObject .warehouse (tablePrefix pipelinePrefix id ++ currentKey)
      (.pointer pointer), reply⟩ :: after) :
    ∀ event ∈ after, PutsElsewhere (tablePrefix pipelinePrefix id) event.1 := by
  cases result with
  | error error =>
    let put : Event Effect Reply := ⟨.putObject .warehouse
      (tablePrefix pipelinePrefix id ++ currentKey) (.pointer pointer), reply⟩
    have member : put ∈ trace := occurs ▸ List.mem_append_right _ List.mem_cons_self
    obtain ⟨_, bytes, isData⟩ := (executeJob_unpublished completed put member).data _ rfl
    simp only [put, Effect.putObject.injEq, reduceCtorEq, and_false] at isData
  | ok outcome =>
    obtain ⟨parts⟩ := executeJob_parts completed
    obtain ⟨between, _, closes⟩ := parts.located (by rintro _ ⟨⟩) occurs
    have origins : ∀ tableId entry, parts.reached.publishes.lookup tableId = some entry →
        ∃ table ∈ config.analyticTables, table.id = tableId ∧
          entry.tablePrefix = tablePrefix pipelinePrefix tableId := by
      intro tableId entry found
      obtain ⟨state, isState, descends⟩ := parts.run.origin found
      obtain ⟨table, isTable, rfl, _, _, _, _, rfl⟩ :=
        (openTables_entries parts.opens isState).resolve_left (by rintro ⟨⟩)
      exact ⟨table, isTable, rfl, descends.located⟩
    have located : Located pipelinePrefix parts.reached.publishes := fun tableId entry found =>
      let ⟨_, _, _, isPrefix⟩ := origins tableId entry found
      isPrefix
    refine publishTables_sealed located (fun tableId member => ?_)
      (parts.permuted.nodup_iff.mpr parts.reached.publishes.keys_nodup) parts.publishes closes
    obtain ⟨entry, found⟩ := Option.isSome_iff_exists.mp
      (AList.lookup_isSome.mpr (AList.mem_keys.mpr (parts.permuted.mem_iff.mp member)))
    obtain ⟨table, isTable, rfl, _⟩ := origins tableId entry found
    exact apart table isTable

/-- In every lineage whose runs have read the newest version before they put anything,
every such run leaves published versions alone. -/
theorem published_immutable (lineage : Lineage ReadNewest pipelinePrefix id buckets pointed)
    (lake : Store) (apart : ApartFrom id config)
    (completed : Program.Completes (Given permits)
      (executeJob (.ok config) pipelinePrefix cleanRun) { buckets with lake := lake } trace result final)
    (newest : ReadNewest (tablePrefix pipelinePrefix id) pointed trace) :
    LeavesAlone (tablePrefix pipelinePrefix id) pointed buckets trace := by
  have orderly := lineage.orderly
  have filled : Orderly (tablePrefix pipelinePrefix id) { buckets with lake := lake } := orderly
  refine ⟨?_, ?_, ?_⟩
  · intro version isPointed body reply member
    obtain ⟨table, current, read, rfl, isRead, isVersion, _, put⟩ :=
      executeJob_puts_under apart filled completed member rfl
    have below := newest ⟨_, member, _, _, rfl⟩ read isRead version isPointed
    have next := put.of_manifest.1
    omega
  · intro version isPointed manifest present file isFile body reply member
    obtain ⟨stored, same, _, listed⟩ := orderly version _ present
    obtain ⟨⟩ := same
    obtain ⟨directory, path, bounded, isKey⟩ := listed file isFile
    rw [isKey] at member
    obtain ⟨table, current, read, rfl, isRead, isVersion, _, put⟩ :=
      executeJob_puts_under apart filled completed member rfl
    have below := newest ⟨_, member, _, _, rfl⟩ read isRead version isPointed
    have next := put.of_file
    omega
  · intro before pointer reply after occurs
    exact executeJob_sealed apart completed occurs

end Runs

/-! ## A version used twice -/

section Twice

/-- A run of the small configuration. -/
abbrev smallRun : Job (Except JobError JobOutcome) :=
  executeJob (.ok smallConfig) "p/".toList false

/-- Where the small configuration's table lies. -/
abbrev smallTable : Text := tablePrefix "p/".toList "t".toList

/-- The answers of the first run, which finds no pointer. -/
def firstAnswers : List Answer :=
  toUpload [.refused []] ⟨"t/m.parquet".toList, [1]⟩ ++ toPublish 2 ++ [.served, .served]

/-- The answers of a run that finds one; its vacuum reads the given number of manifests. -/
def nextAnswers (manifests : Nat) : List Answer :=
  toUpload [.served, .served] ⟨"t/m.parquet".toList, [2]⟩ ++ toPublish 2 ++
    [.served] ++ List.replicate manifests .served

/-- The event puts an object under the key. -/
def putsAt (key : Text) (event : Event Effect Reply) : Bool :=
  match event.1 with
  | .putObject .warehouse written _ => written = key
  | _ => false

/-- The check finds a put. -/
theorem put_of_putsAt {key : Text} {trace : List (Event Effect Reply)}
    (found : trace.any (putsAt key) = true) :
    ∃ body reply, (⟨.putObject .warehouse key body, reply⟩ : Event Effect Reply) ∈ trace := by
  obtain ⟨⟨effect, reply⟩, member, puts⟩ := List.any_eq_true.mp found
  unfold putsAt at puts
  split at puts
  · next written body isPut =>
    obtain rfl : effect = .putObject .warehouse written body := isPut
    obtain rfl : written = key := of_decide_eq_true puts
    exact ⟨body, reply, member⟩
  · exact nomatch puts

/-- A get of the small table's pointer came back with at least the given version. -/
def readsAtLeast (version : Nat) : Event Effect Reply → Bool
  | ⟨.getBytes .warehouse key, reply⟩ => key ≠ smallTable ++ currentKey || version ≤ versionOf reply
  | _ => true

/-- The table is pointed back to a version. -/
def pointedBack (version : Nat) (buckets : Buckets) : Buckets :=
  buckets.set .warehouse (buckets.warehouse.insert (smallTable ++ currentKey) (.pointer ⟨version⟩))

/-- Two runs one after the other, and a third one after the table was pointed back to the
first version. -/
theorem threeRuns_end : ∃ trace₁ result₁ first trace₂ result₂ second trace₃ result₃ third,
    (Program.Completes (Given (fun _ _ _ => True)) smallRun smallBuckets trace₁ result₁ first ∧
      first.under smallTable currentKey = some (.pointer ⟨1⟩)) ∧
    (Program.Completes (Given (fun _ _ _ => True)) smallRun first trace₂ result₂ second ∧
      trace₂.any (putsAt (smallTable ++ manifestKey 2)) = true ∧
      trace₂.all (readsAtLeast 1) = true ∧
      second.under smallTable currentKey = some (.pointer ⟨2⟩) ∧
      second.under smallTable (manifestKey 1) = some (.manifest ⟨1, [], none,
        [⟨"v1/m.parquet".toList, "m".toList, 1⟩]⟩)) ∧
    Program.Completes (Given (fun _ _ _ => True)) smallRun (pointedBack 1 second) trace₃
      result₃ third ∧
      trace₃.any (putsAt (smallTable ++ manifestKey 2)) = true := by
  have checked : (execute smallRun smallBuckets firstAnswers).any (fun first =>
      first.2.2.under smallTable currentKey = some (.pointer ⟨1⟩) ∧
      (execute smallRun first.2.2 (nextAnswers 2)).any (fun second =>
        second.1.any (putsAt (smallTable ++ manifestKey 2)) = true ∧
        second.1.all (readsAtLeast 1) = true ∧
        second.2.2.under smallTable currentKey = some (.pointer ⟨2⟩) ∧
        second.2.2.under smallTable (manifestKey 1) = some (.manifest ⟨1, [], none,
          [⟨"v1/m.parquet".toList, "m".toList, 1⟩]⟩) ∧
        (execute smallRun (pointedBack 1 second.2.2) (nextAnswers 2)).any (fun third =>
          third.1.any (putsAt (smallTable ++ manifestKey 2)) = true) = true) = true) = true := by
    decide +kernel
  obtain ⟨⟨trace₁, result₁, first⟩, runsFirst, checked⟩ := (Option.any_eq_true _ _).mp checked
  obtain ⟨pointsFirst, checked⟩ := of_decide_eq_true checked
  obtain ⟨⟨trace₂, result₂, second⟩, runsSecond, checked⟩ := (Option.any_eq_true _ _).mp checked
  obtain ⟨puts, reads, pointsSecond, stored, checked⟩ := of_decide_eq_true checked
  obtain ⟨⟨trace₃, result₃, third⟩, runsThird, checked⟩ := (Option.any_eq_true _ _).mp checked
  exact ⟨trace₁, result₁, first, trace₂, result₂, second, trace₃, result₃, third,
    ⟨execute_completes runsFirst, pointsFirst⟩,
    ⟨execute_completes runsSecond, puts, reads, pointsSecond, stored⟩,
    execute_completes runsThird, of_decide_eq_true checked⟩

/-- The tables of the small configuration differ in their first segments. -/
theorem small_apart : ApartFrom "t".toList smallConfig := by decide

/-- The first run of the small table makes a lineage under any rule that admits runs of
tables without versions. -/
theorem first_lineage {rule : Text → List Nat → List (Event Effect Reply) → Prop}
    {trace : List (Event Effect Reply)} {result : Except JobError JobOutcome} {first : Buckets}
    (completed : Program.Completes (Given (fun _ _ _ => True)) smallRun smallBuckets trace
      result first)
    (points : first.under smallTable currentKey = some (.pointer ⟨1⟩))
    (admitted : rule smallTable [] trace) : Lineage rule "p/".toList "t".toList first [1] := by
  have start : Lineage rule "p/".toList "t".toList smallBuckets [] := .start (fun _ => rfl)
  have lineage : Lineage rule "p/".toList "t".toList first ([] ++ namedBy smallTable first) :=
    .run smallBuckets.lake start small_apart completed admitted
  rw [namedBy, points] at lineage
  exact lineage

/-- The second run of the small table leaves its first version alone. -/
theorem published_immutable_second : ∃ buckets trace,
    trace.any (putsAt (smallTable ++ manifestKey 2)) = true ∧
      LeavesAlone smallTable [1] buckets trace := by
  obtain ⟨_, _, first, trace, result, second, _, _, _, ⟨runsFirst, points⟩,
    ⟨runsSecond, puts, reads, _⟩, _⟩ := threeRuns_end
  have lineage : Lineage ReadNewest "p/".toList "t".toList first [1] :=
    first_lineage runsFirst points (fun _ _ _ _ impossible => absurd impossible List.not_mem_nil)
  refine ⟨first, trace, puts, published_immutable lineage first.lake small_apart runsSecond ?_⟩
  intro _ reply member version isPointed
  obtain rfl := List.mem_singleton.mp isPointed
  have known : (decide (smallTable ++ currentKey ≠ smallTable ++ currentKey) ||
      decide (1 ≤ versionOf reply)) = true := List.all_eq_true.mp reads _ member
  simpa using known

/-- After a rollback, a run puts another manifest over one that was published. -/
theorem rollback_overwrites :
    ¬ ∀ pipelinePrefix id buckets pointed,
      Lineage (fun _ _ _ => True) pipelinePrefix id buckets pointed →
      ∀ (lake : Store) config cleanRun permits trace result final, ApartFrom id config →
        Program.Completes (Given permits) (executeJob (.ok config) pipelinePrefix cleanRun)
          { buckets with lake := lake } trace result final →
        LeavesAlone (tablePrefix pipelinePrefix id) pointed buckets trace := by
  intro claim
  obtain ⟨_, _, first, _, _, second, trace, result, third, ⟨runsFirst, pointsFirst⟩,
    ⟨runsSecond, _, _, pointsSecond, stored⟩, runsThird, puts⟩ := threeRuns_end
  have lineage : Lineage (fun _ _ _ => True) "p/".toList "t".toList second
      ([1] ++ namedBy smallTable second) :=
    .run first.lake (first_lineage runsFirst pointsFirst trivial) small_apart runsSecond trivial
  rw [namedBy, pointsSecond] at lineage
  have back : Lineage (fun _ _ _ => True) "p/".toList "t".toList (pointedBack 1 second)
      ([1] ++ [2] ++ [1]) := .rollback lineage pointsSecond (by decide) stored
  obtain ⟨body, reply, member⟩ := put_of_putsAt puts
  exact (claim _ _ _ _ back (pointedBack 1 second).lake _ _ _ _ _ _ small_apart
    runsThird).manifests 2
    (by decide) body reply member

end Twice

end KaretWorker
