import KaretWorker.Job

/-!
# One table's share of a run

Seen from a single table, a run of the executor is a short protocol: read the
pointer, read the manifest it names, put objects under the next version's
directory, put that version's manifest, put the pointer, list the table, read the
retained manifests, delete the targets. `Phase` and `Move` state that protocol as
an automaton over relative keys; everything a run does elsewhere leaves the phase
alone.

`Keeps` says that a program keeps to the protocol for every reply it may get, and
`Foreign` which of its effects are no business of the table. What the protocol guarantees
about stored objects is proved about the automaton.
-/
namespace KaretWorker

open Texts Interaction

/-- How far a run has got with one table.

`writing version base written` holds the version under construction, the files of
the manifest it started from, and the keys put so far. `vacuuming` holds the
current version, the listing, the manifests read and the versions still to be
read. A run that gave up on the table is `finished`. -/
inductive Phase where
  | waiting
  | reading (version : Nat)
  | writing (version : Nat) (base : List ManifestFile) (written : List Text)
  | flipping (version : Nat)
  | listing (current : Nat)
  | vacuuming (current : Nat) (relative : List Text) (retained : List TableManifest)
      (pending : List Nat)
  | finished

/-- The table may be opened: not read yet, or read again before it is published. -/
def Phase.Openable : Phase → Prop
  | .waiting => True
  | .writing _ _ _ => True
  | _ => False

/-- An effect that does not concern the table: it is not on the warehouse, or its
key lies outside the table prefix. -/
def Foreign (table : Text) : Effect → Prop
  | .getBytes .warehouse key => ¬ table <+: key
  | .putObject .warehouse key _ => ¬ table <+: key
  | .deleteObject .warehouse key => ¬ table <+: key
  | .listKeys .warehouse lead => lead ≠ table
  | .putObject .lake _ _ => False
  | .deleteObject .lake _ => False
  | _ => True

/-- The moves of the protocol under a table prefix. A manifest lists only files
of the manifest the run started from and objects it has put. -/
inductive Move (table : Text) : Phase → (effect : Effect) → Reply effect → Phase → Prop where
  | foreign (phase : Phase) (effect : Effect) (reply : Reply effect)
      (elsewhere : Foreign table effect) : Move table phase effect reply phase
  | pointerRead (phase : Phase) (ready : phase.Openable) (pointer : CurrentPointer) :
      Move table phase (.getBytes .warehouse (table ++ currentKey)) (.ok (.pointer pointer))
        (.reading pointer.version)
  | pointerMissing (phase : Phase) (ready : phase.Openable) (error : Text) :
      Move table phase (.getBytes .warehouse (table ++ currentKey)) (.error error)
        (.writing 1 [] [])
  | pointerMalformed (phase : Phase) (ready : phase.Openable) (reply : Except Text Object) :
      Move table phase (.getBytes .warehouse (table ++ currentKey)) reply .finished
  | manifestRead (version : Nat) (manifest : TableManifest)
      (bounded : manifest.version + 1 < u64Bound) :
      Move table (.reading version) (.getBytes .warehouse (table ++ manifestKey version))
        (.ok (.manifest manifest)) (.writing (manifest.version + 1) manifest.files [])
  | manifestUnread (version : Nat) (reply : Except Text Object) :
      Move table (.reading version) (.getBytes .warehouse (table ++ manifestKey version)) reply
        .finished
  | uploaded (version : Nat) (base : List ManifestFile) (written : List Text) (path : Text)
      (bytes : List UInt8) (key : Text) (placed : key = table ++ (versionPrefix version ++ path)) :
      Move table (.writing version base written)
        (.putObject .warehouse key (.data bytes)) (.ok ())
        (.writing version base ((versionPrefix version ++ path) :: written))
  | uploadFailed (version : Nat) (base : List ManifestFile) (written : List Text) (path : Text)
      (bytes : List UInt8) (key : Text) (placed : key = table ++ (versionPrefix version ++ path))
      (error : Text) :
      Move table (.writing version base written)
        (.putObject .warehouse key (.data bytes)) (.error error) (.writing version base written)
  | manifestWritten (version : Nat) (base : List ManifestFile) (written : List Text)
      (manifest : TableManifest) (numbered : manifest.version = version)
      (listed : ∀ file ∈ manifest.files, file ∈ base ∨ file.key ∈ written) :
      Move table (.writing version base written)
        (.putObject .warehouse (table ++ manifestKey version) (.manifest manifest)) (.ok ())
        (.flipping version)
  | manifestFailed (version : Nat) (base : List ManifestFile) (written : List Text)
      (manifest : TableManifest) (numbered : manifest.version = version)
      (listed : ∀ file ∈ manifest.files, file ∈ base ∨ file.key ∈ written) (error : Text) :
      Move table (.writing version base written)
        (.putObject .warehouse (table ++ manifestKey version) (.manifest manifest)) (.error error)
        .finished
  | pointerWritten (version : Nat) :
      Move table (.flipping version)
        (.putObject .warehouse (table ++ currentKey) (.pointer ⟨version⟩)) (.ok ())
        (.listing version)
  | pointerFailed (version : Nat) (error : Text) :
      Move table (.flipping version)
        (.putObject .warehouse (table ++ currentKey) (.pointer ⟨version⟩)) (.error error) .finished
  | listed (current : Nat) (keys relative : List Text)
      (stripped : relative = keys.filterMap (fun key => key.dropPrefix? table)) :
      Move table (.listing current) (.listKeys .warehouse table) (.ok keys)
        (.vacuuming current relative [] (keptVersions relative current))
  | listFailed (current : Nat) (error : Text) :
      Move table (.listing current) (.listKeys .warehouse table) (.error error) .finished
  | retainedRead (current : Nat) (relative : List Text) (retained : List TableManifest)
      (version : Nat) (pending : List Nat) (manifest : TableManifest) :
      Move table (.vacuuming current relative retained (version :: pending))
        (.getBytes .warehouse (table ++ manifestKey version)) (.ok (.manifest manifest))
        (.vacuuming current relative (retained ++ [manifest]) pending)
  | retainedUnread (current : Nat) (relative : List Text) (retained : List TableManifest)
      (version : Nat) (pending : List Nat) (reply : Except Text Object) :
      Move table (.vacuuming current relative retained (version :: pending))
        (.getBytes .warehouse (table ++ manifestKey version)) reply .finished
  | deleted (current : Nat) (relative : List Text) (retained : List TableManifest) (key : Text)
      (target : key ∈ vacuumTargets relative current retained) (reply : Except Text Unit) :
      Move table (.vacuuming current relative retained [])
        (.deleteObject .warehouse (table ++ key)) reply (.vacuuming current relative retained [])

/-- Keeping to the protocol of one table, for every genuine reply. -/
abbrev Keeps (table : Text) {α : Type} (post : α → Phase → Prop) (job : Job α) (phase : Phase) :
    Prop :=
  Program.Follows Genuine (Move table) post job phase

/-! ## Other tables -/

/-- The other table is a different one and does not lie inside the table: its id
does not extend the table's id across a slash. -/
def Apart (id other : Text) : Prop := other ≠ id ∧ ¬ id ++ ['/'] <+: other

instance (id other : Text) : Decidable (Apart id other) := inferInstanceAs (Decidable (_ ∧ _))

/-- Slash-free ids lie apart as soon as they differ. -/
theorem apart_of_plain {id other : Text} (plain : '/' ∉ other) (different : other ≠ id) :
    Apart id other :=
  ⟨different, fun inside => plain (inside.subset (by simp))⟩

/-- A key whose first segment lies apart is not under the table prefix. -/
theorem key_separate {pipelinePrefix id other : Text} (plain : '/' ∉ id) (apart : Apart id other)
    (key : Text) : ¬ tablePrefix pipelinePrefix id <+: pipelinePrefix ++ other ++ '/' :: key := by
  rintro ⟨rest, split⟩
  have joined : id ++ '/' :: rest = other ++ '/' :: key := by
    simpa [tablePrefix] using split
  rcases join_nested plain joined with same | inside
  · exact apart.1 same
  · exact apart.2 inside

/-- A table without a slash in its id has no key of a table apart from it. -/
theorem tablePrefix_separate {pipelinePrefix id other : Text} (plain : '/' ∉ id)
    (apart : Apart id other) (key : Text) :
    ¬ tablePrefix pipelinePrefix id <+: tablePrefix pipelinePrefix other ++ key := by
  have separate : ¬ tablePrefix pipelinePrefix id <+: pipelinePrefix ++ other ++ '/' :: key :=
    key_separate plain apart key
  rwa [tablePrefix, tablePrefix, List.append_assoc _ ['/'], List.singleton_append]

/-- Different tables have different prefixes. -/
theorem tablePrefix_injective {pipelinePrefix id other : Text}
    (same : tablePrefix pipelinePrefix id = tablePrefix pipelinePrefix other) : id = other := by
  simpa [tablePrefix] using same

section Elsewhere

variable {pipelinePrefix id other : Text} (plain : '/' ∉ id) (apart : Apart id other)

include plain apart

/-- Reading another table's manifest does not touch this one. -/
theorem readVersion_foreign (version : Nat) :
    (readVersion (tablePrefix pipelinePrefix other) version).Calls
      (Foreign (tablePrefix pipelinePrefix id)) := by
  refine ⟨tablePrefix_separate plain apart _, ?_⟩
  rintro (error | (pointer | manifest | bytes)) <;> trivial

/-- Opening another table does not touch this one. -/
theorem readCurrent_foreign :
    (readCurrent (tablePrefix pipelinePrefix other)).Calls
      (Foreign (tablePrefix pipelinePrefix id)) := by
  refine ⟨tablePrefix_separate plain apart _, ?_⟩
  rintro (error | (pointer | manifest | bytes))
  · trivial
  · exact readVersion_foreign plain apart pointer.version
  · trivial
  · trivial

/-- Reading another table's retained manifests does not touch this one. -/
theorem readRetained_foreign (versions : List Nat) (retained : List TableManifest) :
    (readRetained (tablePrefix pipelinePrefix other) versions retained).Calls
      (Foreign (tablePrefix pipelinePrefix id)) := by
  induction versions generalizing retained with
  | nil => trivial
  | cons version rest inductionHypothesis =>
    apply Program.calls_bind (readVersion_foreign plain apart version)
    rintro (error | manifest)
    · trivial
    · exact inductionHypothesis _

/-- The deletions of another table's vacuum do not touch this one. -/
theorem deleteTargets_foreign (targets : List Text) (deleted : Nat) :
    (deleteTargets (tablePrefix pipelinePrefix other) targets deleted).Calls
      (Foreign (tablePrefix pipelinePrefix id)) := by
  induction targets generalizing deleted with
  | nil => trivial
  | cons key rest inductionHypothesis =>
    refine ⟨tablePrefix_separate plain apart key, ?_⟩
    rintro (error | ⟨⟩)
    · exact inductionHypothesis _
    · exact inductionHypothesis _

/-- Another table's vacuum does not touch this one. -/
theorem vacuum_foreign (current : Nat) :
    (vacuum (tablePrefix pipelinePrefix other) current).Calls
      (Foreign (tablePrefix pipelinePrefix id)) := by
  refine ⟨fun same => apart.1 (tablePrefix_injective same), ?_⟩
  rintro (error | keys)
  · trivial
  · apply Program.calls_bind (readRetained_foreign plain apart _ _)
    rintro (error | retained)
    · trivial
    · exact Program.calls_bind (deleteTargets_foreign plain apart _ _)
        (fun _ => trivial)

/-- Another table's manifest and pointer are not put under this one. -/
theorem publish_foreign (manifest : TableManifest) :
    (publish (tablePrefix pipelinePrefix other) manifest).Calls
      (Foreign (tablePrefix pipelinePrefix id)) := by
  refine ⟨tablePrefix_separate plain apart _, ?_⟩
  rintro (error | ⟨⟩)
  · trivial
  · exact ⟨tablePrefix_separate plain apart _, fun _ => trivial⟩

/-- Publishing another table does not touch this one. -/
theorem publishTable_foreign (tableId : Text) (entry : TablePublish) (errors : List Text)
    (located : entry.tablePrefix = tablePrefix pipelinePrefix other) :
    (publishTable tableId entry errors).Calls (Foreign (tablePrefix pipelinePrefix id)) := by
  unfold publishTable
  split
  · refine ⟨trivial, fun createdAt => ?_⟩
    change Program.Calls _ (publish entry.tablePrefix _ >>= _)
    rw [located]
    refine Program.calls_bind (publish_foreign plain apart _) ?_
    rintro (error | ⟨⟩)
    · trivial
    · exact Program.calls_bind (vacuum_foreign plain apart _) (fun _ => trivial)
  · trivial

end Elsewhere

end KaretWorker
