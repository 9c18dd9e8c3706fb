import KaretWorker.Effects

/-!
# Reading, publishing and vacuuming one table

The object-store part of `src/manifest.rs`. A table is read through its pointer
and then the manifest the pointer names. It is published by writing the manifest
and then overwriting the pointer. A vacuum lists everything under the table
prefix, reads the retained manifests, and deletes what none of them lists along
with the manifests that fell out of the window.
-/
namespace KaretWorker

open Texts Interaction

/-- Read one version's manifest. -/
def readVersion (tablePrefix : Text) (version : Nat) : Job (Except Text TableManifest) := do
  let key := tablePrefix ++ manifestKey version
  match ← perform (.getBytes .warehouse key) with
  | .error error => pure (.error error)
  | .ok (.manifest manifest) => pure (.ok manifest)
  | .ok _ => pure (.error (key ++ " is not a manifest".toList))

/-- Read the current manifest for a table. Any failure to get the pointer is
taken for an unpublished table, an empty version 0. -/
def readCurrent (tablePrefix : Text) : Job (Except Text TableManifest) := do
  match ← perform (.getBytes .warehouse (tablePrefix ++ currentKey)) with
  | .ok (.pointer pointer) => readVersion tablePrefix pointer.version
  | .ok _ => pure (.error (tablePrefix ++ currentKey ++ " is not a version pointer".toList))
  | .error _ => pure (.ok TableManifest.empty)

/-- Publish a manifest as the table's next version: write it, then flip the
pointer. -/
def publish (tablePrefix : Text) (manifest : TableManifest) : Job (Except Text Unit) := do
  let key := tablePrefix ++ manifestKey manifest.version
  match ← perform (.putObject .warehouse key (.manifest manifest)) with
  | .error error => pure (.error error)
  | .ok () => perform (.putObject .warehouse (tablePrefix ++ currentKey) (.pointer ⟨manifest.version⟩))

/-- Read the manifests of the listed versions in order; the first unreadable one
aborts. -/
def readRetained (tablePrefix : Text) :
    List Nat → List TableManifest → Job (Except Text (List TableManifest))
  | [], retained => pure (.ok retained)
  | version :: rest, retained => do
    match ← readVersion tablePrefix version with
    | .ok manifest => readRetained tablePrefix rest (retained ++ [manifest])
    | .error error =>
      pure (.error ("vacuum aborted, manifest ".toList ++ decimal version ++
        " unreadable: ".toList ++ error))

/-- Delete each target; a failed delete is skipped. The value counts the
deletes that succeeded. -/
def deleteTargets (tablePrefix : Text) : List Text → Nat → Job Nat
  | [], deleted => pure deleted
  | key :: rest, deleted => do
    match ← perform (.deleteObject .warehouse (tablePrefix ++ key)) with
    | .ok () => deleteTargets tablePrefix rest (deleted + 1)
    | .error _ => deleteTargets tablePrefix rest deleted

/-- The manifest versions named by the keys of a listing. -/
def listedVersions (relative : List Text) : List Nat := relative.filterMap manifestVersion

/-- The listed versions beyond the retention window. -/
def doomedVersions (relative : List Text) (current : Nat) : List Nat :=
  versionsToDrop (listedVersions relative) current retainedVersions

/-- The listed versions a vacuum keeps and reads. -/
def keptVersions (relative : List Text) (current : Nat) : List Nat :=
  (listedVersions relative).filter
    (fun version => !(doomedVersions relative current).contains version && decide (version ≤ current))

/-- The relative keys a vacuum deletes, given the manifests it read. -/
def vacuumTargets (relative : List Text) (current : Nat) (retained : List TableManifest) :
    List Text :=
  unreferencedKeys retained relative ++ (doomedVersions relative current).map manifestKey

/-- Delete manifests outside the retention window and any object no retained
manifest references. -/
def vacuum (tablePrefix : Text) (current : Nat) : Job (Except Text Nat) := do
  match ← perform (.listKeys .warehouse tablePrefix) with
  | .error error => pure (.error error)
  | .ok all =>
    let relative := all.filterMap (fun key => key.dropPrefix? tablePrefix)
    match ← readRetained tablePrefix (keptVersions relative current) [] with
    | .error error => pure (.error error)
    | .ok retained => do
      let deleted ← deleteTargets tablePrefix (vacuumTargets relative current retained) 0
      pure (.ok deleted)

end KaretWorker
