import KaretWorker.Library.Text
import KaretWorker.Library.Window
import Mathlib.Data.List.Sort

/-!
# Table manifests

The pure part of `src/manifest.rs`: the pointer and manifest records, the names
of the objects under a table prefix, and the three list functions a run uses to
build the next file list and to choose what to delete.

Versions are `u64` in the source. They are natural numbers here, with the bound
where the source has it: parsing an object name fails from 2^64 on.
-/
namespace KaretWorker

open Texts

/-- Exclusive bound of the source's `u64`. -/
def u64Bound : Nat := 2 ^ 64

/-- Pointer object naming the version readers should scan. -/
def currentKey : Text := "_current.json".toList

/-- Directory of manifests, keyed by version. -/
def manifestPrefix : Text := "_manifests/".toList

/-- How many versions stay readable behind the current one. -/
def retainedVersions : Nat := 10

/-- The `_current.json` pointer. -/
structure CurrentPointer where
  version : Nat
  deriving DecidableEq, Repr

/-- One Parquet object in a table version; the key is relative to the table. -/
structure ManifestFile where
  key : Text
  mappingId : Text
  bytes : Nat
  deriving DecidableEq, Repr

/-- The set of files that make up one version of a table. -/
structure TableManifest where
  version : Nat
  createdAt : Text
  jobId : Option Text
  files : List ManifestFile
  deriving DecidableEq, Repr

/-- An empty version 0: what a table that has never been written looks like. -/
def TableManifest.empty : TableManifest := ⟨0, [], none, []⟩

/-- Prefix a run's outputs live under. -/
def versionPrefix (version : Nat) : Text := 'v' :: decimal version ++ ['/']

/-- Key of a version's manifest, relative to the table prefix. -/
def manifestKey (version : Nat) : Text := manifestPrefix ++ decimal version ++ ".json".toList

/-- Replace one mapping's contribution to a file list, keeping every other
mapping's files untouched; the result is sorted by key. -/
def applyMappingWrites (previous : List ManifestFile) (mappingId : Text)
    (files : List ManifestFile) : List ManifestFile :=
  (previous.filter (fun file => file.mappingId ≠ mappingId) ++ files).insertionSort
    (fun left right => left.key ≤ right.key)

/-- Versions to delete, oldest first: everything below the retention window. -/
def versionsToDrop (versions : List Nat) (current retain : Nat) : List Nat :=
  let candidates := (versions.insertionSort (· ≤ ·)).filter (· ≤ current)
  candidates.take (candidates.length - retain)

/-- Objects safe to delete: everything present that no retained manifest lists,
excluding the manifests and the pointer themselves. -/
def unreferencedKeys (retained : List TableManifest) (present : List Text) : List Text :=
  let referenced := retained.flatMap (fun manifest => manifest.files.map ManifestFile.key)
  present.filter (fun key =>
    !manifestPrefix.isPrefixOf key && key != currentKey && !referenced.contains key)

/-- The version a relative key names as a manifest, if it names one. -/
def manifestVersion (key : Text) : Option Nat := do
  let name ← key.dropPrefix? manifestPrefix
  let digits ← name.dropSuffix? ".json".toList
  parseUnsigned u64Bound digits

/-! ## Names of objects -/

/-- A manifest key names its version, within the range of the source's type. -/
theorem manifestVersion_manifestKey {version : Nat} (bounded : version < u64Bound) :
    manifestVersion (manifestKey version) = some version := by
  have name : (manifestKey version).dropPrefix? manifestPrefix =
      some (decimal version ++ ".json".toList) :=
    dropPrefix_iff.mpr (List.append_assoc _ _ _)
  have digits : (decimal version ++ ".json".toList).dropSuffix? ".json".toList =
      some (decimal version) := dropSuffix_iff.mpr rfl
  simp only [manifestVersion, name, digits, Option.bind_eq_bind, Option.bind_some,
    parse_decimal bounded]

/-- A manifest key names no other version. -/
theorem manifestVersion_sound {version named : Nat}
    (names : manifestVersion (manifestKey version) = some named) : named = version := by
  have name : (manifestKey version).dropPrefix? manifestPrefix =
      some (decimal version ++ ".json".toList) :=
    dropPrefix_iff.mpr (List.append_assoc _ _ _)
  have digits : (decimal version ++ ".json".toList).dropSuffix? ".json".toList =
      some (decimal version) := dropSuffix_iff.mpr rfl
  simp only [manifestVersion, name, digits, Option.bind_eq_bind, Option.bind_some] at names
  exact parse_decimal_sound names

/-- Only keys in the manifest directory name a version. -/
theorem manifestVersion_directory {key : Text} {version : Nat}
    (names : manifestVersion key = some version) : manifestPrefix.isPrefixOf key = true := by
  cases found : key.dropPrefix? manifestPrefix with
  | none => simp [manifestVersion, found] at names
  | some name =>
    rw [dropPrefix_iff.mp found, List.isPrefixOf_iff_prefix]
    exact List.prefix_append _ _

/-- Manifests lie in their directory. -/
theorem manifestKey_directory (version : Nat) :
    manifestPrefix.isPrefixOf (manifestKey version) = true := by
  rw [manifestKey, List.append_assoc, List.isPrefixOf_iff_prefix]
  exact List.prefix_append _ _

/-- The key of a manifest names its version. -/
theorem manifestKey_injective {left right : Nat} (same : manifestKey left = manifestKey right) :
    left = right := by
  simp only [manifestKey, List.append_assoc, List.append_cancel_left_eq,
    List.append_cancel_right_eq] at same
  exact decimal_injective same

/-- The pointer is not a manifest. -/
theorem manifestKey_ne_currentKey (version : Nat) : manifestKey version ≠ currentKey := by
  intro same
  have directory := manifestKey_directory version
  rw [same] at directory
  exact absurd directory (by decide)

/-- An output key begins with the letter of its version directory, so it is
neither the pointer nor in the manifest directory. -/
theorem versionPrefix_not_directory (version : Nat) (rest : Text) :
    manifestPrefix.isPrefixOf (versionPrefix version ++ rest) = false := by
  have lead : manifestPrefix = '_' :: "manifests/".toList := rfl
  simp only [lead, versionPrefix, List.cons_append, List.isPrefixOf_cons_cons,
    (by decide : ('_' == 'v') = false), Bool.false_and]

/-- Data files are not manifests. -/
theorem versionPrefix_ne_manifestKey (version named : Nat) (rest : Text) :
    versionPrefix version ++ rest ≠ manifestKey named := by
  intro same
  have directory := manifestKey_directory named
  rw [← same, versionPrefix_not_directory] at directory
  exact Bool.noConfusion directory

/-- Data files are not the pointer. -/
theorem versionPrefix_ne_currentKey (version : Nat) (rest : Text) :
    versionPrefix version ++ rest ≠ currentKey := by
  intro same
  have lead : currentKey = '_' :: "current.json".toList := rfl
  rw [lead] at same
  exact absurd (List.cons.inj same).1 (by decide)

/-- An output key determines the version directory it lies in. -/
theorem versionPrefix_injective {left right : Nat} {rest rest' : Text}
    (same : versionPrefix left ++ rest = versionPrefix right ++ rest') : left = right := by
  have joined : decimal left ++ '/' :: rest = decimal right ++ '/' :: rest' := by
    simpa [versionPrefix] using same
  have slash : ('/' : Char).isDigit = false := by decide
  exact decimal_injective
    (join_injective (not_mem_decimal slash left) (not_mem_decimal slash right) joined).1

/-! ## The next file list -/

/-- After a mapping's writes the list holds the other mappings' previous files
and the files written, and nothing else. -/
theorem mem_applyMappingWrites {previous files : List ManifestFile} {mappingId : Text}
    {file : ManifestFile} :
    file ∈ applyMappingWrites previous mappingId files ↔
      (file ∈ previous ∧ file.mappingId ≠ mappingId) ∨ file ∈ files := by
  simp [applyMappingWrites, List.mem_insertionSort]

/-! ## What a vacuum deletes -/

/-- A listed version is dropped exactly when it is at most the current one and
outside the retention window of the listed versions. -/
theorem mem_versionsToDrop {versions : List Nat} (distinct : versions.Nodup)
    (current retain version : Nat) :
    version ∈ versionsToDrop versions current retain ↔
      version ∈ versions ∧ version ≤ current ∧
        ¬ Retention.InWindow (fun other => decide (other ∈ versions)) retain current version := by
  let candidates := (versions.insertionSort (· ≤ ·)).filter (· ≤ current)
  have sortedDistinct : (versions.insertionSort (· ≤ ·)).Nodup :=
    (List.perm_insertionSort (· ≤ ·) versions).nodup_iff.mpr distinct
  have increasing : candidates.Pairwise (· < ·) := by
    have ordered : (versions.insertionSort (· ≤ ·)).Pairwise (· ≤ ·) :=
      List.pairwise_insertionSort (· ≤ ·) versions
    have strict := (ordered.and sortedDistinct).imp
      (fun both => Nat.lt_of_le_of_ne both.1 both.2)
    exact strict.sublist List.filter_sublist
  have member : ∀ other, other ∈ candidates ↔ other ∈ versions ∧ other ≤ current := by
    intro other
    simp [candidates, List.mem_insertionSort]
  have counted : (candidates.filter (fun other => decide (version < other))).length =
      (Retention.newer (fun other => decide (other ∈ versions)) current version).card := by
    have nodup : (candidates.filter (fun other => decide (version < other))).Nodup :=
      (sortedDistinct.filter _).filter _
    rw [← List.toFinset_card_of_nodup nodup]
    congr 1
    ext other
    simp only [List.mem_toFinset, List.mem_filter, member, decide_eq_true_eq,
      Retention.mem_newer]
    constructor
    · rintro ⟨⟨listed, bounded⟩, above⟩
      exact ⟨above, bounded, listed⟩
    · rintro ⟨above, bounded, listed⟩
      exact ⟨⟨listed, bounded⟩, above⟩
  change version ∈ candidates.take (candidates.length - retain) ↔ _
  rw [Retention.mem_take_iff increasing, counted, member]
  constructor
  · rintro ⟨⟨listed, bounded⟩, many⟩
    exact ⟨listed, bounded, fun inside => absurd many (Nat.not_le_of_lt inside.2.2)⟩
  · rintro ⟨listed, bounded, outside⟩
    refine ⟨⟨listed, bounded⟩, ?_⟩
    by_contra few
    exact outside ⟨bounded, decide_eq_true listed, Nat.lt_of_not_le few⟩

/-- Unreferenced keys are the present ones that are neither the pointer nor in
the manifest directory nor listed by a retained manifest. -/
theorem mem_unreferencedKeys {retained : List TableManifest} {present : List Text} {key : Text} :
    key ∈ unreferencedKeys retained present ↔
      key ∈ present ∧ manifestPrefix.isPrefixOf key = false ∧ key ≠ currentKey ∧
        ∀ manifest ∈ retained, ∀ file ∈ manifest.files, file.key ≠ key := by
  simp only [unreferencedKeys, List.mem_filter, Bool.and_eq_true, Bool.not_eq_true', bne_iff_ne,
    ne_eq, List.contains_eq_mem, decide_eq_false_iff_not, List.mem_flatMap, List.mem_map,
    not_exists, not_and, and_assoc]

end KaretWorker
