import KaretWorker.NextVersion

/-!
# What a vacuum deletes

A vacuum lists its table, reads the manifests it keeps and deletes the rest. What should go
is defined on the store alone: the manifests up to the current one that are not among the
newest ten of these, and the objects that no retained manifest lists.

`vacuum_exact` says that a vacuum either deletes nothing, because something it has to read
cannot be read, or deletes exactly this garbage, and that once it has done so another one
finds nothing to delete. The garbage is a matter of the keys publishing gives to manifests,
so of a table whose objects bear no other names that parse as versions.
-/
namespace KaretWorker

open Texts Interaction

/-- An object is deleted, or was asked to be. -/
def Deletes (trace : List (Event Effect Reply)) (key : Text) : Prop :=
  ∃ bucket reply, (⟨.deleteObject bucket key, reply⟩ : Event Effect Reply) ∈ trace

/-- The manifest of a version was asked for and not read. -/
def Unread (table : Text) (trace : List (Event Effect Reply)) (version : Nat) : Prop :=
  ∃ reply, (⟨.getBytes .warehouse (table ++ manifestKey version), reply⟩ : Event Effect Reply) ∈ trace ∧
    ∀ manifest, reply ≠ .ok (.manifest manifest)

/-- The table was not listed. -/
def NotListed (table : Text) (trace : List (Event Effect Reply)) : Prop :=
  ∃ error, (⟨.listKeys .warehouse table, .error error⟩ : Event Effect Reply) ∈ trace

/-- Every deletion succeeded. -/
def DeletesSucceed (trace : List (Event Effect Reply)) : Prop :=
  ∀ bucket key reply, (⟨.deleteObject bucket key, reply⟩ : Event Effect Reply) ∈ trace → reply = .ok ()

/-- A key of the table that should go: a manifest up to the current one that is not
retained, or an object that is neither a manifest nor the pointer and is listed by no
retained manifest. -/
inductive Garbage (view : Text → Option Object) (current : Nat) : Text → Prop
  | manifest {version : Nat} (isStored : stored view version = true) (older : version ≤ current)
    (outside : ¬ Retained view current version) : Garbage view current (manifestKey version)
  | object {key : Text} (present : (view key).isSome = true)
    (elsewhere : manifestPrefix.isPrefixOf key = false) (notPointer : key ≠ currentKey)
    (unlisted : ∀ version, Retained view current version → ∀ manifest,
      view (manifestKey version) = some (.manifest manifest) →
        ∀ file ∈ manifest.files, file.key ≠ key) : Garbage view current key

/-! ## The parts of a vacuum -/

section Parts

variable {permits : Buckets → Effect → Answer → Prop} {table : Text} {buckets final : Buckets}
  {trace : List (Event Effect Reply)}

/-- Reads delete nothing. -/
theorem not_deletes_of_reads (reads : ∀ event ∈ trace, event.1.Reads) (key : Text) :
    ¬ Deletes trace key := by
  rintro ⟨bucket, reply, member⟩
  exact reads _ member

/-- A manifest is read, or it is not. -/
theorem readVersion_completes {version : Nat} {result : Except Text TableManifest}
    (completed : Program.Completes (Given permits) (readVersion table version) buckets trace result
      final) :
    final = buckets ∧ ((∃ error, result = .error error ∧ Unread table trace version) ∨
      ∃ manifest, result = .ok manifest ∧
        buckets.under table (manifestKey version) = some (.manifest manifest) ∧
        trace = [⟨.getBytes .warehouse (table ++ manifestKey version),
          .ok (.manifest manifest)⟩]) := by
  simp only [readVersion, perform, Program.perform_bind] at completed
  obtain ⟨reply, middle, later, ⟨_, given, _, answered⟩, continues, rfl⟩ :=
    Program.call_completes completed
  obtain ⟨rfl, ⟨body, rfl, stored⟩ | ⟨error, rfl, _⟩⟩ := answer_getBytes answered
  · cases body with
    | manifest manifest =>
      cases continues
      exact ⟨rfl, Or.inr ⟨manifest, rfl, stored, rfl⟩⟩
    | pointer | data =>
      cases continues
      exact ⟨rfl, Or.inl ⟨_, rfl, _, List.mem_cons_self, fun _ impossible => nomatch impossible⟩⟩
  · cases continues
    exact ⟨rfl, Or.inl ⟨_, rfl, _, List.mem_cons_self, fun _ impossible => nomatch impossible⟩⟩

/-- Reading manifests stops at one that is not read, or has read all of them. -/
theorem readRetained_completes {versions : List Nat} {before : List TableManifest}
    {result : Except Text (List TableManifest)}
    (completed : Program.Completes (Given permits)
      (readRetained table versions before) buckets trace
      result final) :
    (∃ error, result = .error error ∧ ∃ version ∈ versions, Unread table trace version) ∨
      ∃ read, result = .ok (before ++ read) ∧ (∀ version, ¬ Unread table trace version) ∧
        ∀ manifest, manifest ∈ read ↔ ∃ version ∈ versions,
          buckets.under table (manifestKey version) = some (.manifest manifest) := by
  induction versions generalizing before trace with
  | nil =>
    cases completed
    refine Or.inr ⟨[], by rw [List.append_nil], ?_, by simp⟩
    rintro version ⟨_, impossible, _⟩
    exact absurd impossible List.not_mem_nil
  | cons version rest inductionHypothesis =>
    unfold readRetained at completed
    obtain ⟨first, found, middle, later, reads, continues, rfl⟩ := Program.bind_completes completed
    obtain ⟨rfl, ⟨error, rfl, unread⟩ | ⟨manifest, rfl, stored, rfl⟩⟩ := readVersion_completes reads
    · cases continues
      obtain ⟨reply, member, notManifest⟩ := unread
      exact Or.inl ⟨_, rfl, version, List.mem_cons_self, reply,
        List.mem_append_left _ member, notManifest⟩
    · rcases inductionHypothesis
        continues with ⟨error, rfl, other, member, reply, occurs, notManifest⟩ |
        ⟨read, rfl, allRead, stores⟩
      · exact Or.inl ⟨error, rfl, other, List.mem_cons_of_mem _ member, reply,
          List.mem_append_right _ occurs, notManifest⟩
      · have isRead : ∀ other, other ∈ manifest :: read ↔ ∃ tested ∈ version :: rest,
            middle.under table (manifestKey tested) = some (.manifest other) := by
          intro other
          simp [stores, stored, eq_comm]
        refine Or.inr ⟨manifest :: read, by rw [List.append_assoc]; rfl, ?_, isRead⟩
        rintro other ⟨reply, member, notManifest⟩
        rcases List.mem_append.mp member with isFirst | isLater
        · generalize table ++ manifestKey other = asked at reply isFirst
          obtain ⟨⟩ := List.mem_singleton.mp isFirst
          exact notManifest manifest rfl
        · exact allRead other ⟨reply, isLater, notManifest⟩

/-- Nothing else is asked for while manifests are read. -/
theorem readRetained_gets (table : Text) (versions : List Nat) (before : List TableManifest) :
    (readRetained table versions before).Calls (fun effect =>
      ∃ key, effect = .getBytes .warehouse key) := by
  induction versions generalizing before with
  | nil => trivial
  | cons version rest inductionHypothesis =>
    refine ⟨⟨_, rfl⟩, ?_⟩
    rintro (error | (pointer | manifest | bytes))
    · trivial
    · trivial
    · exact inductionHypothesis _
    · trivial

/-- A deletion that succeeded took the object away. -/
theorem delete_given {key : Text} {reply : Except Text Unit}
    (given : Given permits buckets (.deleteObject .warehouse (table ++ key)) reply final)
    (succeeds : reply = .ok ()) :
    final.under table = Function.update (buckets.under table) key none := by
  obtain ⟨_, answered, _, isAnswer⟩ := given
  cases answered <;> simp only [answer, Option.some.injEq, Prod.mk.injEq, reduceCtorEq] at isAnswer
  case served =>
    rw [← isAnswer.2]
    exact under_erase table key
  all_goals cases isAnswer.1.trans succeeds

/-- Deleting targets asks for each of them, and if all deletions succeed these are gone. -/
theorem deleteTargets_completes {targets : List Text} {deleted count : Nat}
    (completed : Program.Completes (Given permits)
      (deleteTargets table targets deleted) buckets trace
      count final) :
    (∀ event ∈ trace, ∃ key, event.1 = .deleteObject .warehouse key) ∧
      (∀ key, Deletes trace key ↔ ∃ target ∈ targets, key = table ++ target) ∧
      (DeletesSucceed trace → ∀ key, final.under table key =
        if key ∈ targets then none else buckets.under table key) := by
  induction targets generalizing buckets trace deleted with
  | nil =>
    cases completed
    refine ⟨by simp, fun key => ?_, fun _ key => by simp⟩
    simp [Deletes]
  | cons target rest inductionHypothesis =>
    simp only [deleteTargets, perform, Program.perform_bind] at completed
    obtain ⟨reply, middle, later, given, continues, rfl⟩ := Program.call_completes completed
    have further : ∃ deleted, Program.Completes (Given permits) (deleteTargets table rest deleted)
        middle later count final := by
      rcases reply with error | ⟨⟩ <;> exact ⟨_, continues⟩
    obtain ⟨deleted, continues⟩ := further
    obtain ⟨only, asks, clears⟩ := inductionHypothesis continues
    refine ⟨List.forall_mem_cons.mpr ⟨⟨_, rfl⟩, only⟩, ?_, ?_⟩
    · intro key
      rw [List.exists_mem_cons_iff, ← asks key]
      constructor
      · rintro ⟨bucket, answered, member⟩
        rcases List.mem_cons.mp member with isFirst | isLater
        · obtain ⟨same, _⟩ := Sigma.mk.inj isFirst
          obtain ⟨⟩ := same
          exact Or.inl rfl
        · exact Or.inr ⟨bucket, answered, isLater⟩
      · rintro (rfl | ⟨bucket, answered, member⟩)
        · exact ⟨.warehouse, reply, List.mem_cons_self⟩
        · exact ⟨bucket, answered, List.mem_cons_of_mem _ member⟩
    · intro succeed key
      have isOk : reply = .ok () := succeed .warehouse _ reply List.mem_cons_self
      have restSucceed : DeletesSucceed later := fun bucket other answered member =>
        succeed bucket other answered (List.mem_cons_of_mem _ member)
      rw [clears restSucceed key, delete_given given isOk]
      by_cases isTarget : key = target
      · subst isTarget
        simp
      · simp [isTarget]

/-! ## A whole vacuum -/

/-- What the listing of the buckets shows of the table. -/
def relativeKeys (table : Text) (buckets : Buckets) : List Text :=
  (buckets.warehouse.listKeys table).filterMap (fun key => key.dropPrefix? table)

/-- A vacuum gives up before it deletes anything, or it has read what it keeps and deletes
its targets. -/
theorem vacuum_completes {current : Nat} {result : Except Text Nat}
    (completed : Program.Completes (Given permits)
      (vacuum table current) buckets trace result final) :
    ((NotListed table trace ∨ ∃ version ∈ keptVersions (relativeKeys table buckets) current,
        Unread table trace version) ∧ ∀ key, ¬ Deletes trace key) ∨
      ∃ retained, ¬ NotListed table trace ∧ (∀ version, ¬ Unread table trace version) ∧
        (∀ manifest, manifest ∈ retained ↔
          ∃ version ∈ keptVersions (relativeKeys table buckets) current,
            buckets.under table (manifestKey version) = some (.manifest manifest)) ∧
        (∀ key, Deletes trace key ↔ ∃ target ∈
          vacuumTargets (relativeKeys table buckets) current retained, key = table ++ target) ∧
        (DeletesSucceed trace → ∀ key, final.under table key =
          if key ∈ vacuumTargets (relativeKeys table buckets) current retained then none
          else buckets.under table key) := by
  simp only [vacuum, perform, Program.perform_bind] at completed
  obtain ⟨reply, middle, later, ⟨_, given, _, answered⟩, continues, rfl⟩ :=
    Program.call_completes completed
  obtain ⟨rfl, listed⟩ := answer_listKeys answered
  cases reply with
  | error error =>
    cases continues
    refine Or.inl ⟨Or.inl ⟨error, List.mem_cons_self⟩, not_deletes_of_reads ?_⟩
    simp [Effect.Reads]
  | ok all =>
  obtain rfl := listed all rfl
  obtain ⟨reading, found, after, further, reads, deletes, rfl⟩ := Program.bind_completes continues
  have gets := Program.calls_completes (readRetained_gets table _ _) reads
  have areReads := Program.calls_completes (readRetained_reads _ _ _) reads
  obtain rfl := Program.unchanged_completes (readRetained_reads _ _ _)
    (fun _ _ _ _ isRead => reads_given isRead) reads
  rcases readRetained_completes
    reads with ⟨error, rfl, version, member, reply, occurs, notManifest⟩ |
    ⟨read, rfl, allRead, stores⟩
  · cases deletes
    refine Or.inl ⟨Or.inr ⟨version, member, reply, ?_, notManifest⟩, not_deletes_of_reads ?_⟩
    · rw [List.append_nil]
      exact List.mem_cons_of_mem _ occurs
    · rw [List.append_nil, List.forall_mem_cons]
      exact ⟨trivial, areReads⟩
  right
  obtain ⟨deleting, count, last, rest, removes, finishes, rfl⟩ := Program.bind_completes deletes
  cases finishes
  rw [List.append_nil]
  obtain ⟨only, asks, clears⟩ := deleteTargets_completes removes
  refine ⟨read, ?_, ?_, stores, ?_, ?_⟩
  · rintro ⟨error, member⟩
    rcases List.mem_cons.mp member with isFirst | member
    · cases eq_of_heq (Sigma.mk.inj isFirst).2
    rcases List.mem_append.mp member with isReading | isDeleting
    · obtain ⟨_, impossible⟩ := gets _ isReading
      cases impossible
    · obtain ⟨_, impossible⟩ := only _ isDeleting
      cases impossible
  · rintro version ⟨reply, member, notManifest⟩
    rcases List.mem_cons.mp member with isFirst | member
    · cases (Sigma.mk.inj isFirst).1
    rcases List.mem_append.mp member with isReading | isDeleting
    · exact allRead version ⟨reply, isReading, notManifest⟩
    · obtain ⟨_, impossible⟩ := only _ isDeleting
      cases impossible
  · refine fun key => Iff.trans ⟨?_, ?_⟩ (asks key)
    · rintro ⟨bucket, reply, member⟩
      rcases List.mem_cons.mp member with isFirst | member
      · cases (Sigma.mk.inj isFirst).1
      rcases List.mem_append.mp member with isReading | isDeleting
      · exact absurd (areReads _ isReading) id
      · exact ⟨bucket, reply, isDeleting⟩
    · rintro ⟨bucket, reply, member⟩
      exact ⟨bucket, reply, List.mem_cons_of_mem _ (List.mem_append_right _ member)⟩
  · intro succeed
    exact clears (fun bucket key reply member =>
      succeed bucket key reply (List.mem_cons_of_mem _ (List.mem_append_right _ member)))

/-! ## Targets and garbage -/

variable {current : Nat}

/-- A table's keys, relative to it, are those under which it has objects, each once. -/
theorem relativeKeys_exact (table : Text) (buckets : Buckets) :
    (∀ key, key ∈ relativeKeys table buckets ↔ (buckets.under table key).isSome = true) ∧
      (relativeKeys table buckets).Nodup := by
  have answered : answer buckets (.listKeys .warehouse table) .served =
      some (.ok (buckets.warehouse.listKeys table), buckets) := rfl
  exact listing_exact answered

/-- In a tidy table the versions found up to a bounded one are those that are stored. -/
theorem listed_iff (tidy : Tidy table buckets) (bounded : current < u64Bound) {version : Nat}
    (older : version ≤ current) : version ∈ listedVersions (relativeKeys table buckets) ↔
      stored (buckets.under table) version = true := by
  simp only [listedVersions, List.mem_filterMap, (relativeKeys_exact table buckets).1]
  constructor
  · rintro ⟨key, present, names⟩
    rw [tidy key version present names] at present
    exact present
  · intro present
    exact ⟨manifestKey version, present, manifestVersion_manifestKey (by omega)⟩

/-- The versions that are dropped, and those that are kept and read. -/
theorem dropped_and_kept (tidy : Tidy table buckets) (bounded : current < u64Bound)
    (version : Nat) :
    (version ∈ doomedVersions (relativeKeys table buckets) current ↔
      stored (buckets.under table) version = true ∧ version ≤ current ∧
        ¬ Retained (buckets.under table) current version) ∧
    (version ∈ keptVersions (relativeKeys table buckets) current ↔
      Retained (buckets.under table) current version) := by
  have distinct := listedVersions_nodup (relativeKeys_exact table buckets).2
    (fun key listed version names =>
      tidy key version (((relativeKeys_exact table buckets).1 key).mp listed) names)
  have sameWindow : Retention.InWindow
      (fun other => decide (other ∈ listedVersions (relativeKeys table buckets))) retainedVersions
        current version ↔ Retained (buckets.under table) current version := by
    refine (Retention.inWindow_congr (fun other _ older => ?_)).symm
    rw [Bool.eq_iff_iff, decide_eq_true_eq]
    exact (listed_iff tidy bounded older).symm
  have dropped : version ∈ doomedVersions (relativeKeys table buckets) current ↔
      stored (buckets.under table) version = true ∧ version ≤ current ∧
        ¬ Retained (buckets.under table) current version := by
    rw [doomedVersions, mem_versionsToDrop distinct, sameWindow]
    constructor
    · rintro ⟨listed, older, outside⟩
      exact ⟨(listed_iff tidy bounded older).mp listed, older, outside⟩
    · rintro ⟨isStored, older, outside⟩
      exact ⟨(listed_iff tidy bounded older).mpr isStored, older, outside⟩
  refine ⟨dropped, ?_⟩
  simp only [keptVersions, List.mem_filter, Bool.and_eq_true, Bool.not_eq_true',
    List.contains_eq_mem, decide_eq_false_iff_not, decide_eq_true_eq, dropped]
  constructor
  · rintro ⟨listed, kept, older⟩
    by_contra outside
    exact kept ⟨(listed_iff tidy bounded older).mp listed, older, outside⟩
  · intro retained
    exact ⟨(listed_iff tidy bounded retained.1).mpr retained.2.1,
      fun dropped => dropped.2.2 retained,
      retained.1⟩

/-- The targets of a vacuum that has read what it keeps are the garbage. -/
theorem target_iff (tidy : Tidy table buckets) (bounded : current < u64Bound)
    {retained : List TableManifest}
    (read : ∀ manifest, manifest ∈ retained ↔
      ∃ version ∈ keptVersions (relativeKeys table buckets) current,
        buckets.under table (manifestKey version) = some (.manifest manifest)) (key : Text) :
    key ∈ vacuumTargets (relativeKeys table buckets) current retained ↔
      Garbage (buckets.under table) current key := by
  have keeps := fun version => (dropped_and_kept tidy bounded version).2
  have drops := fun version => (dropped_and_kept tidy bounded version).1
  simp only [vacuumTargets, List.mem_append, mem_unreferencedKeys, List.mem_map,
    (relativeKeys_exact table buckets).1, read, keeps, drops]
  constructor
  · rintro (⟨present, elsewhere, notPointer, unlisted⟩ | ⟨version, ⟨isStored, older, outside⟩, rfl⟩)
    · exact .object present elsewhere notPointer (fun version isRetained manifest isManifest =>
        unlisted manifest ⟨version, isRetained, isManifest⟩)
    · exact .manifest isStored older outside
  · rintro (⟨isStored, older, outside⟩ | ⟨present, elsewhere, notPointer, unlisted⟩)
    · exact Or.inr ⟨_, ⟨isStored, older, outside⟩, rfl⟩
    · refine Or.inl ⟨present, elsewhere, notPointer, ?_⟩
      rintro manifest ⟨version, isRetained, isManifest⟩
      exact unlisted version isRetained manifest isManifest

/-! ## A second vacuum -/

/-- When the garbage is gone, there is no more garbage. -/
theorem Garbage.collected {view after : Text → Option Object}
    (cleared : ∀ key, (Garbage view current key ∧ after key = none) ∨
      (¬ Garbage view current key ∧ after key = view key))
        (key : Text) : ¬ Garbage after current key := by
  have kept : ∀ {key : Text}, (after key).isSome = true →
      ¬ Garbage view current key ∧ after key = view key := by
    intro key present
    rcases cleared key with ⟨_, gone⟩ | kept
    · rw [gone] at present
      cases present
    · exact kept
  have trimmed : ∀ version, stored after version = true ↔
      stored view version = true ∧ (version ≤ current → Retained view current version) := by
    intro version
    constructor
    · intro present
      obtain ⟨notGarbage, same⟩ := kept present
      have wasStored : stored view version = true := by rwa [stored, ← same]
      refine ⟨wasStored, fun older => ?_⟩
      by_contra outside
      exact notGarbage (.manifest wasStored older outside)
    · rintro ⟨wasStored, retained⟩
      rcases cleared (manifestKey version) with ⟨garbage, _⟩ | ⟨_, same⟩
      · generalize isKey : manifestKey version = key at garbage
        cases garbage with
        | manifest _ older outside =>
          obtain rfl := manifestKey_injective isKey
          exact absurd (retained older) outside
        | object _ elsewhere =>
          rw [← isKey, manifestKey_directory] at elsewhere
          cases elsewhere
      · rwa [stored, same]
  have sameRetained : ∀ version, Retained after current version ↔ Retained view current version :=
    fun version => Retention.inWindow_of_trimmed trimmed
  rintro (⟨isStored, older, outside⟩ | ⟨present, elsewhere, notPointer, unlisted⟩)
  · exact outside ((sameRetained _).mpr (((trimmed _).mp isStored).2 older))
  · obtain ⟨notGarbage, same⟩ := kept present
    refine notGarbage (.object (by rwa [← same]) elsewhere notPointer ?_)
    intro version isRetained manifest isManifest
    have stillRetained := (sameRetained version).mpr isRetained
    refine unlisted version stillRetained manifest ?_
    rw [(kept stillRetained.2.1).2, isManifest]

end Parts

/-- Every manifest lists files outside the manifest directory. -/
def ListsData (table : Text) (buckets : Buckets) : Prop :=
  ∀ version manifest, buckets.under table (manifestKey version) = some (.manifest manifest) →
    ∀ file ∈ manifest.files, manifestPrefix.isPrefixOf file.key = false

/-- What the table is listed as, or a manifest that is retained, could not be read. -/
def Blocked (table : Text) (current : Nat) (buckets : Buckets) (trace : List (Event Effect Reply)) :
    Prop :=
  NotListed table trace ∨
    ∃ version, Retained (buckets.under table) current version ∧ Unread table trace version

/-- A vacuum that cannot read what it has to read deletes nothing. Otherwise it deletes
exactly the garbage of its table, and if all deletions succeed another vacuum deletes
nothing. The current manifest and the files it lists are never deleted. -/
theorem vacuum_exact {permits : Buckets → Effect → Answer → Prop} {table : Text} {current : Nat}
    {buckets final : Buckets} {trace : List (Event Effect Reply)} {result : Except Text Nat}
    (bounded : current < u64Bound) (tidy : Tidy table buckets) (listsData : ListsData table buckets)
    (present : (buckets.under table (manifestKey current)).isSome = true)
    (completed : Program.Completes (Given permits) (vacuum table current) buckets trace result final) :
    (Blocked table current buckets trace → ∀ key, ¬ Deletes trace key) ∧
    (¬ Blocked table current buckets trace →
      (∀ key, Deletes trace key ↔
        ∃ target, key = table ++ target ∧ Garbage (buckets.under table) current target) ∧
      (DeletesSucceed trace → ∀ permits' trace' result' final',
        Program.Completes (Given permits') (vacuum table current) final trace' result' final' →
          ∀ key, ¬ Deletes trace' key)) ∧
    ¬ Deletes trace (table ++ manifestKey current) ∧
    ∀ manifest, buckets.under table (manifestKey current) = some (.manifest manifest) →
      ∀ file ∈ manifest.files, ¬ Deletes trace (table ++ file.key) := by
  have currentRetained : Retained (buckets.under table) current current :=
    Retention.top_inWindow (by decide) present
  have keptKey : ¬ Garbage (buckets.under table) current (manifestKey current) := by
    intro garbage
    generalize isKey : manifestKey current = key at garbage
    cases garbage with
    | manifest _ _ outside =>
      obtain rfl := manifestKey_injective isKey
      exact outside currentRetained
    | object _ elsewhere =>
      rw [← isKey, manifestKey_directory] at elsewhere
      exact nomatch elsewhere
  have keptFile : ∀ manifest,
    buckets.under table (manifestKey current) = some (.manifest manifest) →
      ∀ file ∈ manifest.files, ¬ Garbage (buckets.under table) current file.key := by
    intro manifest isManifest file listed garbage
    have isData := listsData current manifest isManifest file listed
    generalize isKey : file.key = key at garbage isData
    cases garbage with
    | manifest =>
      rw [manifestKey_directory] at isData
      exact nomatch isData
    | object _ _ _ unlisted =>
        exact unlisted current currentRetained manifest isManifest file listed isKey
  have blocked : (∃ version ∈ keptVersions (relativeKeys table buckets) current,
      Unread table trace version) → Blocked table current buckets trace := by
    rintro ⟨version, isKept, unread⟩
    exact Or.inr ⟨version, (dropped_and_kept tidy bounded version).2.mp isKept, unread⟩
  rcases vacuum_completes completed with ⟨gaveUp, none⟩ |
    ⟨retained, isListed, allRead, read, asks, clears⟩
  · refine ⟨fun _ => none, fun unblocked => absurd ?_ unblocked, none _, fun _ _ _ _ => none _⟩
    exact gaveUp.elim Or.inl blocked
  have targets := target_iff tidy bounded read
  have exactly : ∀ key, Deletes trace key ↔
      ∃ target, key = table ++ target ∧ Garbage (buckets.under table) current target := by
    intro key
    rw [asks]
    constructor
    · rintro ⟨target, isTarget, rfl⟩
      exact ⟨target, rfl, (targets target).mp isTarget⟩
    · rintro ⟨target, rfl, garbage⟩
      exact ⟨target, (targets target).mpr garbage, rfl⟩
  have spared : ∀ {key : Text}, ¬ Garbage (buckets.under table) current key →
      ¬ Deletes trace (table ++ key) := by
    intro key notGarbage deleted
    obtain ⟨target, same, garbage⟩ := (exactly _).mp deleted
    exact notGarbage (List.append_cancel_left same ▸ garbage)
  refine ⟨?_, fun _ => ⟨exactly, ?_⟩, spared keptKey,
    fun manifest isManifest file listed => spared (keptFile manifest isManifest file listed)⟩
  · rintro (unlisted | ⟨version, _, unread⟩)
    · exact absurd unlisted isListed
    · exact absurd unread (allRead version)
  · intro succeed permits' trace' result' final' again key deleted
    have cleared : ∀ key,
      (Garbage (buckets.under table) current key ∧ final.under table key = none) ∨
        (¬ Garbage (buckets.under table) current key ∧
          final.under table key = buckets.under table key) := by
      intro key
      rw [clears succeed key, ← targets key]
      by_cases isTarget : key ∈ vacuumTargets (relativeKeys table buckets) current retained
      · simp [isTarget]
      · simp [isTarget]
    have tidyFinal : Tidy table final := by
      intro relative version isPresent names
      rcases cleared relative with ⟨_, gone⟩ | ⟨_, same⟩
      · rw [gone] at isPresent
        exact nomatch isPresent
      · exact tidy relative version (same ▸ isPresent) names
    rcases vacuum_completes again with ⟨_, none⟩ | ⟨retained', _, _, read', asks', _⟩
    · exact none key deleted
    · obtain ⟨target, isTarget, rfl⟩ := (asks' key).mp deleted
      exact Garbage.collected cleared target
        ((target_iff tidyFinal bounded read' target).mp isTarget)

/-! ## A table with an orphan -/

/-- A manifest of version 1 with one file. -/
def orphanedManifest : TableManifest := ⟨1, [], none, [⟨"v1/a".toList, "m".toList, 0⟩]⟩

/-- A table at version 1, with the file of its manifest and one that a stopped run left. -/
def orphanedTable : Buckets :=
  ⟨∅, ((((∅ : Store).insert "t/v1/a".toList (.data [])).insert "t/v2/b".toList (.data [])).insert
    "t/_current.json".toList (.pointer ⟨1⟩)).insert "t/_manifests/1.json".toList
      (.manifest orphanedManifest)⟩

/-- An effect that reads or deletes did what it was asked to. -/
def succeeds : Event Effect Reply → Bool
  | ⟨.listKeys _ _, .error _⟩ | ⟨.deleteObject _ _, .error _⟩ => false
  | ⟨.getBytes _ _, .ok (.manifest _)⟩ => true
  | ⟨.getBytes _ _, _⟩ => false
  | _ => true

/-- A run in which every effect succeeds is not blocked, and all its deletions succeed. -/
theorem unblocked_of_succeeds {table : Text} {current : Nat} {buckets : Buckets}
    {trace : List (Event Effect Reply)} (all : trace.all succeeds = true) :
    ¬ Blocked table current buckets trace ∧ DeletesSucceed trace := by
  rw [List.all_eq_true] at all
  constructor
  · rintro (⟨error, member⟩ | ⟨version, _, reply, member, notManifest⟩)
    · exact nomatch all _ member
    · have succeeded := all _ member
      rcases reply with error | (pointer | manifest | bytes)
      · exact nomatch succeeded
      · exact nomatch succeeded
      · exact notManifest manifest rfl
      · exact nomatch succeeded
  · rintro bucket key (error | ⟨⟩) member
    · exact nomatch all _ member
    · rfl

/-- The manifest of version 1 is the only object of the table that bears a version. -/
theorem orphanedTable_manifests {version : Nat}
    (present : (orphanedTable.under "t/".toList (manifestKey version)).isSome = true) :
    version = 1 := by
  have names : ∀ key ∈ orphanedTable.warehouse.keys,
      ("t/".toList ++ manifestPrefix).isPrefixOf key = true → key = "t/".toList ++
        manifestKey 1 := by
    decide +kernel
  have isLed : ("t/".toList ++ manifestPrefix).isPrefixOf ("t/".toList ++ manifestKey version) =
    true := by
    have directory := List.isPrefixOf_iff_prefix.mp (manifestKey_directory version)
    exact List.isPrefixOf_iff_prefix.mpr ((List.prefix_append_right_inj _).mpr directory)
  have named := names _ (AList.mem_keys.mp (AList.lookup_isSome.mp present)) isLed
  exact manifestKey_injective (List.append_cancel_left named)

/-- Its vacuum deletes the orphan, spares the other file, and leaves nothing to delete. -/
theorem vacuum_exact_orphan : ∃ trace final,
    Program.Completes (Given (fun _ _ _ => True)) (vacuum "t/".toList 1) orphanedTable trace (.ok 1)
      final ∧
    Deletes trace ("t/".toList ++ "v2/b".toList) ∧ ¬ Deletes trace ("t/".toList ++ "v1/a".toList) ∧
    ∀ trace' result' final', Program.Completes (Given (fun _ _ _ => True)) (vacuum "t/".toList 1) final
      trace' result' final' → ∀ key, ¬ Deletes trace' key := by
  have tidy : Tidy "t/".toList orphanedTable := by
    have all : ∀ key ∈ orphanedTable.warehouse.keys, ∀ relative ∈ key.dropPrefix? "t/".toList,
        ∀ version ∈ manifestVersion relative, relative = manifestKey version := by
      decide +kernel
    intro relative version present names
    exact all _ (AList.mem_keys.mp (AList.lookup_isSome.mp present)) relative
      (List.dropPrefix?_append_of_beq _ (BEq.refl _)) version names
  have isManifest : orphanedTable.under "t/".toList (manifestKey 1) =
      some (.manifest orphanedManifest) := by decide +kernel
  have only : ∀ version manifest, orphanedTable.under "t/".toList (manifestKey version) =
      some (.manifest manifest) → manifest = orphanedManifest := by
    intro version manifest stored
    obtain rfl := orphanedTable_manifests (by rw [stored]; rfl)
    rw [isManifest] at stored
    exact (Object.manifest.inj (Option.some.inj stored)).symm
  have listsData : ListsData "t/".toList orphanedTable := by
    intro version manifest stored
    rw [only version manifest stored]
    decide
  have checked : (execute (vacuum "t/".toList 1) orphanedTable [.served, .served, .served]).any
      (fun run => run.1.all succeeds = true ∧ run.2.1 = .ok 1) = true := by decide +kernel
  obtain ⟨⟨trace, result, final⟩, executed, checked⟩ := (Option.any_eq_true _ _).mp checked
  obtain ⟨all, rfl⟩ := of_decide_eq_true checked
  obtain ⟨unblocked, succeed⟩ := unblocked_of_succeeds all
  have completed := execute_completes executed
  obtain ⟨_, exactly, _, spared⟩ :=
    vacuum_exact (by decide) tidy listsData (by rw [isManifest]; rfl) completed
  obtain ⟨asks, nothingLeft⟩ := exactly unblocked
  refine ⟨trace, final, completed, (asks _).mpr ⟨_, rfl, ?_⟩, ?_, nothingLeft succeed _⟩
  · refine .object (by decide +kernel) (by decide) (by decide) ?_
    intro version _ manifest isStored
    rw [only version manifest isStored]
    decide
  · exact spared orphanedManifest isManifest _ List.mem_cons_self

end KaretWorker
