import KaretWorker.CrashSafety

/-!
# Overlapping executions

Two executions of one pipeline overlap when the first one's lock lapses and the
second one takes it. Both are then free to read, put, list and delete in any
order; the cancel flag the first one polls says nothing between two mappings or
during a publish.

Nothing in the object store orders them. From one pointer both compute the same
next version, write the same manifest key, and each vacuum deletes what only the
other one's manifest lists. What would keep a table in order is that an execution
changes nothing any more once another one has read the pointer.
-/
namespace KaretWorker

open Texts Interaction

/-- What overlapping attempts must not break. The pointer names a stored manifest;
each file it lists is stored and was put by the execution that wrote the manifest,
or carried forward from an earlier version. Publications never share a version,
the pointer names the last of them, and while one is retained its manifest is the
one that is stored. -/
structure Uncorrupted (view : Text → Option Object) (ledger : Ledger) : Prop where
  complete : ∀ pointer, view currentKey = some (.pointer pointer) →
    ∃ manifest writer, view (manifestKey pointer.version) = some (.manifest manifest) ∧
      ledger.writer pointer.version = some writer ∧
      ∀ file ∈ manifest.files,
        (∃ bytes, view file.key = some (.data bytes) ∧ writer.uploads file.key = some bytes) ∨
          ((view file.key).isSome = true ∧
            ∃ before ∈ ledger.published, before.version < pointer.version ∧
              before.names file.key = true)
  ordered : ledger.published.Pairwise (fun earlier later => earlier.version < later.version)
  last : ∀ pointer, view currentKey = some (.pointer pointer) →
    ledger.published.getLast?.map Listing.version = some pointer.version
  kept : ∀ pointer, view currentKey = some (.pointer pointer) →
    ∀ listing ∈ ledger.published, Retained view pointer.version listing.version →
      ∃ manifest, view (manifestKey listing.version) = some (.manifest manifest) ∧
        manifest.files = listing.files

section Sound

variable {view : Text → Option Object} {ledger : Ledger} {current : Nat}

/-- The pointer of a sound table names the number of publications. -/
theorem Sound.pointer_current (sound : Sound view ledger current) {pointer : CurrentPointer}
    (named : view currentKey = some (.pointer pointer)) :
    pointer.version = current ∧ current ≠ 0 := by
  have expected := sound.pointer.symm.trans named
  split at expected
  · exact nomatch expected
  · next positive =>
    obtain ⟨⟩ := expected
    exact ⟨rfl, positive⟩

/-- A sound table is uncorrupted. -/
theorem Sound.uncorrupted (sound : Sound view ledger current) : Uncorrupted view ledger := by
  have numbered : ∀ listing ∈ ledger.published, ∃ index, ledger.published[index]? = some listing ∧
      listing.version = index + 1 := by
    intro listing member
    obtain ⟨index, found⟩ := List.mem_iff_getElem?.mp member
    exact ⟨index, found, sound.numbered index listing found⟩
  refine ⟨?_, ?_, ?_, ?_⟩
  · intro pointer named
    obtain ⟨rfl, positive⟩ := sound.pointer_current named
    have retained := sound.current_retained positive
    obtain ⟨manifest, present, _⟩ := sound.manifest retained.2.1
    obtain ⟨index, writer, isCurrent, found⟩ := sound.publication retained.2.1 (Nat.le_refl _)
    have sameFiles := sound.listed index writer manifest found (isCurrent ▸ present)
    refine ⟨manifest, writer, present, isCurrent ▸ sound.attributed index writer found, ?_⟩
    intro file member
    rw [sameFiles] at member
    obtain ⟨first, bytes, naming, uploaded, body⟩ :=
      sound.contents index writer found (isCurrent ▸ retained) file member
    obtain ⟨origin, first', path, bound, isFirst, names, located⟩ :=
      sound.origins index writer found file member
    have sameFirst := sound.first_origin isFirst (located ▸ names)
    rw [← located, naming] at sameFirst
    obtain rfl := Option.some.inj sameFirst
    rcases Nat.lt_or_eq_of_le bound with before | rfl
    · right
      refine ⟨by rw [body, Option.isSome_some], first, List.mem_of_getElem? isFirst, ?_, names⟩
      rw [sound.numbered origin first isFirst, isCurrent]
      exact Nat.succ_lt_succ before
    · obtain rfl := Option.some.inj (found.symm.trans isFirst)
      exact Or.inl ⟨bytes, body, uploaded⟩
  · rw [List.pairwise_iff_getElem]
    intro left right inLeft inRight before
    rw [sound.numbered left _ (List.getElem?_eq_getElem inLeft),
      sound.numbered right _ (List.getElem?_eq_getElem inRight)]
    exact Nat.succ_lt_succ before
  · intro pointer named
    obtain ⟨same, positive⟩ := sound.pointer_current named
    have inside : current - 1 < ledger.published.length := by
      rw [sound.counted]
      exact Nat.pred_lt positive
    rw [List.getLast?_eq_getElem?, sound.counted, List.getElem?_eq_getElem inside, Option.map_some,
      sound.numbered _ _ (List.getElem?_eq_getElem inside), same, Nat.sub_add_cancel
        (Nat.one_le_iff_ne_zero.mpr positive)]
  · intro pointer named listing member retained
    obtain ⟨index, found, isVersion⟩ := numbered listing member
    obtain ⟨manifest, present, _⟩ := sound.manifest retained.2.1
    rw [isVersion] at present ⊢
    exact ⟨manifest, present, sound.listed index listing manifest found present⟩

end Sound

/-- Any steps at all, as long as an existing pointer is served. -/
def FreeRule (pipelinePrefix id : Text) (world : World) (action : Action) : Prop :=
  world.Proper id action ∧ world.PointerServed (tablePrefix pipelinePrefix id) action

instance (pipelinePrefix id : Text) (world : World) :
    DecidablePred (FreeRule pipelinePrefix id world) :=
  fun _ => inferInstanceAs (Decidable (_ ∧ _))

/-- Overlapping executions leave a table uncorrupted in every world reached, if in
every step only the execution that read the pointer last changes the table. -/
theorem overlap_uncorrupted {pipelinePrefix id : Text} (plain : '/' ∉ id) {buckets : Buckets}
    (blank : ∀ key, buckets.under (tablePrefix pipelinePrefix id) key = none) {world : World}
    (reached : Reaches pipelinePrefix (tablePrefix pipelinePrefix id)
      (OrderedRule pipelinePrefix id) (World.initial buckets) world) :
    Uncorrupted (world.buckets.under (tablePrefix pipelinePrefix id)) world.history.ledger := by
  obtain ⟨phases, current, safe⟩ := reaches_safe plain (initial_safe blank) reached
  exact safe.sound.uncorrupted

/-! ## Two executions from one pointer -/

section Collision

/-- The small configuration with its table partitioned. -/
def smallPartitioned : PipelineConfig :=
  { smallConfig with analyticTables := [partitionedTable "t".toList] }

/-- Both executions start from the unpublished table. The second publishes and
lists the table, the first publishes the same version, and then the second's
vacuum deletes the file it lists. -/
def colliding : List Action :=
  [.start 0 (.ok smallPartitioned) false] ++
    answers 0 (toUpload [.refused []] ⟨"t/a=1/m.parquet".toList, [1]⟩) ++
    [.start 1 (.ok smallPartitioned) false] ++
    answers 1 (toUpload [.refused []] ⟨"t/a=2/m.parquet".toList, [2]⟩ ++ toPublish 2 ++
      [.served, .served]) ++
    answers 0 (toPublish 2) ++ answers 1 [.served]

/-- The pointer names a version whose file is gone. -/
def FileGone (view : Text → Option Object) : Prop :=
  let file : ManifestFile := ⟨"v1/a=1/m.parquet".toList, "m".toList, 1⟩
  view currentKey = some (.pointer ⟨1⟩) ∧
    view (manifestKey 1) = some (.manifest ⟨1, [], none, [file]⟩) ∧ view file.key = none

instance (view : Text → Option Object) : Decidable (FileGone view) :=
  inferInstanceAs (Decidable (_ ∧ _ ∧ _))

/-- Without the order, two executions that overlap corrupt the table. -/
theorem overlap_corrupts :
    ¬ ∀ (pipelinePrefix id : Text) (buckets : Buckets) (world : World), '/' ∉ id →
      (∀ key, buckets.under (tablePrefix pipelinePrefix id) key = none) →
      Reaches pipelinePrefix (tablePrefix pipelinePrefix id) (FreeRule pipelinePrefix id)
        (World.initial buckets) world →
      Uncorrupted (world.buckets.under (tablePrefix pipelinePrefix id)) world.history.ledger := by
  intro claim
  obtain ⟨world, reached, named, present, gone⟩ :=
    Runs.reaches_of_check (World.step "p/".toList (tablePrefix "p/".toList "t".toList))
      (FreeRule "p/".toList "t".toList) (World.initial smallBuckets) colliding
      (fun world => FileGone (world.buckets.under (tablePrefix "p/".toList "t".toList)))
      (by decide +kernel)
  obtain ⟨manifest, writer, present', _, files⟩ :=
    (claim _ _ _ world (by decide) (fun _ => rfl) reached).complete ⟨1⟩ named
  obtain ⟨⟩ := present.symm.trans present'
  rcases files _ List.mem_cons_self with ⟨bytes, body, _⟩ | ⟨stored, _⟩
  · exact nomatch gone.symm.trans body
  · rw [gone] at stored
    exact nomatch stored

/-- One execution stops before its publish and another one publishes in order. -/
def succeeding : List Action :=
  [.start 0 (.ok smallPartitioned) false] ++
    answers 0 (toUpload [.refused []] ⟨"t/a=1/m.parquet".toList, [1]⟩) ++
    [.start 1 (.ok smallPartitioned) false] ++
    answers 1 (toUpload [.refused []] ⟨"t/a=2/m.parquet".toList, [2]⟩ ++ toPublish 2 ++
      [.served, .served, .served])

/-- With a first execution that lags behind but puts nothing more, the second
one's publish stands. -/
theorem overlap_uncorrupted_succeeding : ∃ world : World,
    world.history.ledger.published.length = 1 ∧
      Uncorrupted (world.buckets.under (tablePrefix "p/".toList "t".toList))
        world.history.ledger := by
  obtain ⟨world, reached, published⟩ :=
    Runs.reaches_of_check (World.step "p/".toList (tablePrefix "p/".toList "t".toList))
      (OrderedRule "p/".toList "t".toList) (World.initial smallBuckets) succeeding
      (fun world => world.history.ledger.published.length = 1) (by decide +kernel)
  exact ⟨world, published, overlap_uncorrupted (by decide) (fun _ => rfl) reached⟩

end Collision

end KaretWorker
