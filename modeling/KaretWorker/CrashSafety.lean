import KaretWorker.TableRuns

/-!
# Crash safety of the publish protocol

Runs of a pipeline follow one another; each may stop at any call, and any put or
delete may be refused, or take place although the run sees an error. Only a get of
an existing pointer must succeed.

A sequence of runs keeps to the rule that only the execution which read the
pointer last changes the table, so the invariant of `TableRuns` holds in every
world reached. Readers therefore find every retained version complete, with the
content its publisher put there, and see it change only when a pointer is put.
-/
namespace KaretWorker

open Texts Interaction Indexing

/-- A world in which nothing runs and nothing has happened to the table. -/
def World.initial (buckets : Buckets) : World := ⟨buckets, ∅, History.empty⟩

/-- The rule under which the invariant of one table holds. -/
def OrderedRule (pipelinePrefix id : Text) (world : World) (action : Action) : Prop :=
  world.Proper id action ∧ world.PointerServed (tablePrefix pipelinePrefix id) action ∧
    world.LatestChanges (tablePrefix pipelinePrefix id) action

instance (pipelinePrefix id : Text) (world : World) :
    DecidablePred (OrderedRule pipelinePrefix id world) :=
  fun _ => inferInstanceAs (Decidable (_ ∧ _ ∧ _))

/-- The rule for runs that follow one another. -/
def SequentialRule (pipelinePrefix id : Text) (world : World) (action : Action) : Prop :=
  world.Proper id action ∧ world.PointerServed (tablePrefix pipelinePrefix id) action ∧
    world.Sequential action

instance (pipelinePrefix id : Text) (world : World) :
    DecidablePred (SequentialRule pipelinePrefix id world) :=
  fun _ => inferInstanceAs (Decidable (_ ∧ _ ∧ _))

section Runs

variable {pipelinePrefix id : Text} {buckets : Buckets} {world after : World}

/-- A table without objects is safe at the start. -/
theorem initial_safe {table : Text} (blank : ∀ key, buckets.under table key = none) :
    Safe table (fun _ => .waiting) 0 (World.initial buckets) where
  sound := Sound.blank blank
  keeps := fun _ _ impossible => nomatch impossible
  knows := fun _ impossible => nomatch impossible

/-- The invariant holds in every world reached in order. -/
theorem reaches_safe (plain : '/' ∉ id) {start : World} {phases : Nat → Phase} {current : Nat}
    (safe : Safe (tablePrefix pipelinePrefix id) phases current start)
    (reached : Reaches pipelinePrefix (tablePrefix pipelinePrefix id)
      (OrderedRule pipelinePrefix id) start world) :
    ∃ phases' current', Safe (tablePrefix pipelinePrefix id) phases' current' world := by
  apply reached.invariant (fun world => ∃ phases' current',
    Safe (tablePrefix pipelinePrefix id) phases' current' world) ⟨phases, current, safe⟩
  rintro before action after ⟨phases', current', safe'⟩ ⟨proper, served, latest⟩ stepped
  obtain ⟨phases'', current'', safe'', _⟩ := safe'.step plain proper served latest stepped
  exact ⟨phases'', current'', safe''⟩

/-! ## Runs that follow one another -/

/-- At most one execution runs, and before it has read the pointer it is still
waiting to do so. -/
structure Lone (table : Text) (world : World) : Prop where
  single : ∀ author other job job', world.running.lookup author = some job →
    world.running.lookup other = some job' → author = other
  opened : ∀ author job, world.running.lookup author = some job →
    world.history.opener = some author ∨ Keeps table (fun _ _ => True) job .waiting

/-- A table that is waited for is left alone, or its pointer is read. -/
theorem Move.fromWaiting {table : Text} {phase' : Phase} {effect : Effect} {reply : Reply effect}
    (move : Move table .waiting effect reply phase') :
    (Foreign table effect ∧ phase' = .waiting) ∨
      effect = .getBytes .warehouse (table ++ currentKey) := by
  cases move with
  | foreign phase effect reply elsewhere => exact Or.inl ⟨elsewhere, rfl⟩
  | pointerRead | pointerMissing | pointerMalformed => exact Or.inr rfl

/-- A lone execution changes the table only after it has read the pointer. -/
theorem Lone.latest {table : Text} (lone : Lone table world) (action : Action) :
    world.LatestChanges table action := by
  cases action with
  | answer author given =>
    intro effect isPending changes
    simp only [World.pending] at isPending
    split at isPending
    · next called next running =>
      obtain rfl := Option.some.inj isPending
      rcases lone.opened author _ running with isOpener | keeps
      · exact isOpener
      · cases called with
        | putObject bucket key body =>
          obtain ⟨_, move, _⟩ := keeps (.ok ()) trivial
          rcases move.fromWaiting with ⟨elsewhere, _⟩ | impossible
          · exact absurd changes elsewhere.quiet
          · cases impossible
        | deleteObject bucket key =>
          obtain ⟨_, move, _⟩ := keeps (.ok ()) trivial
          rcases move.fromWaiting with ⟨elsewhere, _⟩ | impossible
          · exact absurd changes elsewhere.quiet
          · cases impossible
        | _ => exact absurd changes id
    · cases isPending
  | _ => trivial

/-- Starting executions one at a time keeps them alone. -/
theorem Lone.step (plain : '/' ∉ id) {action : Action}
    (lone : Lone (tablePrefix pipelinePrefix id) world) (proper : world.Proper id action)
    (sequential : world.Sequential action)
    (stepped : world.step pipelinePrefix (tablePrefix pipelinePrefix id) action = some after) :
    Lone (tablePrefix pipelinePrefix id) after := by
  cases action with
  | start author loaded cleanRun =>
    obtain ⟨_, rfl⟩ := step_start stepped
    have idle : ∀ other, world.running.lookup other = none := by
      have empty : world.running.entries = [] := List.isEmpty_iff.mp sequential
      intro other
      rw [AList.lookup, empty, List.dlookup_nil]
    have only : ∀ other job,
        (world.running.insert author (executeJob loaded pipelinePrefix cleanRun)).lookup other =
          some job → other = author ∧ job = executeJob loaded pipelinePrefix cleanRun := by
      intro other job found
      rcases lookup_of_insert found with isAuthor | ⟨_, before⟩
      · exact isAuthor
      · cases (idle other).symm.trans before
    constructor
    · intro left right job job' isLeft isRight
      exact (only left job isLeft).1.trans (only right job' isRight).1.symm
    · intro other job found
      rw [(only other job found).2]
      refine Or.inr (executeJob_keeps plain loaded (fun config isLoaded => ?_) cleanRun)
      subst isLoaded
      exact proper
  | answer author given =>
    obtain ⟨effect, next, reply, buckets, running, answered, rfl⟩ := step_answer stepped
    have genuine : Genuine effect reply := by
      apply proper ⟨effect, reply⟩
      rw [World.exchange, running]
      exact Option.map_eq_some_iff.mpr ⟨_, answered, rfl⟩
    have only : ∀ other job, (world.running.insert author (next reply)).lookup other = some job →
        other = author ∧ job = next reply := by
      intro other job found
      rcases lookup_of_insert found with isAuthor | ⟨different, before⟩
      · exact isAuthor
      · exact absurd (lone.single other author _ _ before running) different
    constructor
    · intro left right job job' isLeft isRight
      exact (only left job isLeft).1.trans (only right job' isRight).1.symm
    · intro other job found
      obtain ⟨rfl, rfl⟩ := only other job found
      by_cases isPointer :
          effect = .getBytes .warehouse (tablePrefix pipelinePrefix id ++ currentKey)
      · subst isPointer
        rw [record_getPointer]
        exact Or.inl rfl
      · rw [record_opener isPointer]
        refine (lone.opened other _ running).imp_right (fun keeps => ?_)
        obtain ⟨phase', move, rest⟩ := keeps reply genuine
        rcases move.fromWaiting with ⟨_, rfl⟩ | isPointer'
        · exact rest
        · exact absurd isPointer' isPointer
  | stop author =>
    obtain rfl := Option.some.inj stepped
    constructor
    · intro left right job job' isLeft isRight
      exact lone.single left right job job' (lookup_of_erase isLeft).2 (lookup_of_erase isRight).2
    · exact fun other job found => lone.opened other job (lookup_of_erase found).2
  | fill lake =>
    obtain rfl := Option.some.inj stepped
    exact ⟨lone.single, lone.opened⟩

/-- Runs that follow one another keep to the order. -/
theorem sequential_ordered (plain : '/' ∉ id)
    (reached : Reaches pipelinePrefix (tablePrefix pipelinePrefix id)
      (SequentialRule pipelinePrefix id) (World.initial buckets) world) :
    Lone (tablePrefix pipelinePrefix id) world ∧
      Reaches pipelinePrefix (tablePrefix pipelinePrefix id) (OrderedRule pipelinePrefix id)
        (World.initial buckets) world := by
  induction reached with
  | refl =>
    exact ⟨⟨fun _ _ _ _ impossible => (nomatch impossible),
      fun _ _ impossible => (nomatch impossible)⟩, .refl⟩
  | tail _ step inductionHypothesis =>
    obtain ⟨lone, ordered⟩ := inductionHypothesis
    obtain ⟨action, ⟨proper, served, sequential⟩, stepped⟩ := step
    exact ⟨lone.step plain proper sequential stepped,
      ordered.tail ⟨action, ⟨proper, served, lone.latest action⟩, stepped⟩⟩

end Runs

/-! ## What readers find -/

/-- Whatever the pointer names is complete: that version and every other retained
one has its manifest, and each file it lists still holds the content put there by
the first of the listings to name it. -/
def Intact (view : Text → Option Object) (listings : List Listing) : Prop :=
  ∀ pointer, view currentKey = some (.pointer pointer) →
    Retained view pointer.version pointer.version ∧
      ∀ version, Retained view pointer.version version →
        ∃ manifest, view (manifestKey version) = some (.manifest manifest) ∧
          ∀ file ∈ manifest.files, ∃ first bytes, firstNaming listings file.key = some first ∧
            first.uploads file.key = some bytes ∧ view file.key = some (.data bytes)

/-- Nothing, or a version of which every file is found. -/
def Whole : Option (TableManifest × List (Option Object)) → Prop
  | none => True
  | some (_, bodies) => ∀ body ∈ bodies, body.isSome = true

/-- The version a reader resolves, zero if there is none. -/
def resolvedVersion (resolved : Option (TableManifest × List (Option Object))) : Nat :=
  (resolved.map (fun found => found.1.version)).getD 0

section Readers

variable {view : Text → Option Object} {ledger : Ledger} {current : Nat}

/-- Readers of a sound table find every retained version intact. -/
theorem Sound.intact (sound : Sound view ledger current) : Intact view ledger.published := by
  intro pointer named
  have expected := sound.pointer.symm.trans named
  split at expected
  · exact nomatch expected
  · next positive =>
    obtain ⟨⟩ := expected
    refine ⟨sound.current_retained positive, ?_⟩
    intro version retained
    obtain ⟨manifest, present, _⟩ := sound.manifest retained.2.1
    obtain ⟨index, listing, rfl, found⟩ := sound.publication retained.2.1 retained.1
    refine ⟨manifest, present, ?_⟩
    rw [sound.listed index listing manifest found present]
    exact sound.contents index listing found retained

/-- A reader of a sound table resolves a whole version, the current one. -/
theorem Sound.resolved (sound : Sound view ledger current) :
    Whole (resolve view) ∧ resolvedVersion (resolve view) = current := by
  by_cases unpublished : current = 0
  · have nothing : resolve view = none := by
      rw [resolve, sound.pointer, if_pos unpublished]
    rw [nothing]
    exact ⟨trivial, unpublished.symm⟩
  · have named : view currentKey = some (.pointer ⟨current⟩) := by
      rw [sound.pointer, if_neg unpublished]
    obtain ⟨retained, intact⟩ := sound.intact ⟨current⟩ named
    obtain ⟨manifest, present, found⟩ := intact current retained
    obtain ⟨manifest', present', numbered, _⟩ := sound.manifest retained.2.1
    obtain ⟨⟩ := present.symm.trans present'
    have resolves : resolve view =
        some (manifest, manifest.files.map (fun file => view file.key)) := by
      simp only [resolve, named, present]
    rw [resolves]
    refine ⟨?_, numbered⟩
    intro body member
    obtain ⟨file, isListed, rfl⟩ := List.mem_map.mp member
    obtain ⟨_, _, _, _, body⟩ := found file isListed
    rw [body, Option.isSome_some]

end Readers

/-- In every world that runs of a pipeline reach one after another from a table
without objects, whichever of their puts and deletes took place and wherever they
stopped, every retained version is intact with the content of its first publisher;
and the next step either leaves what a reader resolves as it is, or puts the
pointer and switches from one whole version to its whole successor. -/
theorem publish_crash_safe {pipelinePrefix id : Text} (plain : '/' ∉ id) {buckets : Buckets}
    (blank : ∀ key, buckets.under (tablePrefix pipelinePrefix id) key = none) {world : World}
    (reached : Reaches pipelinePrefix (tablePrefix pipelinePrefix id)
      (SequentialRule pipelinePrefix id) (World.initial buckets) world) :
    Intact (world.buckets.under (tablePrefix pipelinePrefix id)) world.history.ledger.published ∧
      ∀ action after, SequentialRule pipelinePrefix id world action →
        world.step pipelinePrefix (tablePrefix pipelinePrefix id) action = some after →
        let before := resolve (world.buckets.under (tablePrefix pipelinePrefix id))
        let later := resolve (after.buckets.under (tablePrefix pipelinePrefix id))
        later = before ∨
          (Flips (tablePrefix pipelinePrefix id) world (resolvedVersion later) action ∧
            resolvedVersion later = resolvedVersion before + 1 ∧ Whole before ∧ Whole later) := by
  obtain ⟨lone, ordered⟩ := sequential_ordered plain reached
  obtain ⟨phases, current, safe⟩ := reaches_safe plain (initial_safe blank) ordered
  refine ⟨safe.sound.intact, ?_⟩
  rintro action after ⟨proper, served, _⟩ stepped
  obtain ⟨phases', current', safe', onward⟩ :=
    safe.step plain proper served (lone.latest action) stepped
  obtain ⟨wholeBefore, versionBefore⟩ := safe.sound.resolved
  obtain ⟨wholeLater, versionLater⟩ := safe'.sound.resolved
  rcases onward with ⟨_, _, same⟩ | ⟨next, flips, _⟩
  · exact Or.inl same
  · refine Or.inr ⟨?_, ?_, wholeBefore, wholeLater⟩
    · rw [versionLater, next]
      exact flips
    · rw [versionLater, versionBefore, next]

/-! ## A half-published version is rewritten -/

section Rewritten

/-- One container with one file, feeding one mapping of one table. -/
def smallConfig : PipelineConfig where
  sourceContainers := [plainSource]
  dimensions := []
  mappings := [plainMapping "t".toList]
  analyticTables := [plainTable "t".toList]

/-- A lake with one object and an empty warehouse. -/
def smallBuckets : Buckets where
  lake := (∅ : Store).insert "in/a.csv".toList (.data [0])
  warehouse := ∅

/-- One author's answers as actions. -/
def answers (author : Nat) (given : List Answer) : List Action := given.map (.answer author)

/-- The answers of a run of the small configuration up to its upload. -/
def toUpload (pointer : List Answer) (output : PartitionOutput) : List Answer :=
  pointer ++ [.served, .flag false, .served, .outcome (.ok ()), .flag false,
    .evaluated (.partitions [output] 0), .served]

/-- The answers to a publish of the table: `puts` puts, without the vacuum. -/
def toPublish (puts : Nat) : List Answer :=
  [.order ["t".toList], .clock []] ++ List.replicate puts .served

/-- A first run stops after putting its manifest; a second one puts other content
under the same names and publishes it. -/
def rewriting : List Action :=
  [.start 0 (.ok smallConfig) false] ++
    answers 0 (toUpload [.refused []] ⟨"t/m.parquet".toList, [1]⟩ ++ toPublish 1) ++
    [.stop 0, .start 1 (.ok smallConfig) false] ++
    answers 1 (toUpload [.refused []] ⟨"t/m.parquet".toList, [2]⟩ ++ toPublish 2)

/-- The published version lists a file whose first lister put other content. -/
def Rewritten (view : Text → Option Object) (history : History) : Prop :=
  let file : ManifestFile := ⟨"v1/m.parquet".toList, "m".toList, 1⟩
  view currentKey = some (.pointer ⟨1⟩) ∧
    view (manifestKey 1) = some (.manifest ⟨1, [], none, [file]⟩) ∧
    (firstNaming history.ledger.listings file.key).map (fun first => first.uploads file.key) =
      some (some [1]) ∧
    view file.key = some (.data [2])

instance (view : Text → Option Object) (history : History) : Decidable (Rewritten view history) :=
  inferInstanceAs (Decidable (_ ∧ _ ∧ _ ∧ _))

/-- The two runs end with the rewritten file published. -/
theorem rewriting_reaches : ∃ world,
    Reaches "p/".toList (tablePrefix "p/".toList "t".toList)
      (SequentialRule "p/".toList "t".toList) (World.initial smallBuckets) world ∧
    Rewritten (world.buckets.under (tablePrefix "p/".toList "t".toList)) world.history :=
  Runs.reaches_of_check _ _ _ rewriting _ (by decide +kernel)

/-- The content is not in general that of the run that listed the file first: a
run may stop between putting its manifest and the pointer, and the next one reuses
the version. -/
theorem first_lister_rewritten :
    ¬ ∀ (pipelinePrefix id : Text) (buckets : Buckets) (world : World), '/' ∉ id →
      (∀ key, buckets.under (tablePrefix pipelinePrefix id) key = none) →
      Reaches pipelinePrefix (tablePrefix pipelinePrefix id) (SequentialRule pipelinePrefix id)
        (World.initial buckets) world →
      Intact (world.buckets.under (tablePrefix pipelinePrefix id))
        world.history.ledger.listings := by
  intro claim
  obtain ⟨world, reached, named, present, first, content⟩ := rewriting_reaches
  obtain ⟨retained, intact⟩ := claim _ _ _ world (by decide) (fun _ => rfl) reached ⟨1⟩ named
  obtain ⟨manifest, present', files⟩ := intact 1 retained
  obtain ⟨⟩ := present.symm.trans present'
  obtain ⟨first', bytes, isFirst, uploaded, body⟩ := files _ List.mem_cons_self
  rw [isFirst, Option.map_some, uploaded] at first
  obtain ⟨⟩ := first
  exact nomatch content.symm.trans body

/-- The same world is intact with respect to what was published. -/
theorem publish_crash_safe_rewritten : ∃ world : World,
    Rewritten (world.buckets.under (tablePrefix "p/".toList "t".toList)) world.history ∧
      Intact (world.buckets.under (tablePrefix "p/".toList "t".toList))
        world.history.ledger.published := by
  obtain ⟨world, reached, rewritten⟩ := rewriting_reaches
  exact ⟨world, rewritten, (publish_crash_safe (by decide) (fun _ => rfl) reached).1⟩

end Rewritten

end KaretWorker
