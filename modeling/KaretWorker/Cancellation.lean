import KaretWorker.CleanRun
import KaretWorker.CrashSafety

/-!
# Cancelled runs

The heartbeat of a handler sets a flag when the lock was lost, and the run reads it at the
head of each download and of each mapping. A run that reads a set flag ends there, before
anything is published (`executeJob_polls`).

After the head of the last mapping the flag is not read again. So a run in which it is
set ends cancelled exactly when another head is still to come (`cancels_iff`), and
`late_cancel_publishes` is a run that is cancelled too late.
-/
namespace KaretWorker

open Texts Interaction

/-- The effect writes a manifest or a pointer, or deletes an object. -/
def Effect.Publishes : Effect → Prop
  | .putObject _ _ (.manifest _) => True
  | .putObject _ _ (.pointer _) => True
  | .deleteObject _ _ => True
  | _ => False

instance : DecidablePred Effect.Publishes
  | .putObject _ _ (.manifest _) => isTrue trivial
  | .putObject _ _ (.pointer _) => isTrue trivial
  | .putObject _ _ (.data _) => isFalse id
  | .deleteObject _ _ => isTrue trivial
  | .getBytes _ _ | .listKeys _ _ | .loadCancel | .now | .overflow | .iterate _
  | .buildInlineRegistry _ | .rowsFromCsv _ _ | .newMatcher _ | .evaluate _ _ _ => isFalse id

/-- The flag is set after as many effects of the run as the moment says, and stays set. -/
def SetAt (moment : Nat) (events : List (Event Effect Reply)) : Prop :=
  ∀ index reply, events[index]? = some ⟨.loadCancel, reply⟩ → (reply = true ↔ moment ≤ index)

/-- Nothing was published before the moment. -/
def BeforePublish (moment : Nat) (events : List (Event Effect Reply)) : Prop :=
  ∀ index event, events[index]? = some event → event.1.Publishes → moment ≤ index

/-- The flag is read at the moment or later: the head of a download or of a mapping is
still to come. -/
def ReadFrom (moment : Nat) (events : List (Event Effect Reply)) : Prop :=
  ∃ index reply, events[index]? = some ⟨.loadCancel, reply⟩ ∧ moment ≤ index

/-- The run ends cancelled and publishes and vacuums nothing. -/
structure EndsCancelled (events : List (Event Effect Reply)) (result : Except JobError JobOutcome) :
    Prop where
  cancelled : result = .error .cancelled
  unpublished : ∀ event ∈ events, ¬ event.1.Publishes

/-! ## Heads of loops -/

/-- Where a run stands: at work, stopped by the flag, or done with its loops. -/
inductive RunStage where
  | working
  | stopped
  | concluding

/-- What a run does at work, where it reads the flag and publishes nothing, and what it
does once its loops are done, where it does not read it. -/
inductive Polling : RunStage → (effect : Effect) → Reply effect → RunStage → Prop
  | proceeds : Polling .working .loadCancel false .working
  | stops : Polling .working .loadCancel true .stopped
  | works (effect : Effect) (reply : Reply effect) (unread : effect ≠ .loadCancel)
      (unpublished : ¬ effect.Publishes) : Polling .working effect reply .working
  | concludes (ids order : List Text) : Polling .working (.iterate ids) order .concluding
  | publishes (effect : Effect) (reply : Reply effect) (unread : effect ≠ .loadCancel) :
      Polling .concluding effect reply .concluding

/-- A program at work that ends stopped exactly with a value of the given kind. -/
abbrev Polls {α : Type} (isStopped : α → Prop) (job : Job α) : Prop :=
  Program.Follows (fun _ _ => True) Polling
    (fun value stage => (isStopped value ∧ stage = .stopped) ∨ (¬ isStopped value ∧ stage = .working))
    job .working

section Polls

variable {α : Type}

/-- Work without a look at the flag goes on at work. -/
theorem follows_working {job : Job α} (calls : job.Calls (fun effect =>
      effect ≠ .loadCancel ∧ ¬ effect.Publishes)) :
    Program.Follows (fun _ _ => True) Polling (fun _ stage => stage = .working) job .working :=
  Program.follows_of_calls calls RunStage.working
    (fun _ reply works => Polling.works _ reply works.1 works.2)

/-- A read neither looks at the flag nor publishes. -/
theorem Effect.Reads.works {effect : Effect} (reads : effect.Reads) :
    effect ≠ .loadCancel ∧ ¬ effect.Publishes := by
  cases effect with
  | getBytes | listKeys | overflow => exact ⟨(fun impossible => nomatch impossible), id⟩
  | putObject | deleteObject | loadCancel | now | iterate | buildInlineRegistry | rowsFromCsv
  | newMatcher | evaluate => exact absurd reads id

/-- Loading dimensions neither looks at the flag nor publishes. -/
theorem Effect.Loads.works {effect : Effect} (loads : effect.Loads) :
    effect ≠ .loadCancel ∧ ¬ effect.Publishes := by
  cases effect with
  | getBytes | listKeys | buildInlineRegistry | rowsFromCsv | newMatcher =>
    exact ⟨(fun impossible => nomatch impossible), id⟩
  | putObject | deleteObject | loadCancel | now | overflow | iterate
  | evaluate => exact absurd loads id

/-- Uploading data neither looks at the flag nor publishes. -/
theorem Effect.StoresData.works {effect : Effect} (stores : effect.StoresData) :
    effect ≠ .loadCancel ∧ ¬ effect.Publishes := by
  refine ⟨?_, ?_⟩
  · rintro rfl
    exact stores
  · intro publishes
    unfold Effect.StoresData at stores
    split at stores
    · exact publishes
    · exact stores

/-- From the publishing on, the flag is not read any more. -/
theorem Effect.Concludes.unread {effect : Effect} (concludes : effect.Concludes) :
    effect ≠ .loadCancel := by
  rintro rfl
  exact concludes

/-- The download loop is stopped by the flag and by nothing else. -/
theorem downloadAll_polls (candidates : List Text) (files : List (Text × Object)) :
    Polls (fun result => result = .error .cancelled) (downloadAll candidates files) := by
  induction candidates generalizing files with
  | nil => exact Or.inr ⟨(fun impossible => by cases impossible), rfl⟩
  | cons key rest inductionHypothesis =>
    simp only [downloadAll, perform, Program.perform_bind]
    rintro (_ | _) _
    · refine ⟨_, .proceeds, ?_⟩
      rintro (error | body) _
      · exact ⟨_, .works _ _ (fun impossible => by cases impossible) id, inductionHypothesis _⟩
      · exact ⟨_, .works _ _ (fun impossible => by cases impossible) id, inductionHypothesis _⟩
    · exact ⟨_, .stops, Or.inl ⟨rfl, rfl⟩⟩

/-- The mapping loop polls the flag at its head. -/
theorem runMappings_polls (config : PipelineConfig) (pipelinePrefix : Text)
    (files : List (Text × Object)) (mappings : List Mapping) (progress : Progress) :
    Polls (fun result => result = .error .cancelled)
      (runMappings config pipelinePrefix files mappings progress) := by
  induction mappings generalizing progress with
  | nil => exact Or.inr ⟨(fun impossible => by cases impossible), rfl⟩
  | cons mapping rest inductionHypothesis =>
    simp only [runMappings, perform, Program.perform_bind]
    rintro (_ | _) _
    · refine ⟨_, .proceeds, ?_⟩
      simp only [Bool.false_eq_true, ↓reduceIte]
      split
      · exact inductionHypothesis _
      split
      · exact inductionHypothesis _
      intro evaluation _
      refine ⟨_, .works _ _ (fun impossible => by cases impossible) id, ?_⟩
      cases evaluation with
      | failed | panicked => exact inductionHypothesis _
      | partitions outputs dropped =>
        refine Program.follows_bind (Program.follows_mono (follows_working (Program.calls_mono
          (applyMapping_stores mapping outputs dropped progress)
            (fun _ => Effect.StoresData.works))) ?_)
        rintro _ _ rfl
        exact inductionHypothesis _
    · exact ⟨_, .stops, Or.inl ⟨rfl, rfl⟩⟩

end Polls

/-- A run reads the flag at the heads of its loops only. It ends cancelled exactly when
one of these found it set. -/
theorem executeJob_polls {loaded : Except JobError PipelineConfig}
    (sourced : loaded ≠ .error .cancelled)
    (pipelinePrefix : Text) (cleanRun : Bool) :
    Program.Follows (fun _ _ => True) Polling
      (fun result stage => result = .error .cancelled ↔ stage = .stopped)
      (executeJob loaded pipelinePrefix cleanRun) .working := by
  have uncancelled : ∀ {α : Type} {error : JobError}, error ≠ .cancelled →
      ((.error error : Except JobError α) = .error .cancelled ↔ RunStage.working = .stopped) :=
    fun different => ⟨fun same => absurd (Except.error.inj same) different,
      fun impossible => nomatch impossible⟩
  rcases loaded with error | config
  · exact uncancelled (fun same => sourced (by rw [same]))
  -- The tables are opened.
  have opened : (openTables pipelinePrefix cleanRun config.analyticTables ∅).Returns
      (fun result => result ≠ .error .cancelled) := openTables_returns (by simp) _ _ _ _
  refine Program.follows_bind (Program.follows_mono (Program.follows_and (follows_working
    (Program.calls_mono (openTables_reads pipelinePrefix cleanRun config.analyticTables ∅)
      (fun _ => Effect.Reads.works))) opened) ?_)
  rintro (error | publishes) _ ⟨rfl, differs⟩
  · exact uncancelled (fun same => differs (by rw [same]))
  -- The sources are listed and downloaded.
  refine Program.follows_bind (Program.follows_mono (follows_working
    (Program.calls_mono (listSources_reads config.sourceContainers [])
      (fun _ => Effect.Reads.works))) ?_)
  rintro candidates _ rfl
  refine Program.follows_bind (Program.follows_mono (downloadAll_polls candidates []) ?_)
  rintro (error | files) _ (⟨same, rfl⟩ | ⟨differs, rfl⟩)
  · rw [Except.error.inj same]
    exact ⟨fun _ => rfl, fun _ => rfl⟩
  · exact uncancelled (fun same => differs (by rw [same]))
  · exact nomatch same
  simp only
  split
  · exact uncancelled (fun impossible => nomatch impossible)
  -- The dimensions are built.
  have loads : (loadDimensions config.dimensions).Returns
      (fun result => result ≠ .error .cancelled) := loadDimensions_returns (by simp) _
  refine Program.follows_bind (Program.follows_mono (Program.follows_and (follows_working
    (Program.calls_mono (loadDimensions_loads config.dimensions) (fun _ => Effect.Loads.works)))
    loads) ?_)
  rintro (error | ⟨⟩) _ ⟨rfl, differs⟩
  · exact uncancelled (fun same => differs (by rw [same]))
  -- The mappings are evaluated and the tables published.
  refine Program.follows_bind (Program.follows_mono (runMappings_polls config pipelinePrefix files
    config.mappings _) ?_)
  rintro (error | progress) _ (⟨same, rfl⟩ | ⟨differs, rfl⟩)
  · rw [Except.error.inj same]
    exact ⟨fun _ => rfl, fun _ => rfl⟩
  · exact uncancelled (fun same => differs (by rw [same]))
  · exact nomatch same
  simp only [perform, Program.perform_bind]
  intro order _
  refine ⟨_, .concludes _ order,
    Program.follows_bind (Program.follows_mono (Program.follows_of_calls
    (publishTables_concludes _ _ _) RunStage.concluding
    (fun _ reply concludes => Polling.publishes _ reply concludes.unread)) ?_)⟩
  rintro errors _ rfl
  exact ⟨fun impossible => (nomatch impossible), fun impossible => nomatch impossible⟩

/-! ## Traces of runs -/

/-- From a stopped run nothing follows. -/
theorem path_stopped {events : List (Event Effect Reply)} {stage : RunStage}
    (path : Program.Path Polling .stopped events stage) : events = [] ∧ stage = .stopped := by
  cases path with
  | nil => exact ⟨rfl, rfl⟩
  | cons moved _ => exact nomatch moved

/-- A concluding run does not read the flag. -/
theorem path_concluding {events : List (Event Effect Reply)} {stage : RunStage}
    (path : Program.Path Polling .concluding events stage) :
    stage = .concluding ∧ ∀ event ∈ events, event.1 ≠ .loadCancel := by
  generalize isConcluding : RunStage.concluding = start at path
  induction path with
  | nil => exact ⟨rfl, fun _ impossible => nomatch impossible⟩
  | cons moved _ inductionHypothesis =>
    subst isConcluding
    cases moved with
    | publishes effect reply unread =>
      obtain ⟨concludes, rest⟩ := inductionHypothesis rfl
      exact ⟨concludes, List.forall_mem_cons.mpr ⟨unread, rest⟩⟩

/-- A run at work ends stopped, with a set flag as the last event and nothing published,
or never finds the flag set. -/
theorem path_working {events : List (Event Effect Reply)} {stage : RunStage}
    (path : Program.Path Polling .working events stage) :
    (stage = .stopped ∧ ⟨.loadCancel, true⟩ ∈ events ∧ ∀ event ∈ events, ¬ event.1.Publishes) ∨
      (stage ≠ .stopped ∧ ⟨.loadCancel, true⟩ ∉ events) := by
  generalize isWorking : RunStage.working = start at path
  induction path with
  | nil =>
    subst isWorking
    exact Or.inr ⟨(fun impossible => nomatch impossible), List.not_mem_nil⟩
  | @cons _ _ _ op reply events moved rest inductionHypothesis =>
    subst isWorking
    cases moved with
    | proceeds =>
      refine (inductionHypothesis rfl).imp ?_ ?_
      · exact fun ⟨stopped, found, silent⟩ => ⟨stopped, List.mem_cons_of_mem _ found,
          List.forall_mem_cons.mpr ⟨id, silent⟩⟩
      · exact fun ⟨goesOn, unset⟩ => ⟨goesOn, by simpa using unset⟩
    | stops =>
      obtain ⟨rfl, rfl⟩ := path_stopped rest
      refine Or.inl ⟨rfl, List.mem_singleton_self _, fun event member => ?_⟩
      rw [List.mem_singleton.mp member]
      exact id
    | works effect reply unread unpublished =>
      refine (inductionHypothesis rfl).imp ?_ ?_
      · exact fun ⟨stopped, found, silent⟩ => ⟨stopped, List.mem_cons_of_mem _ found,
          List.forall_mem_cons.mpr ⟨unpublished, silent⟩⟩
      · refine fun ⟨goesOn, unset⟩ => ⟨goesOn, fun member => ?_⟩
        rcases List.mem_cons.mp member with same | later
        · exact unread (congrArg Sigma.fst same).symm
        · exact unset later
    | concludes ids order =>
      obtain ⟨rfl, unread⟩ := path_concluding rest
      refine Or.inr ⟨(fun impossible => nomatch impossible), fun member => ?_⟩
      rcases List.mem_cons.mp member with same | later
      · exact nomatch congrArg Sigma.fst same
      · exact unread _ later rfl

/-- A run whose flag is set at some moment ends cancelled, without a trace in the
warehouse but for data files, exactly when it reads the flag at that moment or later. -/
theorem cancels_iff {loaded : Except JobError PipelineConfig} {pipelinePrefix : Text} {cleanRun : Bool}
    {permits : Buckets → Effect → Answer → Prop} {buckets final : Buckets}
    {events : List (Event Effect Reply)} {result : Except JobError JobOutcome} {moment : Nat}
    (sourced : loaded ≠ .error .cancelled)
    (completed : Program.Completes (Given permits) (executeJob loaded pipelinePrefix cleanRun) buckets
      events result final)
    (isSet : SetAt moment events) : EndsCancelled events result ↔ ReadFrom moment events := by
  obtain ⟨stage, ends, path⟩ := Program.follows_completes
    (executeJob_polls sourced pipelinePrefix cleanRun) (fun _ _ _ _ _ => trivial) completed
  rcases path_working path with ⟨rfl, found, silent⟩ | ⟨goesOn, unset⟩
  · obtain ⟨index, isEvent⟩ := List.mem_iff_getElem?.mp found
    exact ⟨fun _ => ⟨index, true, isEvent, (isSet index true isEvent).mp rfl⟩,
      fun _ => ⟨ends.mpr rfl, silent⟩⟩
  · constructor
    · exact fun cancelled => absurd (ends.mp cancelled.cancelled) goesOn
    · rintro ⟨index, reply, isEvent, later⟩
      obtain rfl := (isSet index reply isEvent).mpr later
      exact absurd (List.mem_of_getElem? isEvent) unset

/-! ## Two runs -/

section Small

/-- A run of the small configuration. -/
abbrev smallExecution : Job (Except JobError JobOutcome) :=
  executeJob (.ok smallConfig) "p/".toList false

/-- A configuration that was found is not the error of a cancelled run. -/
theorem small_sourced : (.ok smallConfig : Except JobError PipelineConfig) ≠ .error .cancelled :=
  fun impossible => nomatch impossible

/-- Every reading of the flag finds it as the moment says. -/
def setAtCheck (moment : Nat) (events : List (Event Effect Reply)) : Bool :=
  events.zipIdx.all (fun numbered =>
    match numbered.1 with
    | ⟨.loadCancel, reply⟩ => decide (reply = true ↔ moment ≤ numbered.2)
    | _ => true)

/-- The check decides when the flag is set. -/
theorem setAt_of_check {moment : Nat} {events : List (Event Effect Reply)}
    (checked : setAtCheck moment events = true) : SetAt moment events := by
  intro index reply isEvent
  have holds := List.all_eq_true.mp checked _ (List.mk_mem_zipIdx_iff_getElem?.mpr isEvent)
  exact of_decide_eq_true holds

/-- The check decides whether nothing is published before the moment. -/
theorem beforePublish_of_check {moment : Nat} {events : List (Event Effect Reply)}
    (checked : events.zipIdx.all (fun numbered =>
      decide (numbered.1.1.Publishes → moment ≤ numbered.2)) = true) :
        BeforePublish moment events := by
  intro index event isEvent publishes
  have holds := List.all_eq_true.mp checked _ (List.mk_mem_zipIdx_iff_getElem?.mpr isEvent)
  exact of_decide_eq_true holds publishes

/-- A run whose flag is set before its download ends cancelled. -/
theorem cancels_iff_download : ∃ events result, SetAt 2 events ∧ ReadFrom 2 events ∧
    EndsCancelled events result := by
  have checked : (execute smallExecution smallBuckets [.refused [], .served, .flag true]).any
    (fun run =>
      setAtCheck 2 run.1 = true ∧
        run.1.any (fun event => match event with
          | ⟨.loadCancel, reply⟩ => reply
          | _ => false) = true) = true := by
    decide +kernel
  obtain ⟨⟨events, result, final⟩, runs, checked⟩ := (Option.any_eq_true _ _).mp checked
  obtain ⟨isSet, reads⟩ := of_decide_eq_true checked
  have isSet := setAt_of_check isSet
  have readFrom : ReadFrom 2 events := by
    obtain ⟨⟨effect, reply⟩, member, found⟩ := List.any_eq_true.mp reads
    obtain ⟨index, isEvent⟩ := List.mem_iff_getElem?.mp member
    split at found
    · next reply same =>
      obtain ⟨⟩ := same
      exact ⟨index, reply, isEvent, (isSet index reply isEvent).mp found⟩
    · exact nomatch found
  exact ⟨events, result, isSet, readFrom,
    (cancels_iff small_sourced (execute_completes runs) isSet).mpr readFrom⟩

/-- If the flag is set while the last mapping is evaluated, the run ends as if it were
not. -/
theorem late_cancel_publishes :
    ¬ ∀ loaded pipelinePrefix cleanRun buckets events result final moment,
      loaded ≠ .error .cancelled →
      Program.Completes (Given (fun _ _ _ => True)) (executeJob loaded pipelinePrefix cleanRun) buckets
        events result final →
      SetAt moment events → BeforePublish moment events → EndsCancelled events result := by
  intro claim
  have checked :
    (execute smallExecution smallBuckets (toUpload [.refused []] ⟨"t/m.parquet".toList, [1]⟩ ++
      toPublish 2 ++ [.served, .served])).any (fun run =>
        setAtCheck 6 run.1 = true ∧
        run.1.zipIdx.all (fun numbered => decide (numbered.1.1.Publishes → 6 ≤ numbered.2)) = true ∧
        run.1.any (fun event => decide event.1.Publishes) = true) = true := by
    decide +kernel
  obtain ⟨⟨events, result, final⟩, runs, checked⟩ := (Option.any_eq_true _ _).mp checked
  obtain ⟨isSet, before, publishes⟩ := of_decide_eq_true checked
  have cancelled := claim _ _ _ _ _ _ _ 6 small_sourced
    (execute_completes runs) (setAt_of_check isSet) (beforePublish_of_check before)
  obtain ⟨event, member, published⟩ := List.any_eq_true.mp publishes
  exact cancelled.unpublished event member (of_decide_eq_true published)

end Small

end KaretWorker
