import KaretWorker.Executions
import KaretWorker.Uploads

/-!
# Drafts of a table

Between reading a table's manifest and putting the next one, a run holds a list of files: the
files it started from, with those of each mapping that succeeded replaced by what the run has
uploaded for the mapping. `Draft` and `DraftMove` follow one table through a run with the
contents that were put.

The manifest that is put is `Assembled`: each mapping's files are those of the manifest read,
or were all put by this run, with rows that differ. What the rows of a file are, and which
mapping's output a key names, is left open here.
-/
namespace KaretWorker

open Texts Interaction

/-- How far a run has got with one table. `written` holds the contents the run knows it has put,
by relative key. -/
inductive Draft where
  | idle
  | pointed (version : Nat)
  | drafting (version : Nat) (base : List ManifestFile) (written : Text → Option (List UInt8))
  | staged (version : Nat)
  | closed

/-- The files of a mapping in a list. -/
def filesOf (mappingId : Text) (files : List ManifestFile) : List ManifestFile :=
  files.filter (fun file => file.mappingId = mappingId)

/-- What is shown of one file: the rows that its content stands for, under its key. -/
structure Display (τ : Type) where
  rows : Text → List UInt8 → List τ
  owner : Text → Option Text

variable {τ : Type} (display : Display τ)

/-- The rows of the files, by what is found under their keys. -/
def Display.rowsIn (content : Text → Option (List UInt8)) (files : List ManifestFile) : List τ :=
  files.flatMap (fun file =>
    match content file.key with
    | some bytes => display.rows file.key bytes
    | none => [])

/-- All files were put for the mapping, and their rows differ. -/
structure Made (written : Text → Option (List UInt8)) (mappingId : Text)
    (files : List ManifestFile) : Prop where
  owned : ∀ file ∈ files, display.owner file.key = some mappingId
  put : ∀ file ∈ files, (written file.key).isSome = true
  distinct : (display.rowsIn written files).Nodup

/-- The files of each mapping are the ones the run started from, or were made by the run. Those
of a pending mapping were not made yet. -/
def Assembled (pending : List Text) (base : List ManifestFile)
    (written : Text → Option (List UInt8)) (files : List ManifestFile) : Prop :=
  ∀ mappingId, (filesOf mappingId files).Perm (filesOf mappingId base) ∨
    (mappingId ∉ pending ∧ Made display written mappingId (filesOf mappingId files))

/-- The moves of a run with one table. Everything that leaves the table's objects alone leaves
the draft alone. -/
inductive DraftMove (table : Text) : Draft → (effect : Effect) → Reply effect → Draft → Prop where
  | quiet (draft : Draft) (effect : Effect) (reply : Reply effect)
      (quiet : ¬ Changes table effect) : DraftMove table draft effect reply draft
  | pointed (pointer : CurrentPointer) :
      DraftMove table .idle (.getBytes .warehouse (table ++ currentKey)) (.ok (.pointer pointer))
        (.pointed pointer.version)
  | unpublished (error : Text) :
      DraftMove table .idle (.getBytes .warehouse (table ++ currentKey)) (.error error)
        (.drafting 1 [] (fun _ => none))
  | opened (version : Nat) (manifest : TableManifest) (base : List ManifestFile)
      (bounded : manifest.version + 1 < u64Bound) (among : base = manifest.files ∨ base = []) :
      DraftMove table (.pointed version) (.getBytes .warehouse (table ++ manifestKey version))
        (.ok (.manifest manifest)) (.drafting (manifest.version + 1) base (fun _ => none))
  | uploaded (version : Nat) (base : List ManifestFile) (written : Text → Option (List UInt8))
      (path : Text) (bytes : List UInt8) (key : Text)
      (placed : key = table ++ (versionPrefix version ++ path)) (reply : Except Text Unit) :
      DraftMove table (.drafting version base written) (.putObject .warehouse key (.data bytes)) reply
        (.drafting version base (Function.update written (versionPrefix version ++ path)
          (if reply = .ok () then some bytes else none)))
  | staged (version : Nat) (base : List ManifestFile) (written : Text → Option (List UInt8))
      (manifest : TableManifest) (numbered : manifest.version = version)
      (assembled : Assembled display [] base written manifest.files) :
      DraftMove table (.drafting version base written)
        (.putObject .warehouse (table ++ manifestKey version) (.manifest manifest)) (.ok ())
        (.staged version)
  | unstaged (version : Nat) (base : List ManifestFile) (written : Text → Option (List UInt8))
      (manifest : TableManifest) (error : Text) :
      DraftMove table (.drafting version base written)
        (.putObject .warehouse (table ++ manifestKey version) (.manifest manifest)) (.error error)
        .closed
  | flipped (version : Nat) (reply : Except Text Unit) :
      DraftMove table (.staged version)
        (.putObject .warehouse (table ++ currentKey) (.pointer ⟨version⟩)) reply .closed
  | deleted (key : Text) (spared : key ≠ currentKey) (reply : Except Text Unit) :
      DraftMove table .closed (.deleteObject .warehouse (table ++ key)) reply .closed

/-- The outputs of a mapping have keys of their own, and rows that differ. -/
structure FitsDisplay (mappingId : Text) (outputs : List PartitionOutput) (version : Nat) : Prop where
  keys : (outputs.map (fun output => (recordedFile version mappingId output).key)).Nodup
  owned : ∀ output ∈ outputs,
    display.owner (recordedFile version mappingId output).key = some mappingId
  distinct : (outputs.flatMap (fun output =>
    display.rows (recordedFile version mappingId output).key output.bytes)).Nodup

/-- What the replies to a run satisfy: they are genuine, and the outputs for the table fit. -/
def Displayed (id : Text) (effect : Effect) (reply : Reply effect) : Prop :=
  Genuine effect reply ∧
    match effect, reply with
    | .evaluate mapping (some table) _, .partitions outputs _ =>
      table.id = id → ∀ version, FitsDisplay display mapping.id outputs version
    | _, _ => True

/-- Following the draft of one table, for every such reply. -/
abbrev Drafts (pipelinePrefix id : Text) {α : Type} (post : α → Draft → Prop) (job : Job α)
    (draft : Draft) : Prop :=
  Program.Follows (Displayed display id) (DraftMove display (tablePrefix pipelinePrefix id)) post job
    draft

/-! ## Assembling a file list -/

section Assembled

variable {display} {pending : List Text} {base files : List ManifestFile} {mappingId : Text}
  {written written' : Text → Option (List UInt8)}

/-- The rows of files depend on the contents of their keys only. -/
theorem rowsIn_congr {content content' : Text → Option (List UInt8)}
    (same : ∀ file ∈ files, content file.key = content' file.key) :
    display.rowsIn content files = display.rowsIn content' files := by
  unfold Display.rowsIn
  exact List.flatMap_congr (fun file member => by rw [same file member])

/-- Reordering files reorders their rows. -/
theorem rowsIn_perm {content : Text → Option (List UInt8)} {reordered : List ManifestFile}
    (same : files.Perm reordered) :
    (display.rowsIn content files).Perm (display.rowsIn content reordered) :=
  same.flatMap_right _

/-- The order of a mapping's files does not matter. -/
theorem Made.perm {reordered : List ManifestFile} (made : Made display written mappingId files)
    (same : files.Perm reordered) : Made display written mappingId reordered where
  owned := fun file member => made.owned file (same.mem_iff.mpr member)
  put := fun file member => made.put file (same.mem_iff.mpr member)
  distinct := (rowsIn_perm same).nodup_iff.mp made.distinct

/-- A list assembled for more pending mappings is assembled for fewer. -/
theorem Assembled.settle {fewer : List Text}
    (assembled : Assembled display pending base written files) (among : fewer ⊆ pending) :
    Assembled display fewer base written files :=
  fun mappingId => (assembled mappingId).imp_right
    (fun made => ⟨fun member => made.1 (among member), made.2⟩)

/-- Putting keys of a pending mapping leaves a list assembled. -/
theorem Assembled.rewrite (assembled : Assembled display pending base written files)
    (isPending : mappingId ∈ pending)
    (elsewhere : ∀ key, display.owner key ≠ some mappingId → written' key = written key) :
    Assembled display pending base written' files := by
  intro other
  rcases assembled other with kept | ⟨settled, made⟩
  · exact Or.inl kept
  · have different : other ≠ mappingId := fun same => settled (same ▸ isPending)
    have same : ∀ file ∈ filesOf other files, written' file.key = written file.key := by
      intro file member
      refine elsewhere _ (fun owned => different ?_)
      exact Option.some.inj ((made.owned file member).symm.trans owned)
    refine Or.inr ⟨settled, made.owned, fun file member => ?_, ?_⟩
    · rw [same file member]
      exact made.put file member
    · rw [rowsIn_congr same]
      exact made.distinct

/-- The files of a mapping in a list are those in its parts. -/
theorem filesOf_append (left right : List ManifestFile) :
    filesOf mappingId (left ++ right) = filesOf mappingId left ++ filesOf mappingId right :=
  List.filter_append _ _

/-- The writes of a mapping take the place of its files. -/
theorem filesOf_applyMappingWrites {made : List ManifestFile}
    (own : ∀ file ∈ made, file.mappingId = mappingId) (other : Text) :
    (filesOf other (applyMappingWrites files mappingId made)).Perm
      (if other = mappingId then made else filesOf other files) := by
  have sorted : (filesOf other (applyMappingWrites files mappingId made)).Perm
      (filesOf other (files.filter (fun file => file.mappingId ≠ mappingId) ++ made)) :=
    (List.perm_insertionSort _ _).filter _
  refine sorted.trans (List.Perm.of_eq ?_)
  rw [filesOf_append, filesOf, filesOf, List.filter_filter]
  split
  · next same =>
    subst same
    have none : files.filter (fun file => decide (file.mappingId = other) &&
        decide (file.mappingId ≠ other)) = [] :=
      List.filter_eq_nil_iff.mpr (by simp)
    rw [none, List.nil_append]
    exact List.filter_eq_self.mpr (fun file member => decide_eq_true (own file member))
  · next different =>
    have nothing : made.filter (fun file => file.mappingId = other) = [] := by
      refine List.filter_eq_nil_iff.mpr (fun file member isOther => different ?_)
      exact (of_decide_eq_true isOther).symm.trans (own file member)
    rw [nothing, List.append_nil, filesOf]
    refine List.filter_congr (fun file _ => ?_)
    by_cases isOther : file.mappingId = other
    · simp [isOther, different]
    · simp [isOther]

/-- A list stays assembled when a pending mapping's files are replaced by what was made. -/
theorem Assembled.replace {made : List ManifestFile} {rest : List Text}
    (assembled : Assembled display (mappingId :: rest) base written files)
    (later : mappingId ∉ rest) (own : ∀ file ∈ made, file.mappingId = mappingId)
    (isMade : Made display written mappingId made) :
    Assembled display rest base written (applyMappingWrites files mappingId made) := by
  intro other
  have replaced : (filesOf other (applyMappingWrites files mappingId made)).Perm
      (if other = mappingId then made else filesOf other files) :=
        filesOf_applyMappingWrites own other
  split at replaced
  · next same =>
    subst same
    exact Or.inr ⟨later, isMade.perm replaced.symm⟩
  · rcases assembled other with kept | ⟨settled, isMade'⟩
    · exact Or.inl (replaced.trans kept)
    · exact Or.inr
        ⟨fun member => settled (List.mem_cons_of_mem _ member), isMade'.perm replaced.symm⟩

end Assembled

/-! ## Opening the tables -/

/-- The publish state of a run agrees with the draft of one table. -/
structure Drafted (pipelinePrefix id : Text) (pending : List Text) (publishes : Publishes)
    (draft : Draft) : Prop where
  located : ∀ other entry, publishes.lookup other = some entry →
    (other = id ∨ Apart id other) ∧ entry.tablePrefix = tablePrefix pipelinePrefix other
  unopened : publishes.lookup id = none → draft = .idle
  opened : ∀ entry, publishes.lookup id = some entry → ∃ base written,
    draft = .drafting entry.version base written ∧
      Assembled display pending base written entry.files

section Following

variable {display} {pipelinePrefix id : Text} {pending : List Text} {publishes : Publishes}
  {draft : Draft}

/-- What leaves the table alone leaves its draft alone. -/
theorem drafts_foreign {α : Type} {job : Job α}
    (foreign : job.Calls (Foreign (tablePrefix pipelinePrefix id))) (draft : Draft) :
    Drafts display pipelinePrefix id (fun _ final => final = draft) job draft :=
  Program.follows_of_calls foreign draft
    (fun effect reply elsewhere => .quiet draft effect reply elsewhere.quiet)

/-- The entry of another table does not matter. -/
theorem Drafted.insert_other (drafted : Drafted display pipelinePrefix id pending publishes draft)
    {other : Text} {entry : TablePublish} (apart : Apart id other)
    (placed : entry.tablePrefix = tablePrefix pipelinePrefix other) :
    Drafted display pipelinePrefix id pending (publishes.insert other entry) draft where
  located := located_insert drafted.located (Or.inr apart) placed
  unopened := by
    rw [AList.lookup_insert_ne apart.1.symm]
    exact drafted.unopened
  opened := by
    rw [AList.lookup_insert_ne apart.1.symm]
    exact drafted.opened

/-- The entry of the table itself is drafted as its files are assembled. -/
theorem Drafted.insert_self {later : List Text}
    (drafted : Drafted display pipelinePrefix id pending publishes draft) {entry : TablePublish}
    (placed : entry.tablePrefix = tablePrefix pipelinePrefix id) {base : List ManifestFile}
    {written : Text → Option (List UInt8)}
    (assembled : Assembled display later base written entry.files) :
    Drafted display pipelinePrefix id later (publishes.insert id entry)
      (.drafting entry.version base written) where
  located := located_insert drafted.located (Or.inl rfl) placed
  unopened := by
    rw [AList.lookup_insert]
    exact fun impossible => nomatch impossible
  opened := by
    rw [AList.lookup_insert]
    rintro found ⟨⟩
    exact ⟨base, written, rfl, assembled⟩

/-- Fewer mappings may be pending. -/
theorem Drafted.settle {fewer : List Text}
    (drafted : Drafted display pipelinePrefix id pending publishes draft)
    (among : fewer ⊆ pending) :
    Drafted display pipelinePrefix id fewer publishes draft where
  located := drafted.located
  unopened := drafted.unopened
  opened := fun entry found => by
    obtain ⟨base, written, isDrafting, assembled⟩ := drafted.opened entry found
    exact ⟨base, written, isDrafting, assembled.settle among⟩

/-- The draft that reading a manifest begins. A clean run starts from no files. -/
def begun (cleanRun : Bool) (manifest : TableManifest) : Draft :=
  .drafting (manifest.version + 1) (if cleanRun then [] else manifest.files) (fun _ => none)

/-- Reading the manifest of a table begins its draft. -/
theorem readCurrent_drafts (pipelinePrefix id : Text) (cleanRun : Bool) :
    Drafts display pipelinePrefix id
      (fun result final => ∀ manifest, result = .ok manifest → manifest.version + 1 < u64Bound →
        final = begun cleanRun manifest)
      (readCurrent (tablePrefix pipelinePrefix id)) .idle := by
  rintro (error | (pointer | manifest | bytes)) _
  · refine ⟨_, .unpublished error, ?_⟩
    rintro manifest ⟨⟩ _
    rw [begun, TableManifest.empty, ite_self]
  · refine ⟨_, .pointed pointer, ?_⟩
    rintro (error | (other | manifest | bytes)) _
    · exact ⟨_, .quiet _ _ _ not_false, fun _ impossible => nomatch impossible⟩
    · exact ⟨_, .quiet _ _ _ not_false, fun _ impossible => nomatch impossible⟩
    · by_cases bounded : manifest.version + 1 < u64Bound
      · refine ⟨begun cleanRun manifest, .opened _ manifest _ bounded ?_, ?_⟩
        · cases cleanRun with
          | true => exact Or.inr rfl
          | false => exact Or.inl rfl
        · rintro read ⟨⟩ _
          rfl
      · refine ⟨_, .quiet _ _ _ not_false, ?_⟩
        rintro read ⟨⟩ within
        exact absurd within bounded
    · exact ⟨_, .quiet _ _ _ not_false, fun _ impossible => nomatch impossible⟩
  · exact ⟨_, .quiet _ _ _ not_false, fun _ impossible => nomatch impossible⟩
  · exact ⟨_, .quiet _ _ _ not_false, fun _ impossible => nomatch impossible⟩

/-- Opening tables with different ids begins the draft of each. -/
theorem openTables_drafts (plain : '/' ∉ id) (cleanRun : Bool) (tables : List AnalyticTable)
    (separate : ∀ table ∈ tables, table.id = id ∨ Apart id table.id)
    (distinct : (tables.map AnalyticTable.id).Nodup)
    (drafted : Drafted display pipelinePrefix id pending publishes draft)
    (fresh : ∀ table ∈ tables, publishes.lookup table.id = none) :
    Drafts display pipelinePrefix id
      (fun result final => ∀ opened, result = .ok opened →
        Drafted display pipelinePrefix id pending opened final)
      (openTables pipelinePrefix cleanRun tables publishes) draft := by
  induction tables generalizing publishes draft with
  | nil =>
    rintro opened ⟨⟩
    exact drafted
  | cons table rest inductionHypothesis =>
    rw [List.map_cons, List.nodup_cons] at distinct
    rw [List.forall_mem_cons] at separate fresh
    have stillFresh : ∀ entry, ∀ other ∈ rest,
        (publishes.insert table.id entry).lookup other.id = none := by
      intro entry other member
      have different : other.id ≠ table.id :=
        fun same => distinct.1 (same ▸ List.mem_map_of_mem member)
      rw [AList.lookup_insert_ne different]
      exact fresh.2 other member
    rcases separate.1 with same | apart
    · rw [same] at fresh stillFresh
      obtain rfl := drafted.unopened fresh.1
      rw [openTables, same]
      refine Program.follows_bind (Program.follows_mono
        (readCurrent_drafts pipelinePrefix id cleanRun) ?_)
      rintro (error | manifest) final opened
      · exact fun _ impossible => by cases impossible
      · by_cases bounded : manifest.version + 1 < u64Bound
        · simp only [nextVersion, bounded, ↓reduceIte, Program.pure_def, Program.done_bind]
          rw [opened manifest rfl bounded, begun]
          exact inductionHypothesis separate.2 distinct.2 (drafted.insert_self rfl
            (fun mappingId => Or.inl (List.Perm.refl _))) (stillFresh _)
        · simp only [nextVersion, bounded, ↓reduceIte]
          exact fun never => by cases never
    · have elsewhere : (readCurrent (tablePrefix pipelinePrefix table.id)).Calls
          (Foreign (tablePrefix pipelinePrefix id)) := readCurrent_foreign plain apart
      refine Program.follows_bind (Program.follows_mono (drafts_foreign elsewhere draft) ?_)
      rintro (error | manifest) after rfl
      · exact fun _ impossible => by cases impossible
      · by_cases bounded : manifest.version + 1 < u64Bound
        · simp only [nextVersion, bounded, ↓reduceIte, Program.pure_def, Program.done_bind]
          exact inductionHypothesis separate.2 distinct.2 (drafted.insert_other apart rfl)
            (stillFresh _)
        · simp only [nextVersion, bounded, ↓reduceIte]
          exact fun never => by cases never

/-! ## Uploading one mapping -/

/-- Partitions of the table are put for the next version, under the keys that are recorded. -/
theorem uploadPartitions_drafts (plain : '/' ∉ id) (version : Nat) (mappingId : Text)
    (base : List ManifestFile) (outputs : List PartitionOutput)
    (shaped : ∀ output ∈ outputs, ∃ segments, output.key = partitionKey id segments mappingId)
    (distinct : (outputs.map (fun output => (recordedFile version mappingId output).key)).Nodup)
    (accumulated : List ManifestFile) (written : Text → Option (List UInt8)) :
    Drafts display pipelinePrefix id
      (fun result final => ∃ written', final = .drafting version base written' ∧
        (∀ key, key ∉ outputs.map (fun output => (recordedFile version mappingId output).key) →
          written' key = written key) ∧
        ∀ files, result = .ok files →
          files = accumulated ++ outputs.map (recordedFile version mappingId) ∧
            ∀ output ∈ outputs,
              written' (recordedFile version mappingId output).key = some output.bytes)
      (uploadPartitions pipelinePrefix version mappingId outputs accumulated)
      (.drafting version base written) := by
  induction outputs generalizing accumulated written with
  | nil =>
    refine ⟨written, rfl, fun _ _ => rfl, ?_⟩
    rintro files ⟨⟩
    exact ⟨(List.append_nil _).symm, fun _ impossible => absurd impossible List.not_mem_nil⟩
  | cons output rest inductionHypothesis =>
    rw [List.forall_mem_cons] at shaped
    rw [List.map_cons, List.nodup_cons] at distinct
    obtain ⟨⟨segments, key⟩, restShaped⟩ := shaped
    have halves : splitOnce '/' output.key = some (id, (keyHalves output).2) := by
      rw [keyHalves, key, partitionKey, split_join plain, Option.getD_some]
    have placed : pipelinePrefix ++ id ++ '/' :: (versionPrefix version ++ (keyHalves output).2) =
        tablePrefix pipelinePrefix id ++ (versionPrefix version ++ (keyHalves output).2) := by
      rw [tablePrefix, List.append_assoc _ ['/'], List.singleton_append]
    unfold uploadPartitions
    rw [halves]
    rintro (error | ⟨⟩) _
    · refine ⟨_, .uploaded version base written _ output.bytes _ placed _, _, rfl, ?_,
        fun _ impossible => by cases impossible⟩
      intro other elsewhere
      rw [List.map_cons, List.mem_cons, not_or] at elsewhere
      exact Function.update_of_ne elsewhere.1 _ _
    · refine ⟨_, .uploaded version base written _ output.bytes _ placed _, ?_⟩
      refine Program.follows_mono (inductionHypothesis restShaped distinct.2 _ _) ?_
      rintro result final ⟨written', isDrafting, elsewhere, success⟩
      refine ⟨written', isDrafting, fun other apart => ?_, fun files isOk => ?_⟩
      · rw [List.map_cons, List.mem_cons, not_or] at apart
        rw [elsewhere other apart.2]
        exact Function.update_of_ne apart.1 _ _
      · obtain ⟨areFiles, put⟩ := success files isOk
        refine ⟨by rw [areFiles, List.append_assoc]; rfl, List.forall_mem_cons.mpr ⟨?_, put⟩⟩
        rw [elsewhere _ distinct.1, if_pos rfl]
        exact Function.update_self _ _ _

/-- Fitting outputs that were all put make the mapping's files. -/
theorem made_of_fits {version : Nat} {mappingId : Text} {outputs : List PartitionOutput}
    {written : Text → Option (List UInt8)} (fits : FitsDisplay display mappingId outputs version)
    (put : ∀ output ∈ outputs, written (recordedFile version mappingId output).key =
      some output.bytes) :
    Made display written mappingId (outputs.map (recordedFile version mappingId)) where
  owned := by
    intro file member
    obtain ⟨output, isOutput, rfl⟩ := List.mem_map.mp member
    exact fits.owned output isOutput
  put := by
    intro file member
    obtain ⟨output, isOutput, rfl⟩ := List.mem_map.mp member
    rw [put output isOutput]
    rfl
  distinct := by
    have sameRows : display.rowsIn written (outputs.map (recordedFile version mappingId)) =
        outputs.flatMap (fun output =>
          display.rows (recordedFile version mappingId output).key output.bytes) := by
      rw [Display.rowsIn, List.flatMap_map]
      exact List.flatMap_congr (fun output isOutput => by rw [put output isOutput])
    rw [sameRows]
    exact fits.distinct

/-- Applying a mapping's partitions settles the mapping. -/
theorem applyMapping_drafts (plain : '/' ∉ id) {rest : List Text} (mapping : Mapping)
    (later : mapping.id ∉ rest) (outputs : List PartitionOutput) (dropped : Nat)
    (progress : Progress) (shaped : ∀ output ∈ outputs, ∃ segments,
      output.key = partitionKey mapping.analyticTableId segments mapping.id)
    (fits : mapping.analyticTableId = id → ∀ version,
      FitsDisplay display mapping.id outputs version)
    (drafted : Drafted display pipelinePrefix id (mapping.id :: rest) progress.publishes draft) :
    Drafts display pipelinePrefix id
      (fun result final => Drafted display pipelinePrefix id rest result.publishes final)
      (applyMapping pipelinePrefix mapping outputs dropped progress) draft := by
  have among : rest ⊆ mapping.id :: rest := List.subset_cons_self _ _
  unfold applyMapping
  cases found : progress.publishes.lookup mapping.analyticTableId with
  | none => exact drafted.settle among
  | some entry =>
    obtain ⟨same | apart, placed⟩ := drafted.located _ _ found
    · rw [same] at found shaped placed
      obtain ⟨base, written, rfl, assembled⟩ := drafted.opened entry found
      have fits := fits same entry.version
      refine Program.follows_bind (Program.follows_mono (uploadPartitions_drafts plain entry.version
        mapping.id base outputs shaped fits.keys [] written) ?_)
      have rewritten : ∀ written' : Text → Option (List UInt8),
          (∀ key, key ∉ outputs.map (fun output =>
            (recordedFile entry.version mapping.id output).key) → written' key = written key) →
          Assembled display (mapping.id :: rest) base written' entry.files := by
        intro written' elsewhere
        refine assembled.rewrite List.mem_cons_self
          (fun key foreign => elsewhere key (fun own => ?_))
        obtain ⟨output, isOutput, rfl⟩ := List.mem_map.mp own
        exact foreign (fits.owned output isOutput)
      rintro (error | files) final ⟨written', rfl, elsewhere, success⟩
      · exact {
          located := drafted.located
          unopened := fun absent => nomatch found.symm.trans absent
          opened := by
            intro entry' lookup
            obtain ⟨⟩ := found.symm.trans lookup
            exact ⟨base, written', rfl, (rewritten written' elsewhere).settle among⟩ }
      · obtain ⟨rfl, put⟩ := success files rfl
        rw [same]
        refine @Drafted.insert_self _ _ _ _ _ _ _ rest drafted { entry with
          files := applyMappingWrites entry.files mapping.id
            ([] ++ outputs.map (recordedFile entry.version mapping.id)), touched := true }
          placed base written' ?_
        rw [List.nil_append]
        refine (rewritten written' elsewhere).replace later (fun file member => ?_)
          (made_of_fits fits put)
        obtain ⟨output, _, rfl⟩ := List.mem_map.mp member
        rfl
    · have elsewhere : (uploadPartitions pipelinePrefix entry.version mapping.id outputs []).Calls
          (Foreign (tablePrefix pipelinePrefix id)) :=
        uploadPartitions_foreign plain apart entry.version mapping.id outputs shaped []
      refine Program.follows_bind (Program.follows_mono (drafts_foreign elsewhere draft) ?_)
      rintro (error | files) after rfl
      · exact drafted.settle among
      · exact (drafted.settle among).insert_other apart placed

/-- The outputs that a mapping of the configuration evaluates to fit. -/
theorem evaluated_fits (config : PipelineConfig) (mapping : Mapping) {evaluated : Mapping}
    {files : List (Text × Object)} {outputs : List PartitionOutput} {dropped : Nat}
    (sameId : evaluated.id = mapping.id)
    (displayed : Displayed display id (.evaluate evaluated (config.tableOf mapping) files)
      (.partitions outputs dropped)) (targets : mapping.analyticTableId = id) (version : Nat) :
    FitsDisplay display mapping.id outputs version := by
  obtain ⟨⟨declared, found, _⟩, fits⟩ := displayed
  have named : declared.id = id := (config.tableOf_id found).trans targets
  rw [found] at fits
  rw [← sameId]
  exact fits named version

/-- The mapping loop settles all mappings. -/
theorem runMappings_drafts (plain : '/' ∉ id) (config : PipelineConfig)
    (files : List (Text × Object)) (mappings : List Mapping)
    (distinct : (mappings.map Mapping.id).Nodup) (progress : Progress)
    (drafted : Drafted display pipelinePrefix id (mappings.map Mapping.id)
      progress.publishes draft) :
    Drafts display pipelinePrefix id
      (fun result final => ∀ reached, result = .ok reached →
        Drafted display pipelinePrefix id [] reached.publishes final)
      (runMappings config pipelinePrefix files mappings progress) draft := by
  induction mappings generalizing progress draft with
  | nil =>
    rintro reached ⟨⟩
    exact drafted
  | cons mapping rest inductionHypothesis =>
    rw [List.map_cons, List.nodup_cons] at distinct
    have settled := drafted.settle (List.subset_cons_self mapping.id (rest.map Mapping.id))
    simp only [runMappings, perform, Program.perform_bind]
    rintro (_ | _) _
    · refine ⟨draft, .quiet draft _ _ not_false, ?_⟩
      simp only [Bool.false_eq_true, ↓reduceIte]
      split
      · exact inductionHypothesis distinct.2 progress settled
      · split
        · exact inductionHypothesis distinct.2 progress settled
        · rintro (⟨outputs, dropped⟩ | message | joinError) displayed
          · refine ⟨draft, .quiet draft _ _ not_false, ?_⟩
            have sameId := lookup_again config mapping
            refine Program.follows_bind (Program.follows_mono (applyMapping_drafts plain mapping
              distinct.1 outputs dropped progress
                (evaluated_shape config mapping sameId displayed.1)
              (evaluated_fits config mapping sameId displayed) drafted) ?_)
            exact fun reached after drafted => inductionHypothesis distinct.2 reached drafted
          · exact ⟨draft, .quiet draft _ _ not_false, inductionHypothesis distinct.2 _ settled⟩
          · exact ⟨draft, .quiet draft _ _ not_false, inductionHypothesis distinct.2 _ settled⟩
    · exact ⟨draft, .quiet draft _ _ not_false, fun _ impossible => by cases impossible⟩

/-! ## Publishing -/

/-- What a vacuum does leaves the table alone, or deletes an object other than the pointer. -/
def Vacuums (table : Text) (effect : Effect) : Prop :=
  ¬ Changes table effect ∨ ∃ key, key ≠ currentKey ∧ effect = .deleteObject .warehouse (table ++ key)

/-- Reading the retained manifests puts and deletes nothing. -/
theorem readRetained_vacuums (table : Text) (versions : List Nat) (retained : List TableManifest) :
    (readRetained table versions retained).Calls (Vacuums table) := by
  induction versions generalizing retained with
  | nil => trivial
  | cons version rest inductionHypothesis =>
    refine ⟨Or.inl not_false, ?_⟩
    rintro (error | (pointer | manifest | bytes))
    · trivial
    · trivial
    · exact inductionHypothesis _
    · trivial

/-- The deletions spare the pointer. -/
theorem deleteTargets_vacuums (table : Text) (targets : List Text)
    (spared : ∀ key ∈ targets, key ≠ currentKey) (deleted : Nat) :
    (deleteTargets table targets deleted).Calls (Vacuums table) := by
  induction targets generalizing deleted with
  | nil => trivial
  | cons key rest inductionHypothesis =>
    rw [List.forall_mem_cons] at spared
    refine ⟨Or.inr ⟨key, spared.1, rfl⟩, ?_⟩
    rintro (error | ⟨⟩)
    · exact inductionHypothesis spared.2 _
    · exact inductionHypothesis spared.2 _

/-- A vacuum never deletes the pointer. -/
theorem vacuum_vacuums (table : Text) (current : Nat) :
    (vacuum table current).Calls (Vacuums table) := by
  refine ⟨Or.inl not_false, ?_⟩
  rintro (error | keys)
  · trivial
  apply Program.calls_bind (readRetained_vacuums table _ _)
  rintro (error | retained)
  · trivial
  refine Program.calls_bind (deleteTargets_vacuums table (vacuumTargets _ current retained)
    (fun key target => ?_) 0) (fun _ => trivial)
  rcases List.mem_append.mp target with unreferenced | doomed
  · exact (mem_unreferencedKeys.mp unreferenced).2.2.1
  · obtain ⟨version, _, rfl⟩ := List.mem_map.mp doomed
    exact manifestKey_ne_currentKey version

/-- Publishing an assembled table puts its manifest, the pointer, and nothing more. -/
theorem publishTable_drafts {base : List ManifestFile} {written : Text → Option (List UInt8)}
    (tableId : Text) (entry : TablePublish) (errors : List Text)
    (placed : entry.tablePrefix = tablePrefix pipelinePrefix id)
    (assembled : Assembled display [] base written entry.files) :
    Drafts display pipelinePrefix id (fun _ _ => True) (publishTable tableId entry errors)
      (.drafting entry.version base written) := by
  simp only [publishTable, perform, Program.perform_bind]
  split
  · intro createdAt _
    refine ⟨_, .quiet _ _ _ not_false, ?_⟩
    rw [placed]
    let manifest : TableManifest := ⟨entry.version, createdAt, none, entry.files⟩
    rintro (error | ⟨⟩) _
    · exact ⟨_, .unstaged entry.version base written manifest error, trivial⟩
    refine ⟨_, .staged entry.version base written manifest rfl assembled, ?_⟩
    rintro (error | ⟨⟩) _
    · exact ⟨_, .flipped entry.version _, trivial⟩
    refine ⟨_, .flipped entry.version _, ?_⟩
    change Program.Follows _ _ _ (vacuum (tablePrefix pipelinePrefix id) entry.version >>= _) _
    refine Program.follows_bind (Program.follows_mono (Program.follows_of_calls
      (vacuum_vacuums (tablePrefix pipelinePrefix id) entry.version) Draft.closed ?_)
      (fun _ _ _ => trivial))
    rintro effect reply (quiet | ⟨key, spared, rfl⟩)
    · exact .quiet _ _ _ quiet
    · exact .deleted key spared _
  · trivial

/-- Publishing the tables, each at most once, puts the table's manifest as it was assembled. -/
theorem publishTables_drafts (plain : '/' ∉ id)
    (drafted : Drafted display pipelinePrefix id [] publishes draft) (order : List Text)
    (distinct : order.Nodup) (errors : List Text) :
    Drafts display pipelinePrefix id (fun _ _ => True)
    (publishTables publishes order errors) draft := by
  induction order generalizing errors with
  | nil => trivial
  | cons tableId rest inductionHypothesis =>
    obtain ⟨absent, restDistinct⟩ := List.nodup_cons.mp distinct
    unfold publishTables
    split
    · exact inductionHypothesis restDistinct errors
    · next entry found =>
      obtain ⟨rfl | apart, placed⟩ := drafted.located tableId entry found
      · obtain ⟨base, written, rfl, assembled⟩ := drafted.opened entry found
        refine Program.follows_bind (Program.follows_mono
          (publishTable_drafts tableId entry errors placed assembled) ?_)
        intro errors final _
        exact Program.follows_mono (drafts_foreign
          (publishTables_foreign plain drafted.located rest absent errors) final)
            (fun _ _ _ => trivial)
      · have elsewhere : (publishTable tableId entry errors).Calls
            (Foreign (tablePrefix pipelinePrefix id)) :=
          publishTable_foreign plain apart tableId entry errors placed
        refine Program.follows_bind (Program.follows_mono (drafts_foreign elsewhere draft) ?_)
        rintro errors after rfl
        exact inductionHypothesis restDistinct errors

/-- Every run follows the draft of a table with a slash-free id, if the configuration's other
tables lie apart from it and its ids are distinct. -/
theorem executeJob_drafts (plain : '/' ∉ id) (loaded : Except JobError PipelineConfig)
    (suited : ∀ config, loaded = .ok config →
      (∀ table ∈ config.analyticTables, table.id = id ∨ Apart id table.id) ∧
        (config.analyticTables.map AnalyticTable.id).Nodup ∧
          (config.mappings.map Mapping.id).Nodup) (cleanRun : Bool) :
    Drafts display pipelinePrefix id (fun _ _ => True) (executeJob loaded pipelinePrefix cleanRun)
      .idle := by
  cases loaded with
  | error error => trivial
  | ok config =>
    obtain ⟨separate, tableIds, mappingIds⟩ := suited config rfl
    have start : Drafted display pipelinePrefix id (config.mappings.map Mapping.id) ∅ .idle :=
      ⟨fun other entry found => (nomatch found), fun _ => rfl, fun entry found => (nomatch found)⟩
    refine Program.follows_bind (Program.follows_mono (openTables_drafts plain cleanRun
      config.analyticTables separate tableIds start (fun _ _ => rfl)) ?_)
    rintro (error | publishes) draft opened
    · trivial
    have drafted := opened publishes rfl
    refine Program.follows_bind (Program.follows_mono (drafts_foreign
      (listSources_foreign _ config.sourceContainers []) draft) ?_)
    rintro candidates after rfl
    refine Program.follows_bind (Program.follows_mono (drafts_foreign
      (downloadAll_foreign _ candidates []) after) ?_)
    rintro (error | files) after rfl
    · trivial
    dsimp only
    split
    · trivial
    refine Program.follows_bind (Program.follows_mono (drafts_foreign
      (loadDimensions_foreign _ config.dimensions) after) ?_)
    rintro (error | ⟨⟩) after rfl
    · trivial
    refine Program.follows_bind (Program.follows_mono (runMappings_drafts plain config files
      config.mappings mappingIds ⟨publishes, 0, 0, []⟩ drafted) ?_)
    rintro (error | progress) final reached
    · trivial
    simp only [perform, Program.perform_bind]
    intro order displayed
    refine ⟨final, .quiet final _ _ not_false, ?_⟩
    exact Program.follows_bind (Program.follows_mono (publishTables_drafts plain
      (reached progress rfl) order (displayed.1.nodup_iff.mpr progress.publishes.nodupKeys)
      progress.errors) (fun _ _ _ => trivial))

end Following

end KaretWorker
