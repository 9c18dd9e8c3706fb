import KaretWorker.CrashSafety
import KaretWorker.Drafts

/-!
# Runs keep a table's rows distinguished

`Filed` is the invariant of one table over runs that follow one another: every manifest up to
the current version lists files of the versions up to its own, and the rows that one mapping has
in it differ. `Knows` says what a run knows of the table in each stage of its draft.

A run writes into the directory of the next version only, which none of these manifests lists;
the manifest it puts is assembled, and becomes current when the pointer is put.
-/
namespace KaretWorker

open Texts Interaction Indexing

/-- The bytes stored under a key, if it is a data file. -/
def contentOf (view : Text → Option Object) (key : Text) : Option (List UInt8) :=
  match view key with
  | some (.data bytes) => some bytes
  | _ => none

variable {τ : Type} (display : Display τ)

/-- The rows of each mapping, over all its files, differ. -/
def Distinguished (view : Text → Option Object) (files : List ManifestFile) : Prop :=
  ∀ mappingId, (display.rowsIn (contentOf view) (filesOf mappingId files)).Nodup

/-- A manifest of a version lists files of versions up to it, with distinguished rows. -/
structure Catalogued (view : Text → Option Object) (version : Nat) (manifest : TableManifest) :
    Prop where
  numbered : manifest.version = version
  within : ∀ file ∈ manifest.files, ∃ directory path, directory ≤ version ∧
    file.key = versionPrefix directory ++ path
  distinguished : Distinguished display view manifest.files

/-- The manifests of a table whose current version is given, zero before the first one. -/
structure Filed (view : Text → Option Object) (current : Nat) : Prop where
  pointer : view currentKey = if current = 0 then none else some (.pointer ⟨current⟩)
  manifests : ∀ version, version ≤ current → ∀ body, view (manifestKey version) = some body →
    ∃ manifest, body = .manifest manifest ∧ Catalogued display view version manifest

/-- What a run knows of the table in each stage of its draft. -/
def Knows (view : Text → Option Object) (current : Nat) : Draft → Prop
  | .idle => True
  | .pointed version => version = current
  | .drafting version base written =>
    version = current + 1 ∧
      (∀ file ∈ base, ∃ directory path, directory ≤ current ∧
        file.key = versionPrefix directory ++ path) ∧
      Distinguished display view base ∧
      ∀ key bytes, written key = some bytes →
        (∃ path, key = versionPrefix version ++ path) ∧ view key = some (.data bytes)
  | .staged version =>
    version = current + 1 ∧ ∃ manifest, view (manifestKey version) = some (.manifest manifest) ∧
      Catalogued display view version manifest
  | .closed => True

section Views

variable {display} {view view' : Text → Option Object} {current version : Nat}

/-- Removing contents removes rows. -/
theorem rowsIn_sublist {content content' : Text → Option (List UInt8)} {files : List ManifestFile}
    (kept : ∀ file ∈ files, content' file.key = content file.key ∨ content' file.key = none) :
    (display.rowsIn content' files).Sublist (display.rowsIn content files) := by
  induction files with
  | nil => exact List.Sublist.refl _
  | cons file rest inductionHypothesis =>
    rw [List.forall_mem_cons] at kept
    have others := inductionHypothesis kept.2
    unfold Display.rowsIn at others ⊢
    rw [List.flatMap_cons, List.flatMap_cons]
    rcases kept.1 with same | gone
    · rw [same]
      exact (List.Sublist.refl _).append others
    · rw [gone]
      exact (List.nil_sublist _).append others

/-- The bytes under a key depend on the object there only. -/
theorem contentOf_kept {key : Text} (kept : view' key = view key ∨ view' key = none) :
    contentOf view' key = contentOf view key ∨ contentOf view' key = none := by
  unfold contentOf
  rcases kept with same | gone
  · exact Or.inl (by rw [same])
  · exact Or.inr (by rw [gone])

/-- Files stay told apart where objects are only deleted. -/
theorem Distinguished.kept {files : List ManifestFile}
    (distinguished : Distinguished display view files)
    (kept : ∀ file ∈ files, view' file.key = view file.key ∨ view' file.key = none) :
    Distinguished display view' files := fun mappingId =>
  (distinguished mappingId).sublist (rowsIn_sublist (fun file member =>
    contentOf_kept (kept file (List.mem_of_mem_filter member))))

/-- A manifest stays true to the store where only files of later versions change, or are deleted. -/
theorem Catalogued.kept {manifest : TableManifest}
    (catalogued : Catalogued display view version manifest)
    (kept : ∀ directory path, directory ≤ version →
      view' (versionPrefix directory ++ path) = view (versionPrefix directory ++ path) ∨
        view' (versionPrefix directory ++ path) = none) :
    Catalogued display view' version manifest where
  numbered := catalogued.numbered
  within := catalogued.within
  distinguished := catalogued.distinguished.kept (fun file member => by
    obtain ⟨directory, path, bounded, key⟩ := catalogued.within file member
    rw [key]
    exact kept directory path bounded)

/-- What leaves the pointer alone, and the manifests and directories up to the current version
except for deletions, keeps the table filed. -/
theorem Filed.kept (filed : Filed display view current)
    (pointer : view' currentKey = view currentKey) (manifests : ∀ version, version ≤ current →
      view' (manifestKey version) = view (manifestKey version) ∨ view' (manifestKey version) = none)
    (kept : ∀ directory path, directory ≤ current →
      view' (versionPrefix directory ++ path) = view (versionPrefix directory ++ path) ∨
        view' (versionPrefix directory ++ path) = none) : Filed display view' current where
  pointer := pointer.trans filed.pointer
  manifests := by
    intro version bounded body present
    rcases manifests version bounded with same | gone
    · obtain ⟨manifest, isManifest, catalogued⟩ :=
        filed.manifests version bounded body (same.symm.trans present)
      exact ⟨manifest, isManifest, catalogued.kept (fun directory path below =>
        kept directory path (Nat.le_trans below bounded))⟩
    · exact nomatch gone.symm.trans present

/-- Deleting an object other than the pointer keeps the table filed. -/
theorem Filed.delete (filed : Filed display view current) {key : Text} (spared : key ≠ currentKey) :
    Filed display (Function.update view key none) current := by
  have deleted : ∀ other, Function.update view key none other = view other ∨
      Function.update view key none other = none := by
    intro other
    by_cases same : other = key
    · exact Or.inr (by rw [same, Function.update_self])
    · exact Or.inl (Function.update_of_ne same _ _)
  exact filed.kept (Function.update_of_ne spared.symm _ _) (fun _ _ => deleted _)
    (fun _ _ _ => deleted _)

/-- Files up to the current version do not lie in the next directory. -/
theorem directory_apart {directory : Nat} (bounded : directory ≤ current) (path path' : Text) :
    versionPrefix directory ++ path ≠ versionPrefix (current + 1) ++ path' := by
  intro same
  have equal := versionPrefix_injective same
  omega

/-- Putting a file of the next version keeps the table filed. -/
theorem Filed.upload (filed : Filed display view current) (path : Text) (body : Object) :
    Filed display (Function.update view (versionPrefix (current + 1) ++ path) (some body))
      current := by
  refine filed.kept ?_ (fun version _ => Or.inl ?_) (fun directory other bounded => Or.inl ?_)
  · exact Function.update_of_ne (versionPrefix_ne_currentKey _ _).symm _ _
  · exact Function.update_of_ne (versionPrefix_ne_manifestKey _ _ _).symm _ _
  · exact Function.update_of_ne (directory_apart bounded _ _) _ _

/-- Putting the manifest of the next version keeps the table filed. -/
theorem Filed.stage (filed : Filed display view current) (body : Object) :
    Filed display (Function.update view (manifestKey (current + 1)) (some body)) current := by
  refine filed.kept ?_ (fun version bounded => Or.inl ?_) (fun directory other _ => Or.inl ?_)
  · exact Function.update_of_ne (manifestKey_ne_currentKey _).symm _ _
  · refine Function.update_of_ne (fun same => ?_) _ _
    have equal := manifestKey_injective same
    omega
  · exact Function.update_of_ne (versionPrefix_ne_manifestKey _ _ _) _ _

/-- Pointing to a catalogued next version files it. -/
theorem Filed.flip (filed : Filed display view current) {manifest : TableManifest}
    (present : view (manifestKey (current + 1)) = some (.manifest manifest))
    (catalogued : Catalogued display view (current + 1) manifest) :
    Filed display (Function.update view currentKey (some (.pointer ⟨current + 1⟩)))
    (current + 1) where
  pointer := by
    rw [Function.update_self, if_neg (Nat.succ_ne_zero current)]
  manifests := by
    have elsewhere : ∀ directory path,
        Function.update view currentKey (some (.pointer ⟨current + 1⟩))
          (versionPrefix directory ++ path) = view (versionPrefix directory ++ path) :=
      fun _ _ => Function.update_of_ne (versionPrefix_ne_currentKey _ _) _ _
    intro version bounded body isStored
    rw [Function.update_of_ne (manifestKey_ne_currentKey version)] at isStored
    rcases Nat.lt_or_eq_of_le bounded with below | rfl
    · obtain ⟨listed, isManifest, isCatalogued⟩ :=
        filed.manifests version (Nat.le_of_lt_succ below) body isStored
      exact ⟨listed, isManifest, isCatalogued.kept (fun _ _ _ => Or.inl (elsewhere _ _))⟩
    · obtain ⟨⟩ := present.symm.trans isStored
      exact ⟨manifest, rfl, catalogued.kept (fun _ _ _ => Or.inl (elsewhere _ _))⟩

/-- A table that was never written. -/
theorem Filed.blank (nothing : ∀ key, view key = none) : Filed display view 0 where
  pointer := nothing currentKey
  manifests := fun _ _ _ present => nomatch (nothing _).symm.trans present

/-- A manifest that is assembled from what is known is catalogued. -/
theorem Knows.assemble {base : List ManifestFile} {written : Text → Option (List UInt8)}
    (knows : Knows display view current (.drafting version base written)) {manifest : TableManifest}
    (numbered : manifest.version = version)
    (assembled : Assembled display [] base written manifest.files) :
    Catalogued display view version manifest := by
  obtain ⟨next, within, distinguished, put⟩ := knows
  refine ⟨numbered, fun file member => ?_, fun mappingId => ?_⟩
  · have own : file ∈ filesOf file.mappingId manifest.files :=
      List.mem_filter.mpr ⟨member, decide_eq_true rfl⟩
    rcases assembled file.mappingId with kept | ⟨_, made⟩
    · obtain ⟨directory, path, bounded, key⟩ :=
        within file (List.mem_of_mem_filter (kept.mem_iff.mp own))
      exact ⟨directory, path, by omega, key⟩
    · obtain ⟨bytes, isWritten⟩ := Option.isSome_iff_exists.mp (made.put file own)
      obtain ⟨⟨path, key⟩, _⟩ := put file.key bytes isWritten
      exact ⟨version, path, Nat.le_refl _, key⟩
  · rcases assembled mappingId with kept | ⟨_, made⟩
    · exact (rowsIn_perm kept).nodup_iff.mpr (distinguished mappingId)
    · have sameRows : display.rowsIn (contentOf view) (filesOf mappingId manifest.files) =
          display.rowsIn written (filesOf mappingId manifest.files) := by
        refine rowsIn_congr (fun file member => ?_)
        obtain ⟨bytes, isWritten⟩ := Option.isSome_iff_exists.mp (made.put file member)
        rw [isWritten, contentOf, (put file.key bytes isWritten).2]
      rw [sameRows]
      exact made.distinct

/-- Putting a file of the next version, with what the run learns of it. -/
theorem Knows.upload {base : List ManifestFile} {written : Text → Option (List UInt8)}
    (knows : Knows display view current (.drafting version base written)) (path : Text)
    (bytes : List UInt8) {learned : Option (List UInt8)}
    (genuine : learned = some bytes ∨ learned = none) :
    Knows display
      (Function.update view (versionPrefix version ++ path) (some (.data bytes))) current
      (.drafting version base
        (Function.update written (versionPrefix version ++ path) learned)) := by
  obtain ⟨rfl, within, distinguished, put⟩ := knows
  refine ⟨rfl, within, distinguished.kept (fun file member => Or.inl ?_),
    fun key other isWritten => ?_⟩
  · obtain ⟨directory, tail, bounded, key⟩ := within file member
    rw [key]
    exact Function.update_of_ne (directory_apart bounded _ _) _ _
  · by_cases same : key = versionPrefix (current + 1) ++ path
    · subst same
      rw [Function.update_self] at isWritten
      rcases genuine with rfl | rfl
      · obtain ⟨⟩ := isWritten
        exact ⟨⟨path, rfl⟩, Function.update_self _ _ _⟩
      · exact nomatch isWritten
    · rw [Function.update_of_ne same] at isWritten ⊢
      exact put key other isWritten

/-- Forgetting what was put under a key. -/
theorem Knows.forget {base : List ManifestFile} {written : Text → Option (List UInt8)}
    (knows : Knows display view current (.drafting version base written)) (key : Text) :
    Knows display view current (.drafting version base (Function.update written key none)) := by
  obtain ⟨next, within, distinguished, put⟩ := knows
  refine ⟨next, within, distinguished, fun other bytes isWritten => ?_⟩
  by_cases same : other = key
  · rw [same, Function.update_self] at isWritten
    exact nomatch isWritten
  · rw [Function.update_of_ne same] at isWritten
    exact put other bytes isWritten

end Views

/-! ## Moves -/

section Moves

variable {display} {table : Text} {buckets buckets' : Buckets} {current : Nat} {given : Answer}
  {draft draft' : Draft} {effect : Effect} {reply : Reply effect}

/-- A put under the table stores the body, or stores nothing and fails. -/
theorem stored_or_failed {key : Text} {body : Object} {reply : Except Text Unit}
    (answered : answer buckets (.putObject .warehouse (table ++ key) body) given =
      some (reply, buckets')) :
    buckets'.under table = Function.update (buckets.under table) key (some body) ∨
      (buckets'.under table = buckets.under table ∧ reply ≠ .ok ()) := by
  rcases answer_putObject answered with ⟨_, rfl⟩ | ⟨_, rfl, error, rfl⟩
  · exact Or.inl (under_insert table key body)
  · exact Or.inr ⟨rfl, fun impossible => nomatch impossible⟩

/-- Every move keeps the table filed and leads to what the next stage knows, as long as an
existing pointer is served. -/
theorem DraftMove.keeps (move : DraftMove display table draft effect reply draft')
    (answered : answer buckets effect given = some (reply, buckets'))
    (served : ∀ error, given = .refused error →
      effect = .getBytes .warehouse (table ++ currentKey) → buckets.under table currentKey = none)
    (filed : Filed display (buckets.under table) current)
    (knows : Knows display (buckets.under table) current draft) :
    ∃ current', Filed display (buckets'.under table) current' ∧
      Knows display (buckets'.under table) current' draft' := by
  cases move with
  | quiet draft effect reply quiet =>
    rw [under_unchanged quiet answered]
    exact ⟨current, filed, knows⟩
  | pointed pointer =>
    obtain ⟨rfl, isRead⟩ := answer_getBytes answered
    refine ⟨current, filed, ?_⟩
    rcases isRead with ⟨_, ⟨⟩, present⟩ | ⟨_, impossible, _⟩
    · have expected := filed.pointer.symm.trans present
      split at expected
      · exact nomatch expected
      · obtain ⟨⟩ := expected
        rfl
    · exact nomatch impossible
  | unpublished error =>
    obtain ⟨rfl, isRead⟩ := answer_getBytes answered
    refine ⟨current, filed, ?_⟩
    rcases isRead with ⟨_, impossible, _⟩ | ⟨refusal, _, refused⟩
    · exact nomatch impossible
    · have expected := filed.pointer.symm.trans (served refusal refused rfl)
      split at expected
      · next unpublished =>
        subst unpublished
        exact ⟨rfl, fun _ impossible => absurd impossible List.not_mem_nil,
          fun _ => List.nodup_nil, fun _ _ impossible => nomatch impossible⟩
      · exact nomatch expected
  | opened version manifest base bounded among =>
    obtain ⟨rfl, isRead⟩ := answer_getBytes answered
    obtain rfl : version = current := knows
    refine ⟨version, filed, ?_⟩
    rcases isRead with ⟨_, ⟨⟩, present⟩ | ⟨_, impossible, _⟩
    · obtain ⟨_, ⟨⟩, numbered, within, distinguished⟩ :=
        filed.manifests version (Nat.le_refl _) _ present
      refine ⟨by rw [numbered], ?_, ?_, fun _ _ impossible => nomatch impossible⟩
      · rcases among with rfl | rfl
        · exact within
        · exact fun _ impossible => absurd impossible List.not_mem_nil
      · rcases among with rfl | rfl
        · exact distinguished
        · exact fun _ => List.nodup_nil
    · exact nomatch impossible
  | uploaded version base written path bytes key placed reply =>
    subst placed
    refine ⟨current, ?_⟩
    rcases stored_or_failed answered with stored | ⟨same, failed⟩
    · rw [stored]
      refine ⟨knows.1 ▸ filed.upload path _, knows.upload path bytes ?_⟩
      split
      · exact Or.inl rfl
      · exact Or.inr rfl
    · rw [same, if_neg failed]
      exact ⟨filed, knows.forget _⟩
  | staged version base written manifest numbered assembled =>
    rcases stored_or_failed answered with stored | ⟨_, failed⟩
    · have catalogued := knows.assemble numbered assembled
      obtain rfl := knows.1
      rw [stored]
      exact ⟨current, filed.stage _, rfl, manifest, Function.update_self _ _ _,
        catalogued.kept (fun _ _ _ => Or.inl
          (Function.update_of_ne (versionPrefix_ne_manifestKey _ _ _) _ _))⟩
    · exact absurd rfl failed
  | unstaged version base written manifest error =>
    obtain rfl := knows.1
    rcases stored_or_failed answered with stored | ⟨same, _⟩
    · rw [stored]
      exact ⟨current, filed.stage _, trivial⟩
    · rw [same]
      exact ⟨current, filed, trivial⟩
  | flipped version reply =>
    obtain ⟨rfl, manifest, present, catalogued⟩ := knows
    rcases stored_or_failed answered with stored | ⟨same, _⟩
    · rw [stored]
      exact ⟨current + 1, filed.flip present catalogued, trivial⟩
    · rw [same]
      exact ⟨current, filed, trivial⟩
  | deleted key spared reply =>
    refine ⟨current, ?_, trivial⟩
    rcases delete_under answered with deleted | same
    · rw [deleted]
      exact filed.delete spared
    · rwa [same]

end Moves

/-! ## Worlds -/

/-- Configurations have distinct ids, and the outputs that runs get for the table fit. -/
def World.Displays (id : Text) (world : World) : Action → Prop
  | .start _ (.ok config) _ => (config.analyticTables.map AnalyticTable.id).Nodup ∧
      (config.mappings.map Mapping.id).Nodup
  | .answer author given => ∀ event ∈ world.exchange author given, Displayed display id event.1 event.2
  | _ => True

/-- The rule for runs that follow one another and get outputs that fit. -/
def DraftRule (pipelinePrefix id : Text) (world : World) (action : Action) : Prop :=
  SequentialRule pipelinePrefix id world action ∧ world.Displays display id action

/-- The table is filed, and the one running execution knows what it needs. -/
def Filing (pipelinePrefix id : Text) (world : World) : Prop :=
  ∃ current, Filed display (world.buckets.under (tablePrefix pipelinePrefix id)) current ∧
    ∀ author job, world.running.lookup author = some job →
      (∀ other job', world.running.lookup other = some job' → other = author) ∧
        ∃ draft, Drafts display pipelinePrefix id (fun _ _ => True) job draft ∧
          Knows display (world.buckets.under (tablePrefix pipelinePrefix id)) current draft

section Worlds

variable {display} {pipelinePrefix id : Text} {world after : World}

/-- Every step of the runs keeps the table filed. -/
theorem Filing.step (plain : '/' ∉ id) {action : Action}
    (filing : Filing display pipelinePrefix id world)
    (rule : DraftRule display pipelinePrefix id world action)
    (stepped : world.step pipelinePrefix (tablePrefix pipelinePrefix id) action = some after) :
    Filing display pipelinePrefix id after := by
  obtain ⟨current, filed, running⟩ := filing
  obtain ⟨⟨proper, served, sequential⟩, displays⟩ := rule
  cases action with
  | start author loaded cleanRun =>
    obtain ⟨_, rfl⟩ := step_start stepped
    have empty : world.running.entries = [] := List.isEmpty_iff.mp sequential
    have only : ∀ other job,
        (world.running.insert author (executeJob loaded pipelinePrefix cleanRun)).lookup other =
          some job → other = author ∧ job = executeJob loaded pipelinePrefix cleanRun := by
      intro other job found
      rcases lookup_of_insert found with isAuthor | ⟨_, before⟩
      · exact isAuthor
      · rw [AList.lookup, empty, List.dlookup_nil] at before
        cases before
    refine ⟨current, filed, fun other job found => ?_⟩
    obtain ⟨rfl, rfl⟩ := only other job found
    refine ⟨fun third job' isThird => (only third job' isThird).1, .idle, ?_, trivial⟩
    refine executeJob_drafts plain loaded (fun config isLoaded => ?_) cleanRun
    subst isLoaded
    exact ⟨proper, displays⟩
  | answer author given =>
    obtain ⟨effect, next, reply, buckets, isRunning, answered, rfl⟩ := step_answer stepped
    obtain ⟨single, draft, drafts, knows⟩ := running author _ isRunning
    have displayed : Displayed display id effect reply := by
      apply displays ⟨effect, reply⟩
      rw [World.exchange, isRunning]
      exact Option.map_eq_some_iff.mpr ⟨_, answered, rfl⟩
    obtain ⟨draft', move, continues⟩ := drafts reply displayed
    obtain ⟨current', filed', knows'⟩ := move.keeps answered (fun error isRefused isPointer => by
      subst isRefused
      refine served ?_
      rw [World.pending, isRunning]
      exact congrArg some isPointer) filed knows
    have only : ∀ other job, (world.running.insert author (next reply)).lookup other = some job →
        other = author ∧ job = next reply := by
      intro other job found
      rcases lookup_of_insert found with isAuthor | ⟨different, before⟩
      · exact isAuthor
      · exact absurd (single other job before) different
    refine ⟨current', filed', fun other job found => ?_⟩
    obtain ⟨rfl, rfl⟩ := only other job found
    exact ⟨fun third job' isThird => (only third job' isThird).1, draft', continues, knows'⟩
  | stop author =>
    obtain rfl := Option.some.inj stepped
    refine ⟨current, filed, fun other job found => ?_⟩
    obtain ⟨single, knows⟩ := running other job (lookup_of_erase found).2
    exact ⟨fun third job' isThird => single third job' (lookup_of_erase isThird).2, knows⟩
  | fill lake =>
    obtain rfl := Option.some.inj stepped
    exact ⟨current, filed, running⟩

/-- Runs that follow one another keep the table filed. -/
theorem reaches_filed (plain : '/' ∉ id) {buckets : Buckets}
    (blank : ∀ key, buckets.under (tablePrefix pipelinePrefix id) key = none)
    (reached : Reaches pipelinePrefix (tablePrefix pipelinePrefix id)
      (DraftRule display pipelinePrefix id) (World.initial buckets) world) :
    ∃ current, Filed display (world.buckets.under (tablePrefix pipelinePrefix id)) current := by
  have filing : Filing display pipelinePrefix id world :=
    reached.invariant (Filing display pipelinePrefix id)
      ⟨0, Filed.blank blank, fun _ _ impossible => nomatch impossible⟩
      (fun _ _ _ filing rule stepped => filing.step plain rule stepped)
  obtain ⟨current, filed, _⟩ := filing
  exact ⟨current, filed⟩

end Worlds

end KaretWorker
