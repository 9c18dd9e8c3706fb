import KaretWorker.CleanRun
import KaretWorker.Validation

/-!
# Tables in one bucket

A table owns its pointer, its manifests and the files they list. All of them are found
by a string prefix, and a vacuum deletes whatever lies under its own prefix that its own
manifests do not list.

`isolated_iff` says when publishing and vacuuming one table of an accepted configuration
leaves the objects of the others alone: no id may continue another one past a slash,
except into that table's manifest directory. The validator does not ask for this.
-/
namespace KaretWorker

open Texts Interaction

/-! ## Writes -/

/-- The effect puts or deletes the warehouse object under a key. -/
def Effect.Writes (key : Text) : Effect → Prop
  | .putObject .warehouse written _ => written = key
  | .deleteObject .warehouse removed => removed = key
  | _ => False

section Frame

variable {α : Type} {permits : Buckets → Effect → Answer → Prop} {buckets final : Buckets}
  {trace : List (Event Effect Reply)} {key : Text}

/-- An effect that does not write a key leaves its object alone. -/
theorem answer_spares {effect : Effect} {reply : Reply effect} {given : Answer}
    (spared : ¬ effect.Writes key) (answered : answer buckets effect given = some (reply, final)) :
    final.warehouse.lookup key = buckets.warehouse.lookup key := by
  cases effect with
  | putObject bucket written body =>
    rcases answer_putObject answered with ⟨_, rfl⟩ | ⟨_, rfl, _⟩
    · cases bucket with
      | lake => rfl
      | warehouse => exact AList.lookup_insert_ne (Ne.symm spared)
    · rfl
  | deleteObject bucket removed =>
    rcases answer_deleteObject answered with rfl | rfl
    · cases bucket with
      | lake => rfl
      | warehouse => exact AList.lookup_erase_ne (Ne.symm spared)
    · rfl
  | getBytes | listKeys | loadCancel | now | overflow | iterate | buildInlineRegistry | rowsFromCsv
  | newMatcher | evaluate =>
    have unchanged : final.under [] = buckets.under [] := under_unchanged (by exact id) answered
    exact congrFun unchanged key

/-- A run that does not write a key leaves its object alone. -/
theorem completes_spares {job : Job α} {value : α}
    (completed : Program.Completes (Given permits) job buckets trace value final)
    (spared : ∀ event ∈ trace, ¬ event.1.Writes key) :
    final.warehouse.lookup key = buckets.warehouse.lookup key := by
  induction completed with
  | done value world => rfl
  | call answered rest inductionHypothesis =>
    obtain ⟨_, given, _, isAnswer⟩ := answered
    rw [inductionHypothesis (fun event member => spared event (List.mem_cons_of_mem _ member))]
    exact answer_spares (spared _ List.mem_cons_self) isAnswer

/-- An object that a run leaves behind and that was not there was put by it. -/
theorem completes_put {job : Job α} {value : α} {body : Object}
    (completed : Program.Completes (Given permits) job buckets trace value final)
    (stored : final.warehouse.lookup key = some body)
    (absent : buckets.warehouse.lookup key ≠ some body) :
    ∃ event ∈ trace, event.1 = .putObject .warehouse key body := by
  induction completed with
  | done value world => exact absurd stored absent
  | @call effect next world middle final reply trace value answered rest inductionHypothesis =>
    by_cases already : middle.warehouse.lookup key = some body
    · refine ⟨_, List.mem_cons_self, ?_⟩
      obtain ⟨_, given, _, isAnswer⟩ := answered
      by_contra different
      apply absent
      rw [← already]
      symm
      cases effect with
      | putObject bucket written object =>
        rcases answer_putObject isAnswer with ⟨_, rfl⟩ | ⟨_, rfl, _⟩
        · cases bucket with
          | lake => rfl
          | warehouse =>
            by_cases here : key = written
            · subst here
              have same : some object = some body := (AList.lookup_insert _).symm.trans already
              exact absurd (Option.some.inj same ▸ rfl) different
            · exact AList.lookup_insert_ne here
        · rfl
      | deleteObject bucket removed =>
        rcases answer_deleteObject isAnswer with rfl | rfl
        · cases bucket with
          | lake => rfl
          | warehouse =>
            by_cases here : key = removed
            · subst here
              exact nomatch (AList.lookup_erase _ _).symm.trans already
            · exact AList.lookup_erase_ne here
        · rfl
      | getBytes | listKeys | loadCancel | now | overflow | iterate | buildInlineRegistry
      | rowsFromCsv | newMatcher | evaluate => exact answer_spares (by exact id) isAnswer
    · obtain ⟨event, member, isPut⟩ := inductionHypothesis stored already
      exact ⟨event, List.mem_cons_of_mem _ member, isPut⟩

end Frame

/-! ## What a table's publish writes -/

/-- A key relative to a table that its publish may write: a manifest, or outside the
manifest directory. -/
def Own (relative : Text) : Prop :=
  (∃ version, relative = manifestKey version) ∨ manifestPrefix.isPrefixOf relative = false

/-- The effect writes only keys of the table's own. -/
def OwnWrites (table : Text) (effect : Effect) : Prop :=
  ∀ key, effect.Writes key → ∃ relative, key = table ++ relative ∧ Own relative

/-- Reads write nothing. -/
theorem Effect.Reads.unwriting {effect : Effect} (reads : Effect.Reads effect) (key : Text) :
    ¬ effect.Writes key := by
  intro writes
  cases effect with
  | putObject | deleteObject => exact absurd reads id
  | getBytes | listKeys | loadCancel | now | overflow | iterate | buildInlineRegistry | rowsFromCsv
  | newMatcher | evaluate => exact absurd writes id

/-- What only reads writes nothing outside the table. -/
theorem Effect.Reads.ownWrites {effect : Effect} (reads : effect.Reads) (table : Text) :
    OwnWrites table effect := fun key writes => absurd writes (reads.unwriting key)

/-- The pointer is a table's own object. -/
theorem own_currentKey : Own currentKey := Or.inr (by decide)

/-- The targets of a vacuum are the table's own. -/
theorem own_target {relative : List Text} {current : Nat} {retained : List TableManifest}
    {key : Text} (target : key ∈ vacuumTargets relative current retained) : Own key := by
  rcases List.mem_append.mp target with unreferenced | doomed
  · exact Or.inr (mem_unreferencedKeys.mp unreferenced).2.1
  · obtain ⟨version, _, rfl⟩ := List.mem_map.mp doomed
    exact Or.inl ⟨version, rfl⟩

/-- Deleting targets writes these keys. -/
theorem deleteTargets_writes (table : Text) (targets : List Text) (deleted : Nat) :
    (deleteTargets table targets deleted).Calls (fun effect =>
      ∀ key, effect.Writes key → ∃ target ∈ targets, key = table ++ target) := by
  induction targets generalizing deleted with
  | nil => trivial
  | cons target rest inductionHypothesis =>
    have further : ∀ count, (deleteTargets table rest count).Calls (fun effect =>
        ∀ key, effect.Writes key → ∃ other ∈ target :: rest, key = table ++ other) := fun count =>
      Program.calls_mono (inductionHypothesis count) (fun _ writes key isWritten =>
        let ⟨other, member, isKey⟩ := writes key isWritten
        ⟨other, List.mem_cons_of_mem _ member, isKey⟩)
    refine ⟨?_, ?_⟩
    · rintro written rfl
      exact ⟨target, List.mem_cons_self, rfl⟩
    · rintro (error | ⟨⟩) <;> exact further _

/-- A vacuum deletes objects of its own table only. -/
theorem vacuum_writes (table : Text) (current : Nat) :
    (vacuum table current).Calls (OwnWrites table) := by
  simp only [vacuum, perform, Program.perform_bind]
  refine ⟨fun _ impossible => impossible.elim, ?_⟩
  rintro (error | all)
  · trivial
  · refine Program.calls_bind (Program.calls_mono (readRetained_reads _ _ _)
      (fun _ reads => reads.ownWrites table)) ?_
    rintro (error | retained)
    · trivial
    · refine Program.calls_bind (Program.calls_mono (deleteTargets_writes table _ 0) ?_)
        (fun _ => trivial)
      intro effect writes key isWritten
      obtain ⟨target, member, isKey⟩ := writes key isWritten
      exact ⟨target, isKey, own_target member⟩

/-- Publishing puts objects of its own table only. -/
theorem publish_writes (table : Text) (manifest : TableManifest) :
    (publish table manifest).Calls (OwnWrites table) := by
  refine ⟨?_, ?_⟩
  · rintro key rfl
    exact ⟨_, rfl, Or.inl ⟨_, rfl⟩⟩
  · rintro (error | ⟨⟩)
    · trivial
    · refine ⟨?_, fun _ => trivial⟩
      rintro key rfl
      exact ⟨_, rfl, own_currentKey⟩

/-- Publishing and vacuuming a table writes only its own keys. -/
theorem publishTable_writes (tableId : Text) (entry : TablePublish) (errors : List Text) :
    (publishTable tableId entry errors).Calls (OwnWrites entry.tablePrefix) := by
  simp only [publishTable, perform, Program.perform_bind]
  split
  · refine ⟨fun _ impossible => impossible.elim, fun createdAt => ?_⟩
    refine Program.calls_bind (publish_writes _ _) ?_
    rintro (error | ⟨⟩)
    · trivial
    · exact Program.calls_bind (vacuum_writes _ _) (fun _ => trivial)
  · trivial

/-! ## Ids that continue each other -/

/-- The second id continues the first past a slash, and not into its manifest
directory. -/
def Nests (id inner : Text) : Prop :=
  ∃ rest, inner = id ++ '/' :: rest ∧ ¬ manifestPrefix <+: rest

section Keys

variable {pipelinePrefix id other : Text}

/-- The keys of a table's objects, relative to it. -/
def Object.Named (relative : Text) : Prop :=
  relative = currentKey ∨ (∃ version, relative = manifestKey version) ∨
    ∃ version path, relative = versionPrefix version ++ path

/-- A manifest's file name has no slash. -/
theorem manifestName_plain (version : Nat) : '/' ∉ decimal version ++ ".json".toList := by
  intro member
  rcases List.mem_append.mp member with digit | letter
  · exact not_mem_decimal (by decide) version digit
  · exact absurd letter (by decide)

/-- What follows a slash in the manifest directory is no manifest. -/
theorem not_manifestKey {rest key : Text} (inside : manifestPrefix <+: rest) (version : Nat) :
    rest ++ '/' :: key ≠ manifestKey version := by
  obtain ⟨name, rfl⟩ := inside
  intro same
  rw [manifestKey, List.append_assoc, List.append_assoc] at same
  have named := List.append_cancel_left same
  exact manifestName_plain version (named ▸ by simp)

/-- A key that two tables could both write shows that one id continues the other. -/
theorem nests_of_shared {own named : Text} (isOwn : Own own) (isNamed : Object.Named named)
    (same : tablePrefix pipelinePrefix id ++ own = tablePrefix pipelinePrefix other ++ named) :
    id = other ∨ Nests id other ∨ Nests other id := by
  have joined : id ++ '/' :: own = other ++ '/' :: named := by simpa [tablePrefix] using same
  rcases join_cases joined with ⟨equal, _⟩ | ⟨rest, longer, split⟩ | ⟨rest, longer, split⟩
  · exact Or.inl equal
  · refine Or.inr (Or.inl ⟨rest, longer, fun inside => ?_⟩)
    rcases isOwn with ⟨version, isManifest⟩ | outside
    · exact not_manifestKey inside version (split.symm.trans isManifest)
    · have within : manifestPrefix <+: own := split ▸ inside.trans (List.prefix_append _ _)
      rw [← List.isPrefixOf_iff_prefix, outside] at within
      cases within
  · refine Or.inr (Or.inr ⟨rest, longer, fun inside => ?_⟩)
    rcases isNamed with rfl | ⟨version, rfl⟩ | ⟨version, path, rfl⟩
    · exact absurd (split ▸ by simp : '/' ∈ currentKey) (by decide)
    · exact not_manifestKey inside version split.symm
    · have within : manifestPrefix <+: versionPrefix version ++ path :=
        split ▸ inside.trans (List.prefix_append _ _)
      rw [← List.isPrefixOf_iff_prefix, versionPrefix_not_directory] at within
      cases within

end Keys

/-! ## Isolation -/

/-- The objects of a table: its pointer, its manifests, and the files in its version
directories that a retained manifest lists. -/
def Belongs (pipelinePrefix : Text) (table : AnalyticTable) (buckets : Buckets) (key : Text) :
    Prop :=
  ∃ relative, key = tablePrefix pipelinePrefix table.id ++ relative ∧
    (relative = currentKey ∨ (∃ version, relative = manifestKey version) ∨
      ∃ pointer version manifest file,
        buckets.under (tablePrefix pipelinePrefix table.id) currentKey = some (.pointer pointer) ∧
        Retained (buckets.under (tablePrefix pipelinePrefix table.id)) pointer.version version ∧
        buckets.under (tablePrefix pipelinePrefix table.id) (manifestKey version) =
          some (.manifest manifest) ∧
        file ∈ manifest.files ∧ relative = file.key ∧
        ∃ directory path, file.key = versionPrefix directory ++ path)

/-- Publishing and vacuuming one table writes no object that belongs to another. -/
def Isolated (config : PipelineConfig) : Prop :=
  ∀ pipelinePrefix, ∀ table ∈ config.analyticTables, ∀ other ∈ config.analyticTables,
    table.id ≠ other.id →
    ∀ entry errors permits buckets trace result final,
      entry.tablePrefix = tablePrefix pipelinePrefix table.id →
      Program.Completes (Given permits) (publishTable table.id entry errors) buckets trace result
        final →
      ∀ event ∈ trace, ∀ key, event.1.Writes key → ¬ Belongs pipelinePrefix other buckets key

/-- What belongs to a table is named like its objects. -/
theorem Belongs.named {pipelinePrefix : Text} {table : AnalyticTable} {buckets : Buckets}
    {key : Text} (belongs : Belongs pipelinePrefix table buckets key) :
    ∃ relative, key = tablePrefix pipelinePrefix table.id ++ relative ∧ Object.Named relative := by
  obtain ⟨relative, isKey, isPointer | isManifest | listed⟩ := belongs
  · exact ⟨relative, isKey, Or.inl isPointer⟩
  · exact ⟨relative, isKey, Or.inr (Or.inl isManifest)⟩
  · obtain ⟨_, _, _, _, _, _, _, _, rfl, located⟩ := listed
    exact ⟨_, isKey, Or.inr (Or.inr located)⟩

/-- Tables whose ids do not continue each other are isolated. -/
theorem isolated_of_apart {config : PipelineConfig}
    (apart : ∀ table ∈ config.analyticTables, ∀ other ∈ config.analyticTables,
      ¬ Nests table.id other.id) : Isolated config := by
  intro pipelinePrefix table member other otherMember different entry errors permits buckets trace
    result final located completed event occurred key writes belongs
  obtain ⟨own, isKey, isOwn⟩ :=
    Program.calls_completes (publishTable_writes table.id entry errors) completed event occurred key
      writes
  obtain ⟨named, isKey', isNamed⟩ := belongs.named
  rw [located] at isKey
  rcases nests_of_shared isOwn isNamed (isKey.symm.trans isKey') with same | nests | nests
  · exact different same
  · exact apart table member other otherMember nests
  · exact apart other otherMember table member nests

/-! ## Tables that are not isolated -/

/-- The manifest directory, as an id would have to continue to be that directory. -/
def manifestDirectory : Text := "_manifests".toList

/-- Manifests lie in their directory. -/
theorem manifestDirectory_slash (rest : Text) :
    manifestDirectory ++ '/' :: rest = manifestPrefix ++ rest := rfl

section Nested

variable {pipelinePrefix : Text}

/-- A key relative to a table outside its manifest directory, when the table's bucket
holds nothing but that object, is deleted by some publish of the table. -/
theorem publish_deletes (tableId table : Text) {relative : Text} (body : Object)
    (outside : manifestPrefix.isPrefixOf relative = false) (notPointer : relative ≠ currentKey)
    (name : ".json".toList <:+ relative) :
    ∃ entry errors trace result final, entry.tablePrefix = table ∧
      Program.Completes (Given (Excused fun _ => False)) (publishTable tableId entry errors)
        ⟨∅, (∅ : Store).insert (table ++ relative) body⟩ trace result final ∧
      ∃ event ∈ trace, event.1.Writes (table ++ relative) := by
  let file : ManifestFile := ⟨versionPrefix 1 ++ "m.parquet".toList, "m".toList, 0⟩
  let buckets : Buckets := ⟨∅, (∅ : Store).insert (table ++ relative) body⟩
  have only : ∀ key, (buckets.under table key).isSome = true → key = relative := by
    intro key present
    by_contra different
    have apart : table ++ key ≠ table ++ relative := fun same =>
      different (List.append_cancel_left same)
    have absent : buckets.under table key = none := (AList.lookup_insert_ne apart).trans rfl
    rw [absent] at present
    exact nomatch present
  have named : ∀ key version, (buckets.under table key).isSome = true →
      manifestVersion key = some version → version ≤ 1 → key = manifestKey 1 := by
    intro key version present names _
    rw [only key present] at names
    rw [manifestVersion_directory names] at outside
    exact nomatch outside
  obtain ⟨final, publishes, _, gone⟩ : ∃ final, (∀ errors, Ends (Excused fun _ => False)
      (publishTable tableId ⟨table, 1, [file], true⟩ errors) buckets errors final) ∧ _ :=
    publishTable_ends (fun _ => False) [file] named
  obtain ⟨trace, completed⟩ := publishes []
  refine ⟨⟨table, 1, [file], true⟩, [], trace, [], final, rfl, completed, ?_⟩
  by_contra none
  have spared :=
    completes_spares completed (fun event member writes => none ⟨event, member, writes⟩)
  have present : buckets.warehouse.lookup (table ++ relative) = some body := AList.lookup_insert _
  have removed : final.warehouse.lookup (table ++ relative) = Option.none :=
    gone relative outside notPointer (fun listed member same => by
      rw [List.mem_singleton.mp member] at same
      rw [← same] at name
      exact absurd name (by decide))
  exact nomatch removed.symm.trans (spared.trans present)

/-- The pointer of a nested table is outside the manifest directory of the outer one,
unless the nested table is that directory. -/
theorem nested_pointer {rest : Text} (apart : ¬ manifestPrefix <+: rest)
    (notDirectory : rest ≠ manifestDirectory) :
    manifestPrefix.isPrefixOf (rest ++ '/' :: currentKey) = false := by
  rw [Bool.eq_false_iff, ne_eq, List.isPrefixOf_iff_prefix]
  rintro ⟨more, same⟩
  rw [← manifestDirectory_slash] at same
  rcases join_cases same with ⟨equal, _⟩ | ⟨middle, longer, _⟩ | ⟨middle, longer, _⟩
  · exact notDirectory equal.symm
  · exact apart ⟨middle, longer.symm⟩
  · have slash : '/' ∈ manifestDirectory := longer ▸ List.mem_append_right _ List.mem_cons_self
    exact absurd slash (by decide)

/-- The pointer of a table, and the manifests of a table, belong to it. -/
theorem pointer_belongs (table : AnalyticTable) (buckets : Buckets) :
    Belongs pipelinePrefix table buckets (tablePrefix pipelinePrefix table.id ++ currentKey) :=
  ⟨_, rfl, Or.inl rfl⟩

/-- Manifests belong to the table, whatever their version. -/
theorem manifest_belongs (table : AnalyticTable) (buckets : Buckets) (version : Nat) :
    Belongs pipelinePrefix table buckets
      (tablePrefix pipelinePrefix table.id ++ manifestKey version) :=
  ⟨_, rfl, Or.inr (Or.inl ⟨version, rfl⟩)⟩

end Nested

/-- A prefix that pipelines have. -/
def samplePrefix : Text := "pipelines/x/".toList

/-- A table inside another one is not isolated from it. -/
theorem apart_of_isolated {config : PipelineConfig} (isolated : Isolated config)
    {table inner : AnalyticTable} (member : table ∈ config.analyticTables)
    (innerMember : inner ∈ config.analyticTables) : ¬ Nests table.id inner.id := by
  rintro ⟨rest, isInner, apart⟩
  have different : table.id ≠ inner.id := by
    intro same
    have lengths := congrArg List.length (same.trans isInner)
    simp at lengths
  by_cases directory : rest = manifestDirectory
  · -- The inner table is the manifest directory: its vacuum finds a manifest there.
    have key : tablePrefix samplePrefix inner.id ++ "1.json".toList =
        tablePrefix samplePrefix table.id ++ manifestKey 1 := by
      rw [isInner, directory, tablePrefix, tablePrefix]
      simp only [List.append_assoc, List.cons_append]
      rfl
    obtain ⟨entry, errors, trace, result, final, located, completed, event, occurred, writes⟩ :=
      publish_deletes inner.id (tablePrefix samplePrefix inner.id) (.manifest TableManifest.empty)
        (show manifestPrefix.isPrefixOf "1.json".toList = false by decide) (by decide) (by decide)
    refine isolated samplePrefix inner innerMember table member different.symm entry errors _ _
      trace result
      final located completed event occurred _ writes ?_
    rw [key]
    exact manifest_belongs table _ 1
  · -- Otherwise the vacuum of the outer table finds the pointer of the inner one.
    have key : tablePrefix samplePrefix table.id ++ (rest ++ '/' :: currentKey) =
        tablePrefix samplePrefix inner.id ++ currentKey := by
      rw [isInner, tablePrefix, tablePrefix]
      simp only [List.append_assoc, List.cons_append, List.nil_append]
    have notPointer : rest ++ '/' :: currentKey ≠ currentKey := by
      intro same
      have slash : '/' ∈ currentKey := same ▸ List.mem_append_right _ List.mem_cons_self
      exact absurd slash (by decide)
    obtain ⟨entry, errors, trace, result, final, located, completed, event, occurred, writes⟩ :=
      publish_deletes table.id (tablePrefix samplePrefix table.id) (.pointer ⟨1⟩)
        (nested_pointer apart directory) notPointer
        ⟨rest ++ '/' :: "_current".toList, List.append_assoc _ _ _⟩
    refine isolated samplePrefix table member inner innerMember different entry errors _ _ trace
      result final
      located completed event occurred _ writes ?_
    rw [key]
    exact pointer_belongs inner _

/-- The tables of a configuration are isolated from each other if and only if no id
continues another past a slash, other than into its manifest directory. -/
theorem isolated_iff (config : PipelineConfig) :
    Isolated config ↔ ∀ table ∈ config.analyticTables, ∀ other ∈ config.analyticTables,
      ¬ Nests table.id other.id :=
  ⟨fun isolated _ member _ innerMember => apart_of_isolated isolated member innerMember,
    isolated_of_apart⟩

/-- A configuration of two tables without mappings. -/
def twoTables (first second : Text) : PipelineConfig :=
  ⟨[], [], [], [plainTable first, plainTable second]⟩

/-- A table inside another one is accepted, and the two are not isolated. -/
theorem nested_table_deleted :
    validate (twoTables "a".toList "a/b".toList) = .ok () ∧
      ¬ Isolated (twoTables "a".toList "a/b".toList) := by
  refine ⟨by decide +kernel, fun isolated => ?_⟩
  have outer : plainTable "a".toList ∈ (twoTables "a".toList "a/b".toList).analyticTables :=
    List.mem_cons_self
  have inner : plainTable "a/b".toList ∈ (twoTables "a".toList "a/b".toList).analyticTables :=
    List.mem_cons_of_mem _ List.mem_cons_self
  exact apart_of_isolated isolated outer inner ⟨"b".toList, rfl, by decide⟩

end KaretWorker
