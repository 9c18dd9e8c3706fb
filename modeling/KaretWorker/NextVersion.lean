import KaretWorker.ObjectKeys

/-!
# What a run publishes

When publishing itself succeeds, a table gets a new version if and only if a mapping that
targets it succeeded. The version is the one after the version that was current, and
lists the uploaded files of the mappings that succeeded along with the previous files of
the mappings that did not.

`publishes_exactly_iff` says for which configurations this holds in every run: none of
the tables that a mapping can publish may lie around another table, or inside another
table's manifest directory, since its vacuum would take the other table's objects away.
-/
namespace KaretWorker

open Texts Interaction

/-! ## Names in the manifest directory -/

/-- A key that names a version lies directly in the manifest directory. -/
theorem manifestVersion_name {relative : Text} {version : Nat}
    (names : manifestVersion relative = some version) :
    ∃ name, relative = manifestDirectory ++ '/' :: name ∧ '/' ∉ name ∧ ".json".toList <:+ name ∧
      name ≠ currentKey := by
  cases found : relative.dropPrefix? manifestPrefix with
  | none => simp [manifestVersion, found] at names
  | some name =>
    simp only [manifestVersion, found, Option.bind_eq_bind, Option.bind_some,
      Option.bind_eq_some_iff] at names
    obtain ⟨digits, trailing, parses⟩ := names
    have isName := dropSuffix_iff.mp trailing
    refine ⟨name, (dropPrefix_iff.mp found).trans (manifestDirectory_slash name).symm, ?_,
      ⟨digits, isName.symm⟩, ?_⟩
    · rw [isName]
      intro member
      rcases List.mem_append.mp member with digit | letter
      · exact not_mem_of_parses parses (by decide) (by decide) digit
      · exact absurd letter (by decide)
    · intro isPointer
      have split : digits ++ ".json".toList = "_current".toList ++ ".json".toList :=
        isName.symm.trans isPointer
      have noDigits : parseUnsigned u64Bound "_current".toList = none := by decide
      rw [List.append_cancel_right split, noDigits] at parses
      cases parses

/-- Every object of the table that names a version is named as a publish names it. -/
def Tidy (table : Text) (buckets : Buckets) : Prop :=
  ∀ relative version, (buckets.under table relative).isSome = true →
    manifestVersion relative = some version → relative = manifestKey version

/-- Whatever the effect puts keeps a table tidy. -/
def PutsTidily (table : Text) (effect : Effect) : Prop :=
  ∀ key body, effect = .putObject .warehouse key body →
    ∀ relative version, key = table ++ relative → manifestVersion relative = some version →
      relative = manifestKey version

section Names

variable {pipelinePrefix id other : Text}

/-- No key ends like a data file and like a manifest. -/
theorem not_json_of_parquet {key : Text} (ending : ".parquet".toList <:+ key) :
    ¬ ".json".toList <:+ key := by
  intro json
  obtain ⟨front, isData⟩ := ending
  obtain ⟨front', isJson⟩ := json
  have last : (some 't' : Option Char) = some 'n' := by
    rw [show some 't' = (front ++ ".parquet".toList).getLast? by simp [List.getLast?_append],
      show some 'n' =
        (front' ++ ".json".toList).getLast? by simp [List.getLast?_append], isData, isJson]
  exact absurd last (by decide)

/-- A data file names no version. -/
theorem manifestVersion_data {table relative : Text}
    (ending : ".parquet".toList <:+ table ++ relative)
    (version : Nat) : manifestVersion relative ≠ some version := by
  intro names
  obtain ⟨name, isName, _, suffix, _⟩ := manifestVersion_name names
  exact not_json_of_parquet ending (suffix.trans (isName ▸ (List.suffix_cons _ _).trans
    ((List.suffix_append _ _).trans (List.suffix_append _ _))))

/-- No table's pointer names a version of a table. -/
theorem manifestVersion_pointer {relative : Text}
    (same : tablePrefix pipelinePrefix other ++ currentKey = tablePrefix pipelinePrefix id ++
      relative)
    (version : Nat) : manifestVersion relative ≠ some version := by
  intro names
  obtain ⟨name, rfl, plain, _, notPointer⟩ := manifestVersion_name names
  have joined : (pipelinePrefix ++ other) ++ '/' :: currentKey =
      (pipelinePrefix ++ id ++ '/' :: manifestDirectory) ++ '/' :: name := by
    simpa [tablePrefix] using same
  exact notPointer (join_injective_right (by decide) plain joined).2.symm

/-- A table's manifest names a version of that table only. -/
theorem manifestVersion_manifest {relative : Text} {written : Nat}
    (same : tablePrefix pipelinePrefix other ++ manifestKey written =
      tablePrefix pipelinePrefix id ++ relative) {version : Nat}
    (names : manifestVersion relative = some version) :
    other = id ∧ relative = manifestKey version := by
  have isName := names
  obtain ⟨name, rfl, plain, _, _⟩ := manifestVersion_name isName
  have key : manifestKey written = manifestDirectory ++ '/' ::
    (decimal written ++ ".json".toList) := by
    rw [manifestDirectory_slash, manifestKey, List.append_assoc]
  have joined : (pipelinePrefix ++ other ++ '/' :: manifestDirectory) ++
      '/' :: (decimal written ++ ".json".toList) =
      (pipelinePrefix ++ id ++ '/' :: manifestDirectory) ++ '/' :: name := by
    rw [key] at same
    simpa [tablePrefix] using same
  obtain ⟨tables, rfl⟩ := join_injective_right (manifestName_plain written) plain joined
  refine ⟨by simpa using tables, ?_⟩
  rw [← key] at names ⊢
  rw [manifestVersion_sound names]

/-- Publishing the first table can take away the second one's pointer or manifests: the
second lies inside the first, or the first is the second's manifest directory. -/
def Disturbs (id other : Text) : Prop :=
  (∃ rest, other = id ++ '/' :: rest ∧ rest ≠ manifestDirectory ∧ ¬ manifestPrefix <+: rest) ∨
    id = other ++ '/' :: manifestDirectory

/-- The keys of a table's pointer and manifests, relative to it. -/
def Versioning (relative : Text) : Prop :=
  relative = currentKey ∨ ∃ version, relative = manifestKey version

/-- The pointer is a JSON file. -/
theorem currentKey_ending : ".json".toList <:+ currentKey := ⟨"_current".toList, rfl⟩

/-- A data file is neither the pointer nor a manifest of any table. -/
theorem Versioning.not_data {table relative : Text} (versioning : Versioning relative) :
    ¬ ".parquet".toList <:+ table ++ relative := by
  intro ending
  refine not_json_of_parquet ending (List.IsSuffix.trans ?_ (List.suffix_append table relative))
  rcases versioning with rfl | ⟨version, rfl⟩
  · exact currentKey_ending
  · exact List.suffix_append _ _

/-- A table that may write the pointer or a manifest of another one disturbs it. -/
theorem disturbs_of_shared {own named : Text} (isOwn : Own own) (isNamed : Versioning named)
    (same : tablePrefix pipelinePrefix id ++ own = tablePrefix pipelinePrefix other ++ named) :
    id = other ∨ Disturbs id other := by
  have joined : id ++ '/' :: own = other ++ '/' :: named := by simpa [tablePrefix] using same
  rcases join_cases joined with ⟨equal, _⟩ | ⟨rest, longer, split⟩ | ⟨rest, longer, split⟩
  · exact Or.inl equal
  · refine Or.inr (Or.inl ⟨rest, longer, ?_, ?_⟩)
    · rintro rfl
      rcases isOwn with ⟨version, isManifest⟩ | outside
      · have isName : named = decimal version ++ ".json".toList := by
          rw [split, manifestDirectory_slash, manifestKey, List.append_assoc] at isManifest
          exact List.append_cancel_left isManifest
        rcases isNamed with rfl | ⟨written, rfl⟩
        · have digits : "_current".toList = decimal version := List.append_cancel_right isName
          exact not_mem_decimal (by decide) version (digits ▸ (by decide : '_' ∈ "_current".toList))
        · have slash : '/' ∈ manifestKey written :=
            List.mem_append_left _ (List.mem_append_left _ (by decide))
          exact manifestName_plain version (isName ▸ slash)
      · rw [split, manifestDirectory_slash, ← Bool.not_eq_true,
          List.isPrefixOf_iff_prefix] at outside
        exact outside (List.prefix_append _ _)
    · intro inside
      rcases isOwn with ⟨version, isManifest⟩ | outside
      · exact not_manifestKey inside version (split.symm.trans isManifest)
      · rw [← Bool.not_eq_true, List.isPrefixOf_iff_prefix] at outside
        exact outside (split ▸ inside.trans (List.prefix_append _ _))
  · rcases isNamed with rfl | ⟨version, rfl⟩
    · exact absurd (split ▸ by simp : '/' ∈ currentKey) (by decide)
    · have plain := manifestName_plain version
      rw [manifestKey, List.append_assoc, ← manifestDirectory_slash] at split
      rcases join_cases split with ⟨directory, _⟩ | ⟨more, _, name⟩ | ⟨more, deeper, _⟩
      · exact Or.inr (Or.inr (directory ▸ longer))
      · exact absurd (name ▸ List.mem_append_right _ List.mem_cons_self) plain
      · have slash : '/' ∈ manifestDirectory := deeper ▸ List.mem_append_right _ List.mem_cons_self
        exact absurd slash (by decide)

end Names

/-! ## Publishing that succeeds -/

/-- Pointers and manifests can be put, and the pointer of a table that has one can be
got. Anything else may fail. -/
def PublishSucceeds (buckets : Buckets) (effect : Effect) : Answer → Prop
  | .refused _ | .lost _ =>
    match effect with
    | .getBytes .warehouse key =>
      (∃ table, key = table ++ currentKey) → buckets.warehouse.lookup key = none
    | .putObject .warehouse _ (.pointer _) | .putObject .warehouse _ (.manifest _) => False
    | _ => True
  | _ => True

section Publishing

variable {table : Text} {buckets final : Buckets} {trace : List (Event Effect Reply)}

/-- The pointer or a manifest that was put is there. -/
theorem put_succeeds {key : Text} {body : Object} {reply : Except Text Unit}
    (notData : ∀ bytes, body ≠ .data bytes)
    (given : Given PublishSucceeds buckets (.putObject .warehouse key body) reply final) :
    reply = .ok () ∧ final = buckets.set .warehouse (buckets.warehouse.insert key body) := by
  obtain ⟨_, answered, permitted, isAnswer⟩ := given
  have noData : ∀ bytes, body = .data bytes → False := fun bytes => notData bytes
  cases answered <;> simp only [answer, Option.some.injEq, Prod.mk.injEq, reduceCtorEq] at isAnswer
  case served => exact ⟨isAnswer.1.symm, isAnswer.2.symm⟩
  all_goals
    cases body with
    | pointer | manifest => exact absurd permitted id
    | data bytes => exact (noData bytes rfl).elim

/-- Tidy puts keep a table tidy. -/
theorem completes_tidy {α : Type} {permits : Buckets → Effect → Answer → Prop} {job : Job α}
    {value : α} (completed : Program.Completes (Given permits) job buckets trace value final)
    (tidily : ∀ event ∈ trace, PutsTidily table event.1) (tidy : Tidy table buckets) :
    Tidy table final := by
  intro relative version present names
  obtain ⟨body, stored⟩ := Option.isSome_iff_exists.mp present
  by_cases already : buckets.warehouse.lookup (table ++ relative) = some body
  · exact tidy relative version (Option.isSome_iff_exists.mpr ⟨body, already⟩) names
  · obtain ⟨event, member, isPut⟩ := completes_put completed stored already
    exact tidily event member _ _ isPut relative version rfl names

/-- A vacuum of a tidy table spares its pointer and its current manifest. -/
theorem vacuum_spares {permits : Buckets → Effect → Answer → Prop} {current : Nat}
    {result : Except Text Nat} (tidy : Tidy table buckets)
    (completed : Program.Completes (Given permits)
      (vacuum table current) buckets trace result final)
    {relative : Text} (kept : relative = currentKey ∨ relative = manifestKey current) :
    final.under table relative = buckets.under table relative := by
  simp only [vacuum, perform, Program.perform_bind] at completed
  obtain ⟨reply, middle, later, ⟨_, given, _, answered⟩, continues, rfl⟩ :=
    Program.call_completes completed
  obtain ⟨rfl, _⟩ := answer_listKeys answered
  cases reply with
  | error error =>
    cases continues
    rfl
  | ok all =>
  obtain ⟨exactly, distinct⟩ := listing_exact answered
  obtain ⟨reading, retained, after, further, reads, deletes, rfl⟩ :=
    Program.bind_completes continues
  obtain rfl := Program.unchanged_completes (readRetained_reads _ _ _)
    (fun _ _ _ _ isRead => reads_given isRead) reads
  cases retained with
  | error error =>
    cases deletes
    rfl
  | ok retained =>
  obtain ⟨deleting, count, last, rest, removes, finishes, rfl⟩ := Program.bind_completes deletes
  cases finishes
  refine completes_spares removes (fun event member writes => ?_)
  obtain ⟨target, isTarget, same⟩ :=
    Program.calls_completes (deleteTargets_writes _ _ _) removes event member _ writes
  obtain rfl := List.append_cancel_left same
  have versionsDistinct := listedVersions_nodup distinct
    (fun key listed version names => tidy key version ((exactly key).mp listed) names)
  rcases List.mem_append.mp isTarget with unreferenced | doomed
  · obtain ⟨_, outside, notPointer, _⟩ := mem_unreferencedKeys.mp unreferenced
    rcases kept with isPointer | rfl
    · exact notPointer isPointer
    · rw [manifestKey_directory] at outside
      cases outside
  · obtain ⟨version, isDoomed, isManifest⟩ := List.mem_map.mp doomed
    rcases kept with rfl | rfl
    · exact manifestKey_ne_currentKey version isManifest
    · obtain rfl := manifestKey_injective isManifest
      obtain ⟨isListed, _, outside⟩ := (mem_versionsToDrop versionsDistinct _ _ _).mp isDoomed
      exact outside (Retention.top_inWindow (by decide) (decide_eq_true isListed))

/-- The table's pointer names the version of a publish state, whose manifest lists its
files. -/
def PublishedAs (entry : TablePublish) (buckets : Buckets) : Prop :=
  buckets.under entry.tablePrefix currentKey = some (.pointer ⟨entry.version⟩) ∧
    ∃ createdAt, buckets.under entry.tablePrefix (manifestKey entry.version) =
      some (.manifest ⟨entry.version, createdAt, none, entry.files⟩)

/-- What a publish puts keeps every table tidy. -/
theorem PutsState.tidily {pipelinePrefix id other : Text} {entry : TablePublish} {effect : Effect}
    (located : entry.tablePrefix = tablePrefix pipelinePrefix other)
    (puts : PutsState entry effect) : PutsTidily (tablePrefix pipelinePrefix id) effect := by
  intro key body isPut relative version isKey names
  rcases puts _ key body isPut with ⟨isManifest, _⟩ | ⟨isPointer, _⟩
  · rw [located] at isManifest
    exact (manifestVersion_manifest (isManifest.symm.trans isKey) names).2
  · rw [located] at isPointer
    exact absurd names (manifestVersion_pointer (isPointer.symm.trans isKey) version)

/-- A touched table of tidy objects is published. -/
theorem publishTable_publishes {pipelinePrefix id : Text} {entry : TablePublish}
    (touched : entry.touched = true) (located : entry.tablePrefix = tablePrefix pipelinePrefix id)
    (tidy : Tidy entry.tablePrefix buckets) {errors result : List Text}
    (completed : Program.Completes (Given PublishSucceeds) (publishTable id entry errors) buckets
      trace result final) : PublishedAs entry final := by
  simp only [publishTable, touched, ↓reduceIte, perform, Program.perform_bind] at completed
  obtain ⟨createdAt, ticked, later, now, afterClock, rfl⟩ := Program.call_completes completed
  have unchanged : ticked = buckets := by
    obtain ⟨_, given, _, answered⟩ := now
    cases given <;> simp only [answer, Option.some.injEq, Prod.mk.injEq, reduceCtorEq] at answered
    exact answered.2.symm
  subst unchanged
  obtain ⟨publishing, published, middle, vacuuming, publishes, afterPublish, rfl⟩ :=
    Program.bind_completes afterClock
  have tidyMiddle : Tidy entry.tablePrefix middle := by
    refine completes_tidy publishes (fun event member => ?_) tidy
    rw [located]
    exact (Program.calls_completes (publish_puts createdAt) publishes event member).tidily located
  simp only [publish, perform, Program.perform_bind] at publishes
  obtain ⟨stored, _, flipping, puts, flips, rfl⟩ := Program.call_completes publishes
  obtain ⟨rfl, rfl⟩ := put_succeeds (by rintro _ ⟨⟩) puts
  obtain ⟨flipped, _, _, turns, finishes, rfl⟩ := Program.call_completes flips
  obtain ⟨rfl, rfl⟩ := put_succeeds (by rintro _ ⟨⟩) turns
  cases finishes
  obtain ⟨vacuumed, result, after, _, vacuums, finishes, rfl⟩ := Program.bind_completes afterPublish
  cases finishes
  refine ⟨?_, createdAt, ?_⟩
  · rw [vacuum_spares tidyMiddle vacuums (Or.inl rfl), under_insert, Function.update_self]
  · rw [vacuum_spares tidyMiddle vacuums (Or.inr rfl), under_insert,
      Function.update_of_ne (manifestKey_ne_currentKey _), under_insert, Function.update_self]

end Publishing

/-! ## Publishing all tables -/

section Tables

variable {pipelinePrefix id : Text} {publishes : Publishes} {order errors result : List Text}
  {buckets final : Buckets} {trace : List (Event Effect Reply)}

/-- Every publish state lies where its table does. -/
def Located (pipelinePrefix : Text) (publishes : Publishes) : Prop :=
  ∀ tableId entry, publishes.lookup tableId = some entry →
    entry.tablePrefix = tablePrefix pipelinePrefix tableId

/-- Publishing tables that do not disturb another one spares its pointer and manifests. -/
theorem publishTables_spares (located : Located pipelinePrefix publishes)
    (apart : ∀ tableId ∈ order, ∀ entry, publishes.lookup tableId = some entry →
      entry.touched = true → tableId ≠ id ∧ ¬ Disturbs tableId id) :
    (publishTables publishes order errors).Calls (fun effect => ∀ relative, Versioning relative →
      ¬ effect.Writes (tablePrefix pipelinePrefix id ++ relative)) := by
  induction order generalizing errors with
  | nil => trivial
  | cons tableId rest inductionHypothesis =>
    have restApart := fun other member => apart other (List.mem_cons_of_mem _ member)
    unfold publishTables
    split
    · exact inductionHypothesis restApart
    · next entry found =>
      refine Program.calls_bind ?_ (fun _ => inductionHypothesis restApart)
      by_cases touched : entry.touched = true
      · obtain ⟨different, undisturbed⟩ := apart tableId List.mem_cons_self entry found touched
        refine Program.calls_mono (publishTable_writes tableId entry errors) ?_
        intro effect ownWrites relative versioning writes
        obtain ⟨own, isKey, isOwn⟩ := ownWrites _ writes
        rw [located tableId entry found] at isKey
        rcases disturbs_of_shared isOwn versioning isKey.symm with same | disturbs
        · exact different same
        · exact undisturbed disturbs
      · simp only [publishTable, touched, Bool.false_eq_true, ↓reduceIte]
        trivial

/-- A touched table in the order is published, if no other touched one disturbs it. -/
theorem publishTables_publishes (located : Located pipelinePrefix publishes)
    (apart : ∀ tableId ∈ order, tableId ≠ id → ∀ entry, publishes.lookup tableId = some entry →
      entry.touched = true → ¬ Disturbs tableId id)
    (distinct : order.Nodup) (member : id ∈ order) {entry : TablePublish}
    (found : publishes.lookup id = some entry) (touched : entry.touched = true)
    (tidy : Tidy (tablePrefix pipelinePrefix id) buckets)
    (completed : Program.Completes (Given PublishSucceeds) (publishTables publishes order errors)
      buckets trace result final) : PublishedAs entry final := by
  have isPrefix := located id entry found
  induction order generalizing errors buckets trace with
  | nil => exact absurd member List.not_mem_nil
  | cons tableId rest inductionHypothesis =>
    obtain ⟨absent, restDistinct⟩ := List.nodup_cons.mp distinct
    have restApart := fun other isLater => apart other (List.mem_cons_of_mem _ isLater)
    by_cases here : tableId = id
    · subst here
      simp only [publishTables, found] at completed
      obtain ⟨publishing, _, middle, others, publishes', continues, rfl⟩ :=
        Program.bind_completes completed
      have notLater : ∀ other ∈ rest, other ≠ tableId := fun other isLater same =>
        absent (same ▸ isLater)
      have published : PublishedAs entry middle :=
        publishTable_publishes touched isPrefix (isPrefix ▸ tidy) publishes'
      have spared : ∀ relative, Versioning relative →
          final.under entry.tablePrefix relative = middle.under entry.tablePrefix relative := by
        intro relative versioning
        refine completes_spares continues (fun event occurs => ?_)
        rw [isPrefix]
        exact Program.calls_completes (publishTables_spares located (fun other isLater state isState
          isTouched =>
            ⟨notLater other isLater, restApart other isLater (notLater other isLater) state
            isState isTouched⟩)) continues event occurs relative versioning
      exact ⟨(spared _ (Or.inl rfl)).trans published.1, published.2.imp
        (fun _ stored => (spared _ (Or.inr ⟨_, rfl⟩)).trans stored)⟩
    · have later := (List.mem_cons.mp member).resolve_left (Ne.symm here)
      unfold publishTables at completed
      split at completed
      · exact inductionHypothesis restApart restDistinct later tidy completed
      · next state isState =>
        obtain ⟨publishing, _, middle, others, publishes', continues, rfl⟩ :=
          Program.bind_completes completed
        refine inductionHypothesis restApart restDistinct later ?_ continues
        exact completes_tidy publishes' (fun event occurs =>
          (Program.calls_completes (publishTable_puts _ _) publishes' event occurs).tidily
            (located tableId state isState)) tidy

end Tables

/-! ## What a run publishes -/

/-- The manifest that is current for a table. -/
def Buckets.published (buckets : Buckets) (table : Text) : Option TableManifest :=
  match buckets.under table currentKey with
  | none => some .empty
  | some (.pointer pointer) =>
    match buckets.under table (manifestKey pointer.version) with
    | some (.manifest manifest) => some manifest
    | _ => none
  | _ => none

/-- The table has the pointer and the manifests it had. -/
def Unpublished (table : Text) (before after : Buckets) : Prop :=
  ∀ relative, Versioning relative → after.under table relative = before.under table relative

/-- The table has moved on from a manifest by one version, which lists the files that the
mappings call for, in whatever order they are taken. -/
def MovedOn (config : PipelineConfig) (cleanRun : Bool) (trace : List (Event Effect Reply))
    (tableId table : Text) (previous : TableManifest) (after : Buckets) : Prop :=
  after.under table currentKey = some (.pointer ⟨previous.version + 1⟩) ∧
    ∃ createdAt files, after.under table (manifestKey (previous.version + 1)) =
        some (.manifest ⟨previous.version + 1, createdAt, none, files⟩) ∧
      files.Pairwise (fun left right => left.key ≤ right.key) ∧
      ∀ order, order.Perm config.mappings →
        files.Perm (nextFiles (if cleanRun then [] else previous.files) (previous.version + 1) tableId
          trace order)

/-- Every run publishes just the tables that a mapping succeeded for. -/
def PublishesExactly (config : PipelineConfig) : Prop :=
  ∀ pipelinePrefix cleanRun buckets trace result final,
    (∀ table ∈ config.analyticTables, Tidy (tablePrefix pipelinePrefix table.id) buckets) →
    Program.Completes (Given PublishSucceeds) (executeJob (.ok config) pipelinePrefix cleanRun) buckets
      trace result final →
    ∀ table ∈ config.analyticTables,
      match result with
      | .error _ => Unpublished (tablePrefix pipelinePrefix table.id) buckets final
      | .ok _ => ∃ previous, buckets.published (tablePrefix pipelinePrefix table.id) = some previous ∧
        (succeeded table.id trace config.mappings = [] →
          Unpublished (tablePrefix pipelinePrefix table.id) buckets final) ∧
        (succeeded table.id trace config.mappings ≠ [] →
          MovedOn config cleanRun trace table.id (tablePrefix pipelinePrefix table.id) previous final)

/-- No table that a mapping with a source targets disturbs another one. -/
def Undisturbed (config : PipelineConfig) : Prop :=
  ∀ mapping ∈ config.mappings, mapping.sourceContainerId ≠ [] →
    ∀ table, config.tableOf mapping = some table →
      ∀ other ∈ config.analyticTables, ¬ Disturbs table.id other.id

section Runs

variable {config : PipelineConfig} {pipelinePrefix : Text} {cleanRun : Bool}
  {buckets final : Buckets} {trace : List (Event Effect Reply)} {outcome : JobOutcome}

/-- What a run reads as a table's current manifest is the published one. -/
theorem readCurrent_published {table : Text} {current : TableManifest}
    (completed : Program.Completes (Given PublishSucceeds) (readCurrent table) buckets trace
      (.ok current) final) : buckets.published table = some current := by
  obtain ⟨reply, middle, later, ⟨_, given, permitted, answered⟩, continues, rfl⟩ :=
    Program.call_completes completed
  obtain ⟨rfl, got⟩ := answer_getBytes answered
  rcases got with ⟨body, rfl, present⟩ | ⟨error, rfl, rfl⟩
  · have isPointer : middle.under table currentKey = some body := present
    cases body with
    | manifest | data => cases continues
    | pointer pointer =>
      obtain ⟨reply, after, last, ⟨_, given', _, answered'⟩, finishes, rfl⟩ :=
        Program.call_completes continues
      obtain ⟨rfl, got'⟩ := answer_getBytes answered'
      rcases got' with ⟨body, rfl, present'⟩ | ⟨error, rfl, _⟩
      · have isManifest : after.under table (manifestKey pointer.version) = some body := present'
        cases body with
        | pointer | data => cases finishes
        | manifest manifest =>
          cases finishes
          rw [Buckets.published, isPointer]
          simp only [isManifest]
      · cases finishes
  · cases continues
    have absent : final.under table currentKey = none := permitted ⟨table, rfl⟩
    rw [Buckets.published, absent]

/-- Data files leave every table's pointer and manifests alone. -/
theorem unpublished_of_data {α : Type} {permits : Buckets → Effect → Answer → Prop} {job : Job α}
    {value : α} (completed : Program.Completes (Given permits) job buckets trace value final)
    (data : ∀ event ∈ trace, DataWrites event.1) (table : Text) : Unpublished table buckets final :=
  fun _ versioning => completes_spares completed (fun event member writes =>
    versioning.not_data (data event member _ writes).1)

/-- Data files keep every table tidy. -/
theorem tidy_of_data {α : Type} {permits : Buckets → Effect → Answer → Prop} {job : Job α}
    {value : α} (completed : Program.Completes (Given permits) job buckets trace value final)
    (data : ∀ event ∈ trace, DataWrites event.1) {table : Text} (tidy : Tidy table buckets) :
    Tidy table final := by
  refine completes_tidy completed
    (fun event member key body isPut relative version isKey names => ?_)
    tidy
  have ending := (data event member key (by rw [isPut]; rfl)).1
  exact absurd names (manifestVersion_data (isKey ▸ ending) version)

/-- The publish states a run ends up with lie where their tables do, and the touched ones
disturb no other table. -/
theorem Parts.undisturbed {permits : Buckets → Effect → Answer → Prop} (valid : config.Valid)
    (undisturbed : Undisturbed config)
    (parts : Parts permits config pipelinePrefix cleanRun buckets trace outcome final) :
    Located pipelinePrefix parts.reached.publishes ∧
      ∀ tableId entry, parts.reached.publishes.lookup tableId = some entry → entry.touched = true →
        ∀ other ∈ config.analyticTables, ¬ Disturbs tableId other.id := by
  have entries := fun tableId entry
    (found : parts.reached.publishes.lookup tableId = some entry) =>
      parts.entry valid.mappings.distinct (List.append_nil parts.closing).symm found
  constructor
  · intro tableId entry found
    obtain ⟨_, _, _, _, _, _, _, _, revised⟩ := entries tableId entry found
    exact revised.located
  · intro tableId entry found touched
    obtain ⟨_, _, _, current, _, _, _, _, revised⟩ := entries tableId entry found
    have some := mt revised.untouched (fun same => by
      rw [same] at touched
      exact nomatch touched)
    obtain ⟨mapping, succeeds⟩ := List.exists_mem_of_ne_nil _ some
    obtain ⟨member, chosen⟩ := List.mem_filter.mp succeeds
    obtain ⟨rfl, isUploaded⟩ := of_decide_eq_true chosen
    obtain ⟨puts, arePuts⟩ := Option.isSome_iff_exists.mp isUploaded
    obtain ⟨sameUploads, spared⟩ := parts.uploaded_before (List.append_nil parts.closing).symm
    obtain ⟨sourced, table, _, isTable, _⟩ :=
      parts.run.uploads valid.mappings.distinct spared member ((sameUploads _).symm.trans arePuts)
    have tableId := config.tableOf_id isTable
    rw [← tableId]
    exact undisturbed mapping member (named_of_sourced valid sourced) table isTable

/-- If no table is disturbed, every run publishes exactly. -/
theorem publishes_exactly_of_undisturbed (valid : config.Valid) (undisturbed : Undisturbed config) :
    PublishesExactly config := by
  intro pipelinePrefix cleanRun buckets trace result final tidy completed table member
  cases result with
  | error error =>
    exact unpublished_of_data completed
      (fun event member => (executeJob_unpublished completed event member).data) _
  | ok outcome =>
    obtain ⟨parts⟩ := executeJob_parts completed
    obtain ⟨located, apart⟩ := parts.undisturbed valid undisturbed
    have data := fun event member => (parts.uploads event member).data
    have untilMapped : Unpublished (tablePrefix pipelinePrefix table.id) buckets parts.middle :=
      fun relative versioning => (unpublished_of_data parts.maps data _ relative versioning).trans
        (parts.same _)
    have sameStart : ∀ relative, parts.start.under (tablePrefix pipelinePrefix table.id) relative =
        buckets.under (tablePrefix pipelinePrefix table.id) relative := fun relative => parts.same _
    have tidyMiddle : Tidy (tablePrefix pipelinePrefix table.id) parts.middle :=
      tidy_of_data parts.maps data (fun relative version present =>
        tidy table member relative version (sameStart relative ▸ present))
    have whole : trace = parts.opening ++ (parts.reading ++ (parts.mapping ++
        (⟨.iterate parts.reached.publishes.keys, parts.order⟩ :: parts.closing))) := parts.split
    obtain ⟨state, isState⟩ := Option.isSome_iff_exists.mp
      (allOpen_of_opens parts.opens table member)
    have spared : ∀ mapping ∈ config.mappings, ∀ event ∈ ([] : List (Event Effect Reply)),
        SparesMapping mapping.id event :=
      fun _ _ _ impossible => absurd impossible List.not_mem_nil
    obtain ⟨entry, found, _⟩ := parts.run.entry valid.mappings.distinct spared isState
    obtain ⟨declared, isDeclared, sameId, current, _, _, reads, _, revised⟩ :=
      parts.entry valid.mappings.distinct (List.append_nil parts.closing).symm found
    obtain rfl := List.inj_on_of_nodup_map valid.tables.distinct isDeclared member sameId
    rw [← whole] at revised
    refine ⟨current, readCurrent_published reads, fun none => ?_, fun some => ?_⟩
    · intro relative versioning
      refine (completes_spares parts.publishes (fun event occurs => ?_)).trans
        (untilMapped relative versioning)
      refine Program.calls_completes (publishTables_spares located ?_) parts.publishes event occurs
        relative versioning
      intro tableId _ other isOther touched
      refine ⟨?_, apart tableId other isOther touched declared member⟩
      rintro rfl
      obtain rfl := Option.some.inj (found.symm.trans isOther)
      rw [revised.untouched none] at touched
      exact nomatch touched
    · obtain ⟨touched, sorted⟩ := revised.touched some
      have isMember : declared.id ∈ parts.order := parts.permuted.mem_iff.mpr
        (AList.mem_keys.mp (AList.lookup_isSome.mp (by rw [found, Option.isSome_some])))
      obtain ⟨pointer, createdAt, manifest⟩ := publishTables_publishes located
        (fun tableId _ _ other isOther touched => apart tableId other isOther touched
          declared member)
        (parts.permuted.nodup_iff.mpr parts.reached.publishes.keys_nodup) isMember found touched
        tidyMiddle parts.publishes
      rw [revised.located, revised.version] at pointer manifest
      exact ⟨pointer, createdAt, entry.files, manifest, sorted, fun order reordered =>
        revised.files.trans (nextFiles_order reordered).symm⟩

end Runs

/-! ## Tables that are disturbed -/

section Disturbed

variable {config : PipelineConfig} {pipelinePrefix id other : Text} {buckets final : Buckets}

/-- Writes that take place and reads that succeed are within what publishing needs. -/
theorem publishSucceeds_of_excused {α : Type} {job : Job α} {value : α}
    (ends : Ends (Excused fun _ => False) job buckets value final) :
    Ends PublishSucceeds job buckets value final := by
  obtain ⟨trace, completed⟩ := ends
  refine ⟨trace, Program.completes_mono ?_ completed⟩
  rintro world effect reply world' ⟨genuine, given, excused, answered⟩
  refine ⟨genuine, given, ?_, answered⟩
  cases given with
  | refused error =>
    cases effect with
    | getBytes bucket key =>
      cases bucket with
      | lake => trivial
      | warehouse => exact fun _ => excused.resolve_left id
    | listKeys | putObject | deleteObject | loadCancel | now | overflow | iterate
    | buildInlineRegistry | rowsFromCsv | newMatcher | evaluate => exact absurd excused id
  | lost error => exact absurd excused id
  | served | flag | clock | order | outcome | evaluated => trivial

/-- Where every publish succeeds, whatever is asked for is served. -/
theorem publishSucceeds_serves : Serves PublishSucceeds := by
  intro buckets effect given _ _ succeeds
  cases given with
  | refused | lost => exact nomatch succeeds
  | served | flag | clock | order | outcome | evaluated => trivial

/-- A published manifest can be read. -/
theorem readCurrent_ends {table : Text} {current : TableManifest}
    (published : buckets.published table = some current) :
    Ends PublishSucceeds (readCurrent table) buckets (.ok current) buckets := by
  have got : ∀ {relative : Text} {body : Object}, buckets.under table relative = some body →
      Given PublishSucceeds buckets (.getBytes .warehouse (table ++ relative)) (.ok body) buckets :=
    fun present => ⟨trivial, .served, trivial, Option.map_eq_some_iff.mpr ⟨_, present, rfl⟩⟩
  unfold Buckets.published at published
  split at published
  · next absent =>
    obtain rfl := Option.some.inj published
    exact .call (.refused []) trivial (fun _ => absent) rfl (.done _ _)
  · next pointer isPointer =>
    split at published
    · next manifest isManifest =>
      obtain rfl := Option.some.inj published
      exact Program.ends_call (got isPointer) (Program.ends_call (got isManifest)
        (Program.ends_done _ _))
    · exact nomatch published
  · exact nomatch published

/-- Tables whose published versions are in range can be opened. -/
theorem openTables_readable {tables : List AnalyticTable} (publishes : Publishes)
    (readable : ∀ table ∈ tables, ∃ current,
      buckets.published (tablePrefix pipelinePrefix table.id) = some current ∧
        current.version + 1 < u64Bound) :
    ∃ opened, Ends PublishSucceeds (openTables pipelinePrefix false tables publishes) buckets
      (.ok opened) buckets := by
  induction tables generalizing publishes with
  | nil => exact ⟨publishes, .done _ _⟩
  | cons table rest inductionHypothesis =>
    obtain ⟨current, published, inRange⟩ := readable table List.mem_cons_self
    obtain ⟨opened, ends⟩ := inductionHypothesis
      (publishes.insert table.id (openedState pipelinePrefix false table.id current))
      (fun later member => readable later (List.mem_cons_of_mem _ member))
    refine ⟨opened, .bind (readCurrent_ends published) (.bind ?_ ends)⟩
    rw [nextVersion, if_pos inRange]
    exact .done _ _

/-- A warehouse with version 1 of one table, which lists nothing. -/
def firstVersion (table : Text) : Store :=
  ((∅ : Store).insert (table ++ manifestKey 1) (.manifest ⟨1, [], none, []⟩)).insert
    (table ++ currentKey) (.pointer ⟨1⟩)

/-- The pointer of the first version. -/
theorem firstVersion_pointer (table : Text) :
    (firstVersion table).lookup (table ++ currentKey) = some (.pointer ⟨1⟩) := AList.lookup_insert _

/-- The manifest of the first version, without files. -/
theorem firstVersion_manifest (table : Text) :
    (firstVersion table).lookup (table ++ manifestKey 1) =
      some (.manifest ⟨1, [], none, []⟩) := by
  rw [firstVersion, AList.lookup_insert_ne (fun same =>
    manifestKey_ne_currentKey 1 (List.append_cancel_left same)), AList.lookup_insert]

/-- It holds nothing else. -/
theorem firstVersion_only {table key : Text}
    (present : ((firstVersion table).lookup key).isSome = true) :
    key = table ++ currentKey ∨ key = table ++ manifestKey 1 := by
  by_contra neither
  obtain ⟨notPointer, notManifest⟩ := not_or.mp neither
  rw [firstVersion, AList.lookup_insert_ne notPointer,
    AList.lookup_insert_ne notManifest] at present
  exact nomatch present

/-- Only that table has an object that names a version. -/
theorem firstVersion_names {relative : Text} {version : Nat}
    (present : ((firstVersion (tablePrefix pipelinePrefix other)).lookup
      (tablePrefix pipelinePrefix id ++ relative)).isSome = true)
    (names : manifestVersion relative = some version) :
    other = id ∧ relative = manifestKey version := by
  rcases firstVersion_only present with isPointer | isManifest
  · exact absurd names (manifestVersion_pointer isPointer.symm version)
  · exact manifestVersion_manifest isManifest.symm names

/-- No other table has a pointer. -/
theorem firstVersion_absent (different : id ≠ other) :
    (firstVersion (tablePrefix pipelinePrefix other)).lookup
      (tablePrefix pipelinePrefix id ++ currentKey) = none := by
  by_contra present
  have isThere : ((firstVersion (tablePrefix pipelinePrefix other)).lookup
      (tablePrefix pipelinePrefix id ++ currentKey)).isSome = true :=
    Option.isSome_iff_ne_none.mpr present
  rcases firstVersion_only isThere with isPointer | isManifest
  · exact different (by simpa [tablePrefix] using isPointer)
  · have joined : (pipelinePrefix ++ id) ++ '/' :: currentKey =
        (pipelinePrefix ++ other ++ '/' :: manifestDirectory) ++
          '/' :: (decimal 1 ++ ".json".toList) := by
      have key : manifestKey 1 = manifestDirectory ++ '/' :: (decimal 1 ++ ".json".toList) := rfl
      rw [key] at isManifest
      simpa [tablePrefix] using isManifest
    have same := (join_injective_right (by decide) (manifestName_plain 1) joined).2
    exact absurd same (by decide)

/-- The files of the one successful mapping end like data files. -/
theorem soleFiles_ending {table : AnalyticTable} {mappingId : Text} {file : ManifestFile}
    (member : file ∈ applyMappingWrites [] mappingId
      [recordedFile 1 mappingId (samplePartition table mappingId)]) :
    ".parquet".toList <:+ file.key := by
  rcases mem_applyMappingWrites.mp member with ⟨impossible, _⟩ | written
  · exact absurd impossible List.not_mem_nil
  · obtain rfl := List.mem_singleton.mp written
    have ending : ".parquet".toList <:+ uploadKey [] 1 (samplePartition table mappingId) :=
      uploadKey_suffix rfl
    exact suffix_of_absent (by decide) ending

/-- A run with one successful mapping, next to another table at its first version: the
vacuum of the mapping's table deletes whatever it finds outside its manifest directory. -/
theorem soleRun_deletes (valid : config.Valid) {mapping : Mapping}
    (member : mapping ∈ config.mappings)
    (named : mapping.sourceContainerId ≠ []) {table : AnalyticTable}
    (isTable : config.tableOf mapping = some table) {victim : AnalyticTable}
    (different : table.id ≠ victim.id) :
    ∃ lake trace outcome final,
      Program.Completes (Given PublishSucceeds) (executeJob (.ok config) pipelinePrefix false)
        ⟨lake, firstVersion (tablePrefix pipelinePrefix victim.id)⟩ trace (.ok outcome) final ∧
      (∀ relative, manifestPrefix.isPrefixOf relative = false → relative ≠ currentKey →
        ".json".toList <:+ relative →
        final.under (tablePrefix pipelinePrefix table.id) relative = none) ∧
      (∀ key, ".json".toList <:+ key →
        (∀ own, Own own → key ≠ tablePrefix pipelinePrefix table.id ++ own) →
        final.warehouse.lookup key =
          (firstVersion (tablePrefix pipelinePrefix victim.id)).lookup key) := by
  let warehouse := firstVersion (tablePrefix pipelinePrefix victim.id)
  have tableId := config.tableOf_id isTable
  obtain ⟨container, isSource⟩ :=
    sourceOf_some (List.mem_map.mp ((valid.mapping mapping member).source named))
  let before : Buckets := ⟨soleLake container, warehouse⟩
  have unpublished : ∀ id, id ≠ victim.id →
      before.published (tablePrefix pipelinePrefix id) = some .empty := by
    intro id apart
    have absent : before.under (tablePrefix pipelinePrefix id) currentKey = none :=
      firstVersion_absent apart
    rw [Buckets.published, absent]
  have readable : ∀ declared ∈ config.analyticTables, ∃ current,
      before.published (tablePrefix pipelinePrefix declared.id) = some current ∧
        current.version + 1 < u64Bound := by
    intro declared _
    by_cases isVictim : declared.id = victim.id
    · refine ⟨⟨1, [], none, []⟩, ?_, by decide⟩
      have pointer : before.under (tablePrefix pipelinePrefix declared.id) currentKey =
          some (.pointer ⟨1⟩) := isVictim ▸ firstVersion_pointer _
      have manifest : before.under (tablePrefix pipelinePrefix declared.id) (manifestKey 1) =
          some (.manifest ⟨1, [], none, []⟩) := isVictim ▸ firstVersion_manifest _
      rw [Buckets.published, pointer]
      simp only [manifest]
    · exact ⟨.empty, unpublished _ isVictim, by decide⟩
  obtain ⟨opened, opens⟩ := openTables_readable ∅ readable
  have ⟨opening, opensSo⟩ := opens
  have entries : ∀ id entry, opened.lookup id = some entry → ∃ current,
      before.published (tablePrefix pipelinePrefix id) = some current ∧
        entry = openedState pipelinePrefix false id current := by
    intro id entry found
    obtain ⟨declared, _, rfl, current, _, _, reads, isEntry⟩ :=
      (openTables_entries opensSo found).resolve_left (by rintro ⟨⟩)
    exact ⟨current, readCurrent_published reads, isEntry⟩
  obtain ⟨entry, found⟩ := Option.isSome_iff_exists.mp
    (allOpen_of_opens opensSo table (List.mem_of_find?_eq_some isTable))
  obtain ⟨current, published, rfl⟩ := entries _ _ found
  obtain rfl := Option.some.inj ((unpublished _ different).symm.trans published)
  let files := applyMappingWrites [] mapping.id
    [recordedFile 1 mapping.id (samplePartition table mapping.id)]
  let staged : Buckets := ⟨soleLake container,
    soleWarehouse pipelinePrefix 1 table mapping.id warehouse⟩
  have uploadEnding : ".parquet".toList <:+
      uploadKey pipelinePrefix 1 (samplePartition table mapping.id) := uploadKey_suffix rfl
  have noVersions : ∀ key version,
      (staged.under (tablePrefix pipelinePrefix table.id) key).isSome = true →
      manifestVersion key = some version → version ≤ 1 → key = manifestKey 1 := by
    intro key version present names _
    by_cases isUpload : tablePrefix pipelinePrefix table.id ++ key =
        uploadKey pipelinePrefix 1 (samplePartition table mapping.id)
    · exact absurd names (manifestVersion_data (isUpload ▸ uploadEnding) version)
    · have stored : (warehouse.lookup (tablePrefix pipelinePrefix table.id ++ key)).isSome =
        true := by
        rw [← AList.lookup_insert_ne isUpload]
        exact present
      exact absurd (firstVersion_names stored names).1.symm different
  obtain ⟨final, publishes, _, gone⟩ : ∃ final, (∀ errors, Ends (Excused fun _ => False)
      (publishTable table.id ⟨tablePrefix pipelinePrefix table.id, 1, files, true⟩ errors)
        staged errors
      final) ∧ _ := publishTable_ends (fun _ => False) files noVersions
  obtain ⟨outcome, trace, completed⟩ :=
    publishSucceeds_serves.executes valid.mappings.distinct member
    isSource isTable opens (fun id state isState => by
      obtain ⟨_, _, rfl⟩ := entries id state isState
      rfl) (tableId ▸ found) (fun errors => ⟨errors, publishSucceeds_of_excused
        (tableId ▸ publishes errors)⟩)
  refine ⟨soleLake container, trace, outcome, final, completed, ?_, ?_⟩
  · intro relative outside notPointer ending
    refine gone relative outside notPointer (fun file isFile same => ?_)
    exact not_json_of_parquet (soleFiles_ending isFile) (same ▸ ending)
  · intro key ending apart
    obtain ⟨publishing, finishes⟩ := publishes []
    have spared : final.warehouse.lookup key = staged.warehouse.lookup key := by
      refine completes_spares finishes (fun event occurs writes => ?_)
      obtain ⟨own, isKey, isOwn⟩ :=
        Program.calls_completes (publishTable_writes _ _ _) finishes event occurs key writes
      exact apart own isOwn isKey
    rw [spared]
    exact AList.lookup_insert_ne (fun same => not_json_of_parquet uploadEnding (same ▸ ending))

/-- If every run publishes exactly, no table is disturbed. -/
theorem undisturbed_of_publishes_exactly (valid : config.Valid)
    (exactly : PublishesExactly config) :
    Undisturbed config := by
  intro mapping member named table isTable victim isVictim disturbs
  have different : table.id ≠ victim.id := by
    intro same
    rcases disturbs with ⟨rest, longer, _⟩ | longer
    · exact absurd (congrArg List.length (same.trans longer)) (by simp)
    · exact absurd (congrArg List.length (same.symm.trans longer)) (by simp)
  obtain ⟨lake, trace, outcome, final, completed, gone, spared⟩ :
      ∃ lake trace outcome final, Program.Completes (Given PublishSucceeds)
        (executeJob (.ok config) samplePrefix false)
          ⟨lake, firstVersion (tablePrefix samplePrefix victim.id)⟩
        trace (.ok outcome) final ∧ _ := soleRun_deletes valid member named isTable different
  let before : Buckets := ⟨lake, firstVersion (tablePrefix samplePrefix victim.id)⟩
  have tidy : ∀ declared ∈ config.analyticTables,
    Tidy (tablePrefix samplePrefix declared.id) before :=
    fun _ _ _ _ present names => (firstVersion_names present names).2
  have pointer : before.under (tablePrefix samplePrefix victim.id) currentKey =
    some (.pointer ⟨1⟩) :=
    firstVersion_pointer _
  have manifest : before.under (tablePrefix samplePrefix victim.id) (manifestKey 1) =
      some (.manifest ⟨1, [], none, []⟩) := firstVersion_manifest _
  obtain ⟨previous, isPrevious, keeps, moves⟩ :=
    exactly samplePrefix false before trace (.ok outcome) final tidy completed victim isVictim
  rw [Buckets.published, pointer] at isPrevious
  simp only [manifest, Option.some.injEq] at isPrevious
  subst isPrevious
  rcases disturbs with ⟨rest, longer, notDirectory, outside⟩ | longer
  · -- The victim lies inside the table, and loses its pointer.
    have key : tablePrefix samplePrefix table.id ++ (rest ++ '/' :: currentKey) =
        tablePrefix samplePrefix victim.id ++ currentKey := by simp [tablePrefix, longer]
    have missing := gone (rest ++ '/' :: currentKey) (nested_pointer outside notDirectory)
      (fun same => absurd (same ▸ by simp : '/' ∈ currentKey) (by decide))
      (currentKey_ending.trans ((List.suffix_cons _ _).trans (List.suffix_append _ _)))
    rw [Buckets.under, key] at missing
    by_cases none : succeeded victim.id trace config.mappings = []
    · have stays := keeps none currentKey (Or.inl rfl)
      rw [pointer, Buckets.under, missing] at stays
      cases stays
    · have moved := (moves none).1
      rw [Buckets.under, missing] at moved
      cases moved
  · -- The table is the victim's manifest directory: the victim keeps its pointer, but
    -- not its manifest.
    have key : tablePrefix samplePrefix table.id ++ "1.json".toList =
        tablePrefix samplePrefix victim.id ++ manifestKey 1 := by
      rw [longer, tablePrefix, tablePrefix]
      simp only [List.append_assoc, List.cons_append]
      rfl
    have missing := gone "1.json".toList (by decide) (by decide) (by decide)
    rw [Buckets.under, key] at missing
    by_cases none : succeeded victim.id trace config.mappings = []
    · have stays := keeps none (manifestKey 1) (Or.inr ⟨1, rfl⟩)
      rw [manifest, Buckets.under, missing] at stays
      cases stays
    · have stays : final.under (tablePrefix samplePrefix victim.id) currentKey =
        some (.pointer ⟨1⟩) := by
        refine (spared _ (currentKey_ending.trans (List.suffix_append _ _)) ?_).trans pointer
        intro own _ same
        have joined : currentKey = manifestDirectory ++ '/' :: own := by
          simpa [tablePrefix, longer] using same
        exact absurd (joined ▸ by simp : '/' ∈ currentKey) (by decide)
      have moved := (moves none).1
      rw [stays] at moved
      cases moved

end Disturbed

/-- For an accepted configuration, every run publishes exactly if and only if no table
that a mapping with a source targets disturbs another table. -/
theorem publishes_exactly_iff {config : PipelineConfig} (accepted : validate config = .ok ()) :
    PublishesExactly config ↔ Undisturbed config :=
  ⟨undisturbed_of_publishes_exactly (validate_iff.mp accepted),
    publishes_exactly_of_undisturbed (validate_iff.mp accepted)⟩

/-- The small configuration publishes exactly, if its one table is undisturbed. -/
theorem publishes_exactly_small : PublishesExactly (singleMapping (plainMapping "t".toList)) ↔
    Undisturbed (singleMapping (plainMapping "t".toList)) :=
  publishes_exactly_iff (by decide +kernel)

/-- A mapping into one of two tables. -/
def mappedTables (first second : Text) : PipelineConfig :=
  ⟨[plainSource], [], [plainMapping first], [plainTable first, plainTable second]⟩

/-- A table inside the one a mapping targets is accepted, and some run takes its pointer
away although no mapping targets it. -/
theorem nested_table_unpublished :
    validate (mappedTables "a".toList "a/b".toList) = .ok () ∧
      ¬ PublishesExactly (mappedTables "a".toList "a/b".toList) := by
  have accepted : validate (mappedTables "a".toList "a/b".toList) = .ok () := by decide +kernel
  refine ⟨accepted, fun exactly => ?_⟩
  refine undisturbed_of_publishes_exactly (validate_iff.mp accepted) exactly
    (plainMapping "a".toList) (List.mem_singleton.mpr rfl) (by decide) (plainTable "a".toList) rfl
    (plainTable "a/b".toList) (List.mem_cons_of_mem _ List.mem_cons_self) ?_
  exact Or.inl ⟨"b".toList, rfl, by decide, by decide⟩

end KaretWorker
