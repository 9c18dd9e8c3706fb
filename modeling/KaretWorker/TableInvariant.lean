import KaretWorker.Executions

/-!
# What is stored under a table

`Sound` is the invariant of one table between any two operations: the pointer
names the number of publications, every object has the name of its kind, each
published manifest is the one its publisher wrote, each file it lists lies in the
directory of the version that listed it first, and the files of every manifest in
the retention window hold what that version's publisher put there.

An operation on a key that no reader within the window depends on keeps the
invariant (`Sound.update`); so does flipping the pointer to the next version once
its manifest is staged (`Sound.flip`).
-/
namespace KaretWorker

open Texts Interaction

/-- The manifests that are stored, by version. -/
def stored (view : Text → Option Object) (version : Nat) : Bool :=
  (view (manifestKey version)).isSome

/-- A version whose files readers may still ask for. -/
abbrev Retained (view : Text → Option Object) (current version : Nat) : Prop :=
  Retention.InWindow (stored view) retainedVersions current version

/-- The objects under a table with `current` publications. -/
structure Sound (view : Text → Option Object) (ledger : Ledger) (current : Nat) : Prop where
  bounded : current < u64Bound
  counted : ledger.published.length = current
  pointer : view currentKey = if current = 0 then none else some (.pointer ⟨current⟩)
  named : ∀ key body, view key = some body → key = currentKey ∨
    (∃ version manifest, key = manifestKey (version + 1) ∧ version + 1 < u64Bound ∧
      body = .manifest manifest ∧ manifest.version = version + 1) ∨
    (∃ version path bytes, key = versionPrefix version ++ path ∧ body = .data bytes)
  numbered : ∀ (version : Nat) listing, ledger.published[version]? = some listing →
    listing.version = version + 1
  attributed : ∀ (version : Nat) listing, ledger.published[version]? = some listing →
    ledger.writer (version + 1) = some listing
  listed : ∀ (version : Nat) listing manifest, ledger.published[version]? = some listing →
    view (manifestKey (version + 1)) = some (.manifest manifest) → manifest.files = listing.files
  latest : current ≠ 0 → stored view current = true
  origins : ∀ (version : Nat) listing, ledger.published[version]? = some listing →
    ∀ file ∈ listing.files, ∃ origin first path, origin ≤ version ∧
      ledger.published[origin]? = some first ∧ first.names file.key = true ∧
      file.key = versionPrefix (origin + 1) ++ path
  contents : ∀ (version : Nat) listing, ledger.published[version]? = some listing →
    Retained view current (version + 1) → ∀ file ∈ listing.files,
      ∃ first bytes, firstNaming ledger.published file.key = some first ∧
        first.uploads file.key = some bytes ∧ view file.key = some (.data bytes)

/-- A key that readers of the current version or of a retained one depend on. -/
def Needed (view : Text → Option Object) (ledger : Ledger) (current : Nat) (key : Text) :
    Prop :=
  key = currentKey ∨ (∃ version, Retained view current version ∧ key = manifestKey version) ∨
    ∃ (version : Nat) (listing : Listing) (file : ManifestFile),
      ledger.published[version]? = some listing ∧ Retained view current (version + 1) ∧
        file ∈ listing.files ∧ key = file.key

/-- What a reader resolves: the manifest the pointer names, and the body found
under each key it lists. -/
def resolve (view : Text → Option Object) : Option (TableManifest × List (Option Object)) :=
  match view currentKey with
  | some (.pointer pointer) =>
    match view (manifestKey pointer.version) with
    | some (.manifest manifest) =>
      some (manifest, manifest.files.map (fun file => view file.key))
    | _ => none
  | _ => none

section Sound

variable {view : Text → Option Object} {ledger : Ledger} {current : Nat}

/-- A table that was never written. -/
theorem Sound.blank (nothing : ∀ key, view key = none) :
    Sound view ⟨[], []⟩ 0 where
  bounded := by decide
  counted := rfl
  pointer := nothing currentKey
  named := fun key body present => nomatch (nothing key).symm.trans present
  numbered := fun version listing found => by simp at found
  attributed := fun version listing found => by simp at found
  listed := fun version listing manifest found => by simp at found
  latest := fun impossible => absurd rfl impossible
  origins := fun version listing found => by simp at found
  contents := fun version listing found => by simp at found

/-- The current version is retained. -/
theorem Sound.current_retained (sound : Sound view ledger current) (some : current ≠ 0) :
    Retained view current current :=
  Retention.top_inWindow (by decide) (sound.latest some)

/-- A stored manifest is a manifest, numbered by its key. -/
theorem Sound.manifest (sound : Sound view ledger current) {version : Nat}
    (present : stored view version = true) :
    ∃ manifest, view (manifestKey version) = some (.manifest manifest) ∧
      manifest.version = version ∧ 0 < version ∧ version < u64Bound := by
  obtain ⟨body, found⟩ := Option.isSome_iff_exists.mp present
  rcases sound.named _ body found with isPointer | ⟨named, manifest, key, below, rfl, numbered⟩ |
    ⟨named, path, bytes, key, rfl⟩
  · exact absurd isPointer (manifestKey_ne_currentKey version)
  · obtain rfl := manifestKey_injective key
    exact ⟨manifest, found, numbered, Nat.succ_pos named, below⟩
  · exact absurd key.symm (versionPrefix_ne_manifestKey named version path)

/-- A stored manifest up to the current version is a published one. -/
theorem Sound.publication (sound : Sound view ledger current) {version : Nat}
    (present : stored view version = true) (within : version ≤ current) :
    ∃ (index : Nat) (listing : Listing), version = index + 1 ∧
      ledger.published[index]? = some listing := by
  obtain ⟨_, _, _, positive, _⟩ := sound.manifest present
  obtain ⟨index, rfl⟩ := Nat.exists_eq_succ_of_ne_zero (Nat.ne_of_gt positive)
  have inside : index < ledger.published.length := by
    rw [sound.counted]
    exact within
  exact ⟨index, ledger.published.get ⟨index, inside⟩, rfl, List.getElem?_eq_getElem inside⟩

/-- The first publication to name a key that some publication lists is the one of
the directory the key lies in.

An earlier publication naming the key would list it in an earlier directory. -/
theorem Sound.first_origin (sound : Sound view ledger current) {origin : Nat} {first : Listing}
    {path : Text} (found : ledger.published[origin]? = some first)
    (names : first.names (versionPrefix (origin + 1) ++ path) = true) :
    firstNaming ledger.published (versionPrefix (origin + 1) ++ path) = some first := by
  obtain ⟨inside, rfl⟩ := List.getElem?_eq_some_iff.mp found
  refine List.find?_eq_some_iff_getElem.mpr ⟨names, origin, inside, rfl, ?_⟩
  intro earlier before
  have notNamed : ledger.published[earlier].names (versionPrefix (origin + 1) ++ path) ≠ true := by
    intro namesToo
    simp only [Listing.names, List.any_eq_true, decide_eq_true_eq] at namesToo
    obtain ⟨file, member, key⟩ := namesToo
    obtain ⟨older, _, path', olderBound, _, _, located⟩ := sound.origins earlier _
      (List.getElem?_eq_getElem (Nat.lt_trans before inside)) file member
    have same := versionPrefix_injective (key.symm.trans located)
    omega
  simpa using notNamed

/-- A key in the next version's directory is listed by no publication. -/
theorem Sound.fresh (sound : Sound view ledger current) {version : Nat} {listing : Listing}
    (found : ledger.published[version]? = some listing) {file : ManifestFile}
    (member : file ∈ listing.files) (path : Text) :
    file.key ≠ versionPrefix (current + 1) ++ path := by
  intro key
  obtain ⟨origin, _, path', bound, _, _, located⟩ := sound.origins version listing found file member
  have same := versionPrefix_injective (key.symm.trans located)
  have inside := (List.getElem?_eq_some_iff.mp found).1
  have counted := sound.counted
  omega

/-- Changing an object that nobody within the window needs keeps the invariant,
if the new body suits its name and no version enters the window. -/
theorem Sound.update (sound : Sound view ledger current) {key : Text} {body : Option Object}
    (spare : ¬ Needed view ledger current key)
    (suits : ∀ object, body = some object →
      (∃ version manifest, key = manifestKey (version + 1) ∧ version + 1 < u64Bound ∧
        object = .manifest manifest ∧ manifest.version = version + 1) ∨
      (∃ version path bytes, key = versionPrefix version ++ path ∧ object = .data bytes))
    (ahead : ∀ (version : Nat) manifest, body = some (.manifest manifest) →
      key = manifestKey (version + 1) → ledger.published[version]? = none)
    (narrows : ∀ version, Retained (Function.update view key body) current version →
      Retained view current version) :
    Sound (Function.update view key body) ledger current := by
  have notPointer : key ≠ currentKey := fun same => spare (Or.inl same)
  have elsewhere : ∀ other, other ≠ key → Function.update view key body other = view other :=
    fun other different => Function.update_of_ne different body view
  refine { bounded := sound.bounded, counted := sound.counted, pointer := ?_, named := ?_,
           numbered := sound.numbered, attributed := sound.attributed, listed := ?_, latest :=
             ?_, origins := sound.origins,
           contents := ?_ }
  · rw [elsewhere currentKey notPointer.symm]
    exact sound.pointer
  · intro other object present
    by_cases same : other = key
    · subst same
      rw [Function.update_self] at present
      exact Or.inr (suits object present)
    · rw [elsewhere other same] at present
      exact sound.named other object present
  · intro version listing manifest found present
    by_cases same : manifestKey (version + 1) = key
    · rw [same, Function.update_self] at present
      exact nomatch (ahead version manifest present same.symm).symm.trans found
    · rw [elsewhere _ same] at present
      exact sound.listed version listing manifest found present
  · intro positive
    have different : manifestKey current ≠ key := by
      intro same
      exact spare (Or.inr (Or.inl ⟨current, sound.current_retained positive, same.symm⟩))
    rw [stored, elsewhere _ different]
    exact sound.latest positive
  · intro version listing found retained file member
    have before := narrows (version + 1) retained
    obtain ⟨first, bytes, naming, uploaded, present⟩ :=
      sound.contents version listing found before file member
    have different : file.key ≠ key := by
      rintro rfl
      exact spare (Or.inr (Or.inr ⟨version, listing, file, found, before, member, rfl⟩))
    exact ⟨first, bytes, naming, uploaded, (elsewhere _ different).trans present⟩

/-- Changing an object that nobody needs leaves the needed ones as they are. -/
theorem needed_kept {key : Text} {body : Option Object} (spare : ¬ Needed view ledger current key)
    (other : Text) (needed : Needed view ledger current other) :
    Function.update view key body other = view other := by
  apply Function.update_of_ne
  rintro rfl
  exact spare needed

/-- A reader sees nothing but needed objects. -/
theorem Sound.resolve_kept (sound : Sound view ledger current) {view' : Text → Option Object}
    (kept : ∀ key, Needed view ledger current key → view' key = view key) :
    resolve view' = resolve view := by
  unfold resolve
  rw [kept currentKey (Or.inl rfl), sound.pointer]
  by_cases unpublished : current = 0
  · rw [if_pos unpublished]
  · rw [if_neg unpublished]
    have retained := sound.current_retained unpublished
    obtain ⟨manifest, present, _⟩ := sound.manifest retained.2.1
    obtain ⟨index, listing, rfl, found⟩ := sound.publication retained.2.1 (Nat.le_refl _)
    simp only [kept _ (Or.inr (Or.inl ⟨index + 1, retained, rfl⟩)), present]
    have bodies : manifest.files.map (fun file => view' file.key) =
        manifest.files.map (fun file => view file.key) := by
      apply List.map_congr_left
      intro file member
      rw [sound.listed index listing manifest found present] at member
      exact kept _ (Or.inr (Or.inr ⟨index, listing, file, found, retained, member, rfl⟩))
    rw [bodies]

/-- A change that leaves the retained manifests' keys alone admits no version to
the window. -/
theorem retained_of_unlisted {key : Text} {body : Option Object}
    (apart : ∀ version, version ≤ current → manifestKey version ≠ key) (version : Nat) :
    Retained (Function.update view key body) current version ↔ Retained view current version := by
  apply Retention.inWindow_congr
  intro other _ below
  rw [stored, stored, Function.update_of_ne (apart other below)]

/-- Nobody needs an object in the next version's directory. -/
theorem Sound.upload_spare (sound : Sound view ledger current) (path : Text) :
    ¬ Needed view ledger current (versionPrefix (current + 1) ++ path) := by
  rintro (isPointer | ⟨version, _, isManifest⟩ | ⟨version, listing, file, found, _, member, same⟩)
  · exact versionPrefix_ne_currentKey _ _ isPointer
  · exact versionPrefix_ne_manifestKey _ _ _ isManifest
  · exact sound.fresh found member path same.symm

/-- Nobody needs the next version's manifest. -/
theorem Sound.stage_spare (sound : Sound view ledger current) :
    ¬ Needed view ledger current (manifestKey (current + 1)) := by
  rintro (isPointer | ⟨version, retained, same⟩ | ⟨version, listing, file, found, _, member, same⟩)
  · exact manifestKey_ne_currentKey _ isPointer
  · have within := retained.1
    rw [← manifestKey_injective same] at within
    exact absurd within (Nat.not_succ_le_self current)
  · obtain ⟨origin, _, path, _, _, _, located⟩ := sound.origins version listing found file member
    exact versionPrefix_ne_manifestKey _ _ _ (located.symm.trans same.symm)

/-- Putting an object into the next version's directory keeps the invariant. -/
theorem Sound.upload (sound : Sound view ledger current) (path : Text) (bytes : List UInt8) :
    Sound (Function.update view (versionPrefix (current + 1) ++ path) (some (.data bytes)))
      ledger current := by
  apply sound.update (sound.upload_spare path)
  · rintro object ⟨⟩
    exact Or.inr ⟨current + 1, path, bytes, rfl, rfl⟩
  · rintro version manifest ⟨⟩
  · intro version
    exact (retained_of_unlisted
      (fun other _ same => versionPrefix_ne_manifestKey _ _ _ same.symm) version).mp

/-- Recording a manifest of the next version keeps the invariant. -/
theorem Sound.record (sound : Sound view ledger current) {listing : Listing}
    (numbered : listing.version = current + 1) :
    Sound view { ledger with listings := ledger.listings ++ [listing] } current := by
  refine { sound with attributed := ?_ }
  intro version found isFound
  have inside : version < ledger.published.length := (List.getElem?_eq_some_iff.mp isFound).1
  have counted := sound.counted
  rw [Ledger.writer_append, if_neg (by omega)]
  exact sound.attributed version found isFound

/-- Putting the next version's manifest keeps the invariant. -/
theorem Sound.stage (sound : Sound view ledger current) {manifest : TableManifest}
    (numbered : manifest.version = current + 1) (below : current + 1 < u64Bound) :
    Sound (Function.update view (manifestKey (current + 1)) (some (.manifest manifest)))
      ledger current := by
  apply sound.update sound.stage_spare
  · rintro object ⟨⟩
    exact Or.inl ⟨current, manifest, rfl, below, rfl, numbered⟩
  · rintro version manifest _ same
    rw [← Nat.succ.inj (manifestKey_injective same)]
    exact List.getElem?_eq_none (Nat.le_of_eq sound.counted)
  · intro version
    refine (retained_of_unlisted (fun other within same => ?_) version).mp
    have equal := manifestKey_injective same
    omega

/-- Removing an object nobody needs admits no version to the window. -/
theorem removal_narrows {key : Text} (spare : ¬ Needed view ledger current key) {version : Nat}
    (retained : Retained (Function.update view key none) current version) :
    Retained view current version := by
  by_cases isManifest : ∃ removed, removed ≤ current ∧ manifestKey removed = key
  · obtain ⟨removed, _, rfl⟩ := isManifest
    have outside : ¬ Retained view current removed :=
      fun inside => spare (Or.inr (Or.inl ⟨removed, inside, rfl⟩))
    refine Retention.inWindow_of_removed outside ?_ ?_ retained
    · intro other different
      have apart : manifestKey other ≠ manifestKey removed :=
        fun same => different (manifestKey_injective same)
      rw [stored, stored, Function.update_of_ne apart]
    · rw [stored, Function.update_self, Option.isSome_none]
  · exact (retained_of_unlisted (fun other within same => isManifest ⟨other, within, same⟩)
      version).mp retained

/-- Removing an object nobody needs keeps the invariant. -/
theorem Sound.remove (sound : Sound view ledger current) {key : Text}
    (spare : ¬ Needed view ledger current key) :
    Sound (Function.update view key none) ledger current := by
  apply sound.update spare
  · exact fun object impossible => nomatch impossible
  · exact fun version manifest impossible => nomatch impossible
  · exact fun version retained => removal_narrows spare retained

end Sound

/-- The manifest a publisher has staged: its files were in the current version or
have been put under the next one. -/
structure Staged (view : Text → Option Object) (ledger : Ledger) (current : Nat)
    (listing : Listing) : Prop where
  below : current + 1 < u64Bound
  numbered : listing.version = current + 1
  latest : ledger.writer (current + 1) = some listing
  written : ∃ manifest, view (manifestKey (current + 1)) = some (.manifest manifest) ∧
    manifest.files = listing.files
  supplied : ∀ file ∈ listing.files,
    (∃ before, ledger.published[current - 1]? = some before ∧ file ∈ before.files) ∨
      ∃ path bytes, file.key = versionPrefix (current + 1) ++ path ∧
        listing.uploads file.key = some bytes ∧ view file.key = some (.data bytes)

section Flip

variable {view : Text → Option Object} {ledger : Ledger} {current : Nat} {published : List Listing}
  {listing : Listing}

/-- Publishing does not change which publication named a key first. -/
theorem firstNaming_append {key : Text} {first : Listing}
    (found : firstNaming published key = some first) :
    firstNaming (published ++ [listing]) key = some first := by
  rw [firstNaming, List.find?_append, ← firstNaming, found, Option.some_or]

/-- The publications after a flip are the earlier ones and the new one. -/
theorem publication_append {index : Nat} {found : Listing}
    (isFound : (published ++ [listing])[index]? = some found) :
    published[index]? = some found ∨ (index = published.length ∧ found = listing) := by
  rcases Nat.lt_trichotomy index published.length with inside | rfl | beyond
  · rw [List.getElem?_append_left inside] at isFound
    exact Or.inl isFound
  · rw [List.getElem?_concat_length] at isFound
    exact Or.inr ⟨rfl, (Option.some.inj isFound).symm⟩
  · have outside : (published ++ [listing]).length ≤ index := by
      rw [List.length_append]
      exact beyond
    exact nomatch (List.getElem?_eq_none outside).symm.trans isFound

/-- An earlier publication keeps its place. -/
theorem publication_kept {index : Nat} {found : Listing}
    (isFound : published[index]? = some found) :
    (published ++ [listing])[index]? = some found := by
  rw [List.getElem?_append_left (List.getElem?_eq_some_iff.mp isFound).1]
  exact isFound

/-- No output is stored under the pointer's key. -/
theorem Sound.data_apart (sound : Sound view ledger current) {key : Text} {bytes : List UInt8}
    (present : view key = some (.data bytes)) : key ≠ currentKey := by
  rintro rfl
  rw [sound.pointer] at present
  split at present
  · exact nomatch present
  · exact nomatch present

/-- Flipping the pointer to a staged version keeps the invariant.

The new manifest's files hold their publisher's content: those carried forward by
the invariant of the previous version, the others because they were just put. An
older version that is retained afterwards was retained before. -/
theorem Sound.flip (sound : Sound view ledger current)
    (staged : Staged view ledger current listing) :
    Sound (Function.update view currentKey (some (.pointer ⟨current + 1⟩)))
      { ledger with published := ledger.published ++ [listing] } (current + 1) := by
  have elsewhere : ∀ key, key ≠ currentKey →
      Function.update view currentKey (some (.pointer ⟨current + 1⟩)) key = view key :=
    fun key different => Function.update_of_ne different _ view
  have manifests : ∀ version,
      Function.update view currentKey (some (.pointer ⟨current + 1⟩)) (manifestKey version) =
        view (manifestKey version) :=
    fun version => elsewhere _ (manifestKey_ne_currentKey version)
  have filesApart : ∀ (index : Nat) (before : Listing), ledger.published[index]? = some before →
      ∀ file ∈ before.files, Retained view current (index + 1) →
        ∃ first bytes, firstNaming (ledger.published ++ [listing]) file.key = some first ∧
          first.uploads file.key = some bytes ∧
          Function.update view currentKey (some (.pointer ⟨current + 1⟩)) file.key =
            some (.data bytes) := by
    intro index before found file member retained
    obtain ⟨first, bytes, naming, uploaded, present⟩ :=
      sound.contents index before found retained file member
    exact ⟨first, bytes, firstNaming_append naming, uploaded,
      (elsewhere _ (sound.data_apart present)).trans present⟩
  obtain ⟨manifest, manifestPresent, sameFiles⟩ := staged.written
  refine { bounded := staged.below, counted := ?_, pointer := ?_, named := ?_, numbered := ?_,
           attributed := ?_, listed := ?_, latest := ?_, origins := ?_, contents := ?_ }
  · rw [List.length_append, sound.counted, List.length_singleton]
  · rw [Function.update_self, if_neg (Nat.succ_ne_zero current)]
  · intro key body present
    by_cases isPointer : key = currentKey
    · exact Or.inl isPointer
    · rw [elsewhere key isPointer] at present
      exact sound.named key body present
  · intro version found isFound
    rcases publication_append isFound with earlier | ⟨rfl, rfl⟩
    · exact sound.numbered version found earlier
    · rw [sound.counted]
      exact staged.numbered
  · intro version found isFound
    rcases publication_append isFound with earlier | ⟨rfl, rfl⟩
    · exact sound.attributed version found earlier
    · rw [sound.counted]
      exact staged.latest
  · intro version found stored isFound present
    rw [manifests] at present
    rcases publication_append isFound with earlier | ⟨rfl, rfl⟩
    · exact sound.listed version found stored earlier present
    · rw [sound.counted] at present
      obtain ⟨⟩ := manifestPresent.symm.trans present
      exact sameFiles
  · intro _
    rw [stored, manifests, manifestPresent, Option.isSome_some]
  · intro version found isFound file member
    rcases publication_append isFound with earlier | ⟨rfl, rfl⟩
    · obtain ⟨origin, first, path, bound, isFirst, names, key⟩ :=
        sound.origins version found earlier file member
      exact ⟨origin, first, path, bound, publication_kept isFirst, names, key⟩
    · rcases staged.supplied file member with ⟨before, isBefore, carried⟩ | ⟨path, bytes, key, _, _⟩
      · obtain ⟨origin, first, path, bound, isFirst, names, key⟩ :=
          sound.origins _ before isBefore file carried
        exact ⟨origin, first, path, by rw [sound.counted]; omega, publication_kept isFirst, names,
          key⟩
      · refine ⟨ledger.published.length, found, path, Nat.le_refl _,
          List.getElem?_concat_length, ?_, ?_⟩
        · exact List.any_eq_true.mpr ⟨file, member, decide_eq_true rfl⟩
        · rw [sound.counted]
          exact key
  · intro version found isFound retained file member
    rcases publication_append isFound with earlier | ⟨rfl, rfl⟩
    · have inside := (List.getElem?_eq_some_iff.mp earlier).1
      have older : version + 1 ≤ current := by
        rw [← sound.counted]
        exact inside
      have before := Retention.inWindow_of_raised
        (fun other _ => congrArg Option.isSome (manifests other)) older retained
      exact filesApart version found earlier file member before
    · rcases staged.supplied file member with
        ⟨before, isBefore, carried⟩ | ⟨path, bytes, key, uploaded, present⟩
      · have inside := (List.getElem?_eq_some_iff.mp isBefore).1
        have positive : current ≠ 0 := by
          rintro rfl
          rw [sound.counted] at inside
          exact Nat.not_lt_zero _ inside
        have predecessor : current - 1 + 1 = current := Nat.succ_pred_eq_of_ne_zero positive
        apply filesApart (current - 1) before isBefore file carried
        rw [predecessor]
        exact sound.current_retained positive
      · have notBefore : firstNaming ledger.published file.key = none := by
          refine List.find?_eq_none.mpr ?_
          intro earlier isEarlier namesToo
          obtain ⟨other, otherMember, same⟩ := List.any_eq_true.mp namesToo
          obtain ⟨index, isAt⟩ := List.mem_iff_getElem?.mp isEarlier
          exact sound.fresh isAt otherMember path ((of_decide_eq_true same).trans key)
        have names : found.names file.key = true :=
          List.any_eq_true.mpr ⟨file, member, decide_eq_true rfl⟩
        refine ⟨found, bytes, ?_, uploaded, (elsewhere _ (sound.data_apart present)).trans present⟩
        rw [firstNaming, List.find?_append, ← firstNaming, notBefore, Option.none_or,
          List.find?_singleton, if_pos names]

end Flip

end KaretWorker
