import KaretWorker.TableInvariant

/-!
# Runs keep the table sound

`At` says what an execution knows about the table in each phase of the protocol:
which version it works on, what it has put, what its listing showed and which
retained manifests it has read. Each move of the protocol, under whatever answer
the store gives, keeps the table sound and leads to the next phase's knowledge
(`Move.keeps`). Reading the pointer needs no knowledge at all, so an execution
that reads it may forget everything.

The world-level invariant `Safe` tracks the knowledge of the execution that read
the pointer last, the only one the rule `LatestChanges` lets change the table.
-/
namespace KaretWorker

open Texts Interaction Indexing

/-- The versions a listing shows. -/
def shown (relative : List Text) (version : Nat) : Bool :=
  decide (version ∈ listedVersions relative)

/-- A vacuum's knowledge: its listing covers everything stored, and each version
in the listing's window is still to be read or among the manifests read. -/
structure Surveyed (view : Text → Option Object) (ledger : Ledger) (current : Nat)
    (relative : List Text) (retained : List TableManifest) (pending : List Nat) : Prop where
  covered : ∀ key, (view key).isSome = true → key ∈ relative
  distinct : (listedVersions relative).Nodup
  narrowed : ∀ version, Retained view current version →
    Retention.InWindow (shown relative) retainedVersions current version
  read : ∀ (version : Nat) listing, ledger.published[version]? = some listing →
    Retention.InWindow (shown relative) retainedVersions current (version + 1) →
    version + 1 ∈ pending ∨ ∃ manifest ∈ retained, manifest.files = listing.files

/-- What an execution knows of the table in each phase. -/
def At (view : Text → Option Object) (ledger : Ledger)
    (uploads : Text → Option (List UInt8)) (staged : Option Listing) (current : Nat) :
    Phase → Prop
  | .waiting => True
  | .reading version => version = current ∧ current ≠ 0
  | .writing version base written =>
    version = current + 1 ∧ version < u64Bound ∧
      (∀ file ∈ base, ∃ before, ledger.published[current - 1]? = some before ∧ file ∈ before.files) ∧
      ∀ key ∈ written, ∃ path bytes, key = versionPrefix version ++ path ∧
        uploads key = some bytes ∧ view key = some (.data bytes)
  | .flipping version =>
    version = current + 1 ∧ ∃ listing, staged = some listing ∧ Staged view ledger current listing
  | .listing version => version = current ∧ current ≠ 0
  | .vacuuming version relative retained pending =>
    version = current ∧ Surveyed view ledger current relative retained pending
  | .finished => True

section Vacuum

variable {view : Text → Option Object} {ledger : Ledger} {current : Nat}

/-- An object whose key names a version is that version's manifest. -/
theorem Sound.named_version (sound : Sound view ledger current) {key : Text} {version : Nat}
    (present : (view key).isSome = true) (names : manifestVersion key = some version) :
    key = manifestKey version := by
  obtain ⟨body, found⟩ := Option.isSome_iff_exists.mp present
  rcases sound.named key body found with rfl | ⟨named, _, rfl, below, _, _⟩ |
    ⟨named, path, _, rfl, _⟩
  · exact absurd (manifestVersion_directory names) (by decide)
  · rw [manifestVersion_manifestKey below] at names
    rw [Option.some.inj names]
  · have directory := manifestVersion_directory names
    rw [versionPrefix_not_directory] at directory
    exact nomatch directory

/-- A complete listing of a sound table shows exactly the stored versions. -/
theorem Sound.shown_iff (sound : Sound view ledger current) {relative : List Text}
    (exactly : ∀ key, key ∈ relative ↔ (view key).isSome = true) (version : Nat) :
    version ∈ listedVersions relative ↔ stored view version = true := by
  simp only [listedVersions, List.mem_filterMap, exactly]
  constructor
  · rintro ⟨key, present, names⟩
    rw [sound.named_version present names] at present
    exact present
  · intro present
    obtain ⟨_, _, _, _, below⟩ := sound.manifest present
    exact ⟨manifestKey version, present, manifestVersion_manifestKey below⟩

/-- Listed versions are distinct when each is named as a publish names it. -/
theorem listedVersions_nodup {relative : List Text} (distinct : relative.Nodup)
    (named : ∀ key ∈ relative, ∀ version, manifestVersion key = some version →
      key = manifestKey version) : (listedVersions relative).Nodup := by
  apply List.pairwise_filterMap.mpr
  refine List.Pairwise.imp_of_mem ?_ distinct
  intro left right leftMember rightMember different version names version' names' same
  apply different
  rw [named left leftMember version names, named right rightMember version' names', same]

/-- A complete listing of a sound table is a vacuum's survey, with the kept
versions still to be read. -/
theorem Sound.survey (sound : Sound view ledger current) {relative : List Text}
    (exactly : ∀ key, key ∈ relative ↔ (view key).isSome = true) (distinct : relative.Nodup) :
    Surveyed view ledger current relative [] (keptVersions relative current) := by
  have versionsDistinct : (listedVersions relative).Nodup := listedVersions_nodup distinct
    (fun key member version names => sound.named_version ((exactly key).mp member) names)
  have sameVersions : ∀ version, shown relative version = stored view version := by
    intro version
    rw [shown, Bool.eq_iff_iff, decide_eq_true_eq]
    exact sound.shown_iff exactly version
  refine ⟨fun key present => (exactly key).mpr present, versionsDistinct, ?_, ?_⟩
  · intro version retained
    exact (Retention.inWindow_congr (fun other _ _ => sameVersions other)).mpr retained
  · intro version listing found inside
    left
    have isListed : version + 1 ∈ listedVersions relative := of_decide_eq_true inside.2.1
    have notDoomed : version + 1 ∉ doomedVersions relative current := by
      intro doomed
      exact ((mem_versionsToDrop versionsDistinct current retainedVersions _).mp doomed).2.2 inside
    simp only [keptVersions, List.mem_filter, Bool.and_eq_true, Bool.not_eq_true',
      List.contains_eq_mem, decide_eq_false_iff_not, decide_eq_true_eq]
    exact ⟨isListed, notDoomed, inside.1⟩

/-- Reading a pending manifest adds it to the survey. -/
theorem Surveyed.readNext (sound : Sound view ledger current) {relative : List Text}
    {retained : List TableManifest} {version : Nat} {pending : List Nat}
    (surveyed : Surveyed view ledger current relative retained (version :: pending))
    {manifest : TableManifest} (present : view (manifestKey version) = some (.manifest manifest)) :
    Surveyed view ledger current relative (retained ++ [manifest]) pending := by
  refine ⟨surveyed.covered, surveyed.distinct, surveyed.narrowed, ?_⟩
  intro tested listing found inside
  rcases surveyed.read tested listing found inside with isPending | ⟨other, member, same⟩
  · rcases List.mem_cons.mp isPending with rfl | later
    · right
      exact ⟨manifest, List.mem_append_right _ List.mem_cons_self,
        sound.listed tested listing manifest found present⟩
    · exact Or.inl later
  · exact Or.inr ⟨other, List.mem_append_left _ member, same⟩

/-- Nobody needs a target of a vacuum that has read all kept manifests. -/
theorem Surveyed.target_spare (sound : Sound view ledger current) {relative : List Text}
    {retained : List TableManifest} (surveyed : Surveyed view ledger current relative retained [])
    {key : Text} (target : key ∈ vacuumTargets relative current retained) :
    ¬ Needed view ledger current key := by
  rcases List.mem_append.mp target with unreferenced | doomed
  · obtain ⟨_, notDirectory, notPointer, notNamed⟩ := mem_unreferencedKeys.mp unreferenced
    rintro (isPointer | ⟨version, _, rfl⟩ | ⟨version, listing, file, found, inside, member, rfl⟩)
    · exact notPointer isPointer
    · rw [manifestKey_directory] at notDirectory
      exact nomatch notDirectory
    · rcases surveyed.read version listing found (surveyed.narrowed _ inside) with
        impossible | ⟨manifest, isRead, same⟩
      · exact absurd impossible List.not_mem_nil
      · exact notNamed manifest isRead file (same ▸ member) rfl
  · obtain ⟨version, isDoomed, rfl⟩ := List.mem_map.mp doomed
    obtain ⟨_, _, outside⟩ :=
      (mem_versionsToDrop surveyed.distinct current retainedVersions version).mp isDoomed
    rintro (isPointer | ⟨other, inside, same⟩ | ⟨other, listing, file, found, _, member, same⟩)
    · exact manifestKey_ne_currentKey version isPointer
    · rw [manifestKey_injective same] at outside
      exact outside (surveyed.narrowed other inside)
    · obtain ⟨origin, _, path, _, _, _, located⟩ := sound.origins other listing found file member
      exact versionPrefix_ne_manifestKey _ _ _ (located.symm.trans same.symm)

/-- A survey stays valid when an object nobody needs is removed. -/
theorem Surveyed.remove {relative : List Text} {retained : List TableManifest} {pending : List Nat}
    (surveyed : Surveyed view ledger current relative retained pending) {key : Text}
    (spare : ¬ Needed view ledger current key) :
    Surveyed (Function.update view key none) ledger current relative retained pending := by
  refine ⟨?_, surveyed.distinct, ?_, surveyed.read⟩
  · intro other present
    by_cases same : other = key
    · rw [same, Function.update_self] at present
      exact nomatch present
    · rw [Function.update_of_ne same] at present
      exact surveyed.covered other present
  · exact fun version retained => surveyed.narrowed version (removal_narrows spare retained)

end Vacuum

/-! ## Moves -/

/-- The two ways a table goes on: it stays sound and every needed object is kept,
or the pointer is put and the staged version becomes the current one. -/
inductive Advance (table : Text) (effect : Effect) (applied : Bool) (view : Text → Option Object)
    (ledger : Ledger) (current : Nat) : (Text → Option Object) → Ledger → Nat → Prop where
  | still {view' : Text → Option Object} {ledger' : Ledger} (sound : Sound view' ledger' current)
      (kept : ∀ key, Needed view ledger current key → view' key = view key)
      (published : ledger'.published = ledger.published) :
      Advance table effect applied view ledger current view' ledger' current
  | flip {listing : Listing} (staged : Staged view ledger current listing)
      (isFlip : effect = .putObject .warehouse (table ++ currentKey) (.pointer ⟨current + 1⟩))
      (isApplied : applied = true) :
      Advance table effect applied view ledger current
        (Function.update view currentKey (some (.pointer ⟨current + 1⟩)))
        { ledger with published := ledger.published ++ [listing] } (current + 1)

/-- Either way the table stays sound. -/
theorem Advance.sound {table : Text} {effect : Effect} {applied : Bool}
    {view view' : Text → Option Object} {ledger ledger' : Ledger} {current current' : Nat}
    (advance : Advance table effect applied view ledger current view' ledger' current')
    (sound : Sound view ledger current) : Sound view' ledger' current' := by
  cases advance with
  | still sound' _ _ => exact sound'
  | flip staged _ _ => exact sound.flip staged

/-- Either readers and publications are as before, or the pointer was flipped. -/
theorem Advance.outcome {table : Text} {effect : Effect} {applied : Bool}
    {view view' : Text → Option Object} {ledger ledger' : Ledger} {current current' : Nat}
    (advance : Advance table effect applied view ledger current view' ledger' current')
    (sound : Sound view ledger current) :
    (current' = current ∧ ledger'.published = ledger.published ∧ resolve view' = resolve view) ∨
      (current' = current + 1 ∧ applied = true ∧
        effect = .putObject .warehouse (table ++ currentKey) (.pointer ⟨current + 1⟩) ∧
        ∃ listing, ledger'.published = ledger.published ++ [listing]) := by
  cases advance with
  | still _ kept published => exact Or.inl ⟨rfl, published, sound.resolve_kept kept⟩
  | @flip listing _ isFlip isApplied => exact Or.inr ⟨rfl, isApplied, isFlip, listing, rfl⟩

section Moves

variable {view : Text → Option Object} {ledger : Ledger}
  {uploads : Text → Option (List UInt8)} {staged : Option Listing} {current : Nat}

/-- An upload adds its key to what the execution has put. -/
theorem At.upload {version : Nat} {base : List ManifestFile} {written : List Text}
    (known : At view ledger uploads staged current (.writing version base written))
    (path : Text) (bytes : List UInt8) :
    At (Function.update view (versionPrefix version ++ path) (some (.data bytes))) ledger
      (Function.update uploads (versionPrefix version ++ path) (some bytes)) staged current
      (.writing version base ((versionPrefix version ++ path) :: written)) := by
  obtain ⟨next, below, carried, put⟩ := known
  refine ⟨next, below, carried, ?_⟩
  intro key member
  by_cases same : key = versionPrefix version ++ path
  · refine ⟨path, bytes, same, ?_, ?_⟩
    · rw [same, Function.update_self]
    · rw [same, Function.update_self]
  · obtain ⟨path', bytes', located, uploaded, present⟩ :=
      put key ((List.mem_cons.mp member).resolve_left same)
    refine ⟨path', bytes', located, ?_, ?_⟩
    · rw [Function.update_of_ne same, uploaded]
    · rw [Function.update_of_ne same, present]

/-- Forgetting that a key was put. -/
theorem At.forget {version : Nat} {base : List ManifestFile} {key : Text} {written : List Text}
    (known : At view ledger uploads staged current (.writing version base (key :: written))) :
    At view ledger uploads staged current (.writing version base written) :=
  ⟨known.1, known.2.1, known.2.2.1,
    fun other member => known.2.2.2 other (List.mem_cons_of_mem _ member)⟩

/-- A manifest of carried and put files is staged once it is put and recorded. -/
theorem At.stage {version : Nat} {base : List ManifestFile} {written : List Text}
    (known : At view ledger uploads staged current (.writing version base written))
    {manifest : TableManifest} (numbered : manifest.version = version)
    (listed : ∀ file ∈ manifest.files, file ∈ base ∨ file.key ∈ written) {listing : Listing}
    (recorded : listing.version = manifest.version ∧ listing.files = manifest.files ∧
      listing.uploads = uploads) :
    Staged (Function.update view (manifestKey version) (some (.manifest manifest)))
      { ledger with listings := ledger.listings ++ [listing] } current listing := by
  obtain ⟨rfl, below, carried, put⟩ := known
  obtain ⟨sameVersion, sameFiles, rfl⟩ := recorded
  refine ⟨below, sameVersion.trans numbered, ?_,
    ⟨manifest, Function.update_self .., sameFiles.symm⟩,
    ?_⟩
  · rw [Ledger.writer_append, if_pos (sameVersion.trans numbered)]
  rw [sameFiles]
  intro file member
  rcases listed file member with fromBase | isPut
  · exact Or.inl (carried file fromBase)
  · obtain ⟨path, bytes, located, uploaded, present⟩ := put file.key isPut
    refine Or.inr ⟨path, bytes, located, uploaded, ?_⟩
    have different : file.key ≠ manifestKey (current + 1) := by
      rw [located]
      exact versionPrefix_ne_manifestKey _ _ _
    rw [Function.update_of_ne different, present]

/-- The manifest of the current version, once read, is the base of the next. -/
theorem At.base (sound : Sound view ledger current) {version : Nat}
    (known : At view ledger uploads staged current (.reading version))
    {manifest : TableManifest} (present : view (manifestKey version) = some (.manifest manifest))
    (bounded : manifest.version + 1 < u64Bound) :
    At view ledger uploads staged current
      (.writing (manifest.version + 1) manifest.files []) := by
  obtain ⟨rfl, positive⟩ := known
  have isStored : stored view version = true := by rw [stored, present, Option.isSome_some]
  obtain ⟨manifest', present', numbered, _⟩ := sound.manifest isStored
  obtain ⟨⟩ := present.symm.trans present'
  obtain ⟨index, listing, rfl, found⟩ := sound.publication isStored (Nat.le_refl _)
  have sameFiles := sound.listed index listing manifest found present
  refine ⟨by rw [numbered], bounded, ?_, fun key impossible => absurd impossible List.not_mem_nil⟩
  intro file member
  exact ⟨listing, found, sameFiles ▸ member⟩

end Moves

/-- Foreign effects change no object of the table. -/
theorem Foreign.quiet {table : Text} {effect : Effect} (elsewhere : Foreign table effect) :
    ¬ Changes table effect := by
  intro changes
  cases effect with
  | putObject bucket key body =>
    cases bucket with
    | lake => exact changes
    | warehouse => exact elsewhere changes
  | deleteObject bucket key =>
    cases bucket with
    | lake => exact changes
    | warehouse => exact elsewhere changes
  | _ => exact changes

section Keeps

variable {table : Text} {buckets buckets' : Buckets} {history : History} {author current : Nat}
  {given : Answer}

/-- A move that changes nothing under the table, to a phase whose knowledge the
execution already has. -/
theorem keeps_quiet {effect : Effect} {reply : Reply effect} {phase' : Phase}
    (quiet : ¬ Changes table effect)
    (notPointer : effect ≠ .getBytes .warehouse (table ++ currentKey))
    (answered : answer buckets effect given = some (reply, buckets'))
    (sound : Sound (buckets.under table) history.ledger current)
    (known : At (buckets.under table) history.ledger (history.uploads author)
      (history.staged author) current phase') :
    ∃ current', Advance table effect given.applied (buckets.under table) history.ledger current
        (buckets'.under table) (history.record table author effect given.applied).ledger current' ∧
      At (buckets'.under table) (history.record table author effect given.applied).ledger
        ((history.record table author effect given.applied).uploads author)
        ((history.record table author effect given.applied).staged author) current' phase' := by
  rw [under_unchanged quiet answered, record_quiet quiet notPointer]
  exact ⟨current, .still sound (fun _ _ => rfl) rfl, known⟩

/-- A put under the table took place and is recorded, or nothing happened and the
caller saw an error. -/
theorem put_under {key : Text} {body : Object} {reply : Except Text Unit}
    (answered : answer buckets (.putObject .warehouse (table ++ key) body) given =
      some (reply, buckets')) :
    (given.applied = true ∧
        buckets'.under table = Function.update (buckets.under table) key (some body) ∧
        history.record table author (.putObject .warehouse (table ++ key) body) given.applied =
          history.put author key body) ∨
      (buckets'.under table = buckets.under table ∧
        history.record table author (.putObject .warehouse (table ++ key) body) given.applied =
          history ∧ ∃ error, reply = .error error) := by
  rcases answer_putObject answered with ⟨applied, rfl⟩ | ⟨notApplied, rfl, failed⟩
  · refine Or.inl ⟨applied, under_insert table key body, ?_⟩
    rw [record_put, applied, if_pos rfl]
  · refine Or.inr ⟨rfl, ?_, failed⟩
    rw [record_put, notApplied]
    rfl

/-- A delete under the table took place or nothing happened. -/
theorem delete_under {key : Text} {reply : Except Text Unit}
    (answered : answer buckets (.deleteObject .warehouse (table ++ key)) given =
      some (reply, buckets')) :
    buckets'.under table = Function.update (buckets.under table) key none ∨
      buckets'.under table = buckets.under table := by
  rcases answer_deleteObject answered with rfl | rfl
  · exact Or.inl (under_erase table key)
  · exact Or.inr rfl

/-- A listing of the table shows each stored object once. -/
theorem listing_exact {keys : List Text}
    (answered : answer buckets (.listKeys .warehouse table) given = some (.ok keys, buckets')) :
    (∀ key, key ∈ keys.filterMap (fun full => full.dropPrefix? table) ↔
        (buckets.under table key).isSome = true) ∧
      (keys.filterMap (fun full => full.dropPrefix? table)).Nodup := by
  obtain rfl := (answer_listKeys answered).2 keys rfl
  constructor
  · intro key
    simp only [List.mem_filterMap, dropPrefix_iff]
    constructor
    · rintro ⟨full, member, rfl⟩
      exact (Store.mem_listKeys.mp member).2
    · intro present
      exact ⟨table ++ key, Store.mem_listKeys.mpr ⟨List.prefix_append _ _, present⟩, rfl⟩
  · apply (Store.nodup_listKeys _ _).filterMap
    intro left right key isLeft isRight
    rw [dropPrefix_iff.mp isLeft, dropPrefix_iff.mp isRight]

/-- Each move other than reading the pointer keeps the table sound and leads to
the knowledge of the next phase. -/
theorem Move.keeps {phase phase' : Phase} {effect : Effect} {reply : Reply effect}
    (move : Move table phase effect reply phase')
    (notPointer : effect ≠ .getBytes .warehouse (table ++ currentKey))
    (answered : answer buckets effect given = some (reply, buckets'))
    (sound : Sound (buckets.under table) history.ledger current)
    (known : At (buckets.under table) history.ledger (history.uploads author)
      (history.staged author) current phase) :
    ∃ current', Advance table effect given.applied (buckets.under table) history.ledger current
        (buckets'.under table) (history.record table author effect given.applied).ledger current' ∧
      At (buckets'.under table) (history.record table author effect given.applied).ledger
        ((history.record table author effect given.applied).uploads author)
        ((history.record table author effect given.applied).staged author) current' phase' := by
  cases move with
  | foreign phase effect reply elsewhere =>
    exact keeps_quiet elsewhere.quiet notPointer answered sound known
  | pointerRead | pointerMissing | pointerMalformed => exact absurd rfl notPointer
  | manifestRead version manifest bounded =>
    apply keeps_quiet id notPointer answered sound
    rcases (answer_getBytes answered).2 with ⟨_, ⟨⟩, present⟩ | ⟨_, impossible, _⟩
    · exact known.base sound present bounded
    · exact nomatch impossible
  | manifestUnread | listFailed | retainedUnread =>
    exact keeps_quiet id notPointer answered sound trivial
  | uploaded version base written path bytes key placed =>
    subst placed
    have uploaded := known.upload path bytes
    obtain ⟨rfl, below, _⟩ := known
    rcases put_under answered with ⟨applied, after, recorded⟩ | ⟨_, _, _, impossible⟩
    · rw [after, recorded]
      refine ⟨current, .still (sound.upload path bytes)
        (needed_kept (sound.upload_spare path)) rfl, ?_⟩
      simpa only [History.put, Function.update_self] using uploaded
    · exact nomatch impossible
  | uploadFailed version base written path bytes key placed error =>
    subst placed
    have uploaded := (known.upload path bytes).forget
    rcases put_under answered with ⟨applied, after, recorded⟩ | ⟨after, recorded, _⟩
    · obtain ⟨rfl, below, _⟩ := known
      rw [after, recorded]
      refine ⟨current, .still (sound.upload path bytes)
        (needed_kept (sound.upload_spare path)) rfl, ?_⟩
      simpa only [History.put, Function.update_self] using uploaded
    · rw [after, recorded]
      exact ⟨current, .still sound (fun _ _ => rfl) rfl, known⟩
  | manifestWritten version base written manifest numbered listed =>
    have staged := @At.stage _ _ _ _ _ _ _ _ known manifest numbered listed
      ⟨author, manifest.version, manifest.files, history.uploads author⟩ ⟨rfl, rfl, rfl⟩
    obtain ⟨rfl, below, _⟩ := known
    rcases put_under answered with ⟨applied, after, recorded⟩ | ⟨_, _, _, impossible⟩
    · rw [after, recorded]
      refine ⟨current, .still ((sound.stage numbered below).record numbered)
        (needed_kept sound.stage_spare) rfl, rfl, _, ?_, staged⟩
      simp only [History.put, Function.update_self]
    · exact nomatch impossible
  | manifestFailed version base written manifest numbered listed error =>
    obtain ⟨rfl, below, _⟩ := known
    rcases put_under answered with ⟨applied, after, recorded⟩ | ⟨after, recorded, _⟩
    · rw [after, recorded]
      exact ⟨current, .still ((sound.stage numbered below).record numbered)
        (needed_kept sound.stage_spare) rfl, trivial⟩
    · rw [after, recorded]
      exact ⟨current, .still sound (fun _ _ => rfl) rfl, trivial⟩
  | pointerWritten version =>
    obtain ⟨rfl, listing, isStaged, staged⟩ := known
    rcases put_under answered with ⟨applied, after, recorded⟩ | ⟨_, _, _, impossible⟩
    · rw [after, recorded]
      refine ⟨current + 1, ?_, rfl, Nat.succ_ne_zero current⟩
      simp only [History.put, isStaged, Option.toList_some]
      exact .flip staged rfl applied
    · exact nomatch impossible
  | pointerFailed version error =>
    obtain ⟨rfl, listing, isStaged, staged⟩ := known
    rcases put_under answered with ⟨applied, after, recorded⟩ | ⟨after, recorded, _⟩
    · rw [after, recorded]
      refine ⟨current + 1, ?_, trivial⟩
      simp only [History.put, isStaged, Option.toList_some]
      exact .flip staged rfl applied
    · rw [after, recorded]
      exact ⟨current, .still sound (fun _ _ => rfl) rfl, trivial⟩
  | listed version keys relative stripped =>
    obtain ⟨rfl, _⟩ := known
    obtain ⟨exactly, distinct⟩ := listing_exact answered
    rw [← stripped] at exactly distinct
    exact keeps_quiet id notPointer answered sound ⟨rfl, sound.survey exactly distinct⟩
  | retainedRead version relative retained named pending manifest =>
    obtain ⟨rfl, surveyed⟩ := known
    apply keeps_quiet id notPointer answered sound
    rcases (answer_getBytes answered).2 with ⟨_, ⟨⟩, present⟩ | ⟨_, impossible, _⟩
    · exact ⟨rfl, surveyed.readNext sound present⟩
    · exact nomatch impossible
  | deleted version relative retained key target reply =>
    obtain ⟨rfl, surveyed⟩ := known
    have spare := surveyed.target_spare sound target
    rcases delete_under answered with after | after
    · rw [after]
      exact ⟨version, .still (sound.remove spare) (needed_kept spare) rfl, rfl,
        surveyed.remove spare⟩
    · rw [after]
      exact ⟨version, .still sound (fun _ _ => rfl) rfl, rfl, surveyed⟩

/-- Reading the pointer of a sound table gives the knowledge of the phase it leads
to, as long as an existing pointer is served. -/
theorem Move.opens {phase phase' : Phase} {effect : Effect} {reply : Reply effect}
    (move : Move table phase effect reply phase')
    (isPointer : effect = .getBytes .warehouse (table ++ currentKey))
    (answered : answer buckets effect given = some (reply, buckets'))
    (served : ∀ error, given = .refused error → buckets.under table currentKey = none)
    {ledger : Ledger} (sound : Sound (buckets.under table) ledger current)
    (uploads : Text → Option (List UInt8)) (staged : Option Listing) :
    At (buckets.under table) ledger uploads staged current phase' := by
  cases move with
  | foreign phase effect reply elsewhere =>
    subst isPointer
    exact absurd (List.prefix_append _ _) elsewhere
  | pointerRead phase ready pointer =>
    rcases (answer_getBytes answered).2 with ⟨_, ⟨⟩, present⟩ | ⟨_, impossible, _⟩
    · have expected := sound.pointer.symm.trans present
      split at expected
      · exact nomatch expected
      · next positive =>
        obtain ⟨⟩ := expected
        exact ⟨rfl, positive⟩
    · exact nomatch impossible
  | pointerMissing phase ready error =>
    rcases (answer_getBytes answered).2 with ⟨_, impossible, _⟩ | ⟨refusal, _, refused⟩
    · exact nomatch impossible
    · have expected := sound.pointer.symm.trans (served refusal refused)
      split at expected
      · next unpublished =>
        subst unpublished
        exact ⟨rfl, by decide, fun file impossible => absurd impossible List.not_mem_nil,
          fun key impossible => absurd impossible List.not_mem_nil⟩
      · exact nomatch expected
  | pointerMalformed => trivial
  | manifestRead version | manifestUnread version | retainedRead _ _ _ version
  | retainedUnread _ _ _ version =>
    have same : table ++ manifestKey version = table ++ currentKey := by
      simpa only [Effect.getBytes.injEq, true_and] using isPointer
    exact absurd (List.append_cancel_left same) (manifestKey_ne_currentKey version)
  | uploaded | uploadFailed | manifestWritten | manifestFailed | pointerWritten | pointerFailed
  | listed | listFailed | deleted => exact nomatch isPointer

end Keeps

/-! ## Worlds -/

/-- The invariant of a world: the table is sound, every running execution keeps
to the protocol, and the one that read the pointer last knows the table. -/
structure Safe (table : Text) (phases : Nat → Phase) (current : Nat) (world : World) : Prop where
  sound : Sound (world.buckets.under table) world.history.ledger current
  keeps : ∀ author job, world.running.lookup author = some job →
    Keeps table (fun _ _ => True) job (phases author)
  knows : ∀ author, world.history.opener = some author →
    At (world.buckets.under table) world.history.ledger (world.history.uploads author)
      (world.history.staged author) current (phases author)

/-- A step flips the pointer: it answers, with effect, a put of the pointer. -/
def Flips (table : Text) (world : World) (version : Nat) : Action → Prop
  | .answer author given => given.applied = true ∧
      world.pending author =
        some (.putObject .warehouse (table ++ currentKey) (.pointer ⟨version⟩))
  | _ => False

/-- What one step does to the table: readers and publications stay as they are, or
the step flips the pointer to the next version, which was staged. -/
def Onward (table : Text) (before after : World) (current current' : Nat) (action : Action) :
    Prop :=
  (current' = current ∧ after.history.ledger.published = before.history.ledger.published ∧
      resolve (after.buckets.under table) = resolve (before.buckets.under table)) ∨
    (current' = current + 1 ∧ Flips table before (current + 1) action ∧
      ∃ listing, after.history.ledger.published = before.history.ledger.published ++ [listing])

section Worlds

variable {pipelinePrefix id : Text} {phases : Nat → Phase} {current : Nat} {world after : World}

/-- One answered call keeps the world safe. -/
theorem Safe.answer {author : Nat} {given : Answer}
    (safe : Safe (tablePrefix pipelinePrefix id) phases current world)
    (proper : world.Proper id (.answer author given))
    (served : world.PointerServed (tablePrefix pipelinePrefix id) (.answer author given))
    (latest : world.LatestChanges (tablePrefix pipelinePrefix id) (.answer author given))
    (stepped : world.step pipelinePrefix (tablePrefix pipelinePrefix id) (.answer author given) =
      some after) :
    ∃ phases' current', Safe (tablePrefix pipelinePrefix id) phases' current' after ∧
      Onward (tablePrefix pipelinePrefix id) world after current current'
        (.answer author given) := by
  obtain ⟨effect, next, reply, buckets, running, answered, rfl⟩ := step_answer stepped
  have isPending : world.pending author = some effect := by rw [World.pending, running]
  have genuine : Genuine effect reply := by
    apply proper ⟨effect, reply⟩
    rw [World.exchange, running]
    exact Option.map_eq_some_iff.mpr ⟨_, answered, rfl⟩
  obtain ⟨phase', move, rest⟩ := safe.keeps author _ running reply genuine
  have keeps : ∀ other job, (world.running.insert author (next reply)).lookup other = some job →
      Keeps (tablePrefix pipelinePrefix id) (fun _ _ => True) job
        (Function.update phases author phase' other) := by
    intro other job found
    rcases lookup_of_insert found with ⟨rfl, rfl⟩ | ⟨different, before⟩
    · rw [Function.update_self]
      exact rest
    · rw [Function.update_of_ne different]
      exact safe.keeps other job before
  by_cases isPointer : effect = .getBytes .warehouse (tablePrefix pipelinePrefix id ++ currentKey)
  · have quiet : ¬ Changes (tablePrefix pipelinePrefix id) effect := by
      rw [isPointer]
      exact not_false
    have unchanged := under_unchanged quiet answered
    have pointerServed : ∀ error, given = .refused error →
        world.buckets.under (tablePrefix pipelinePrefix id) currentKey = none := by
      rintro error rfl
      exact served (isPending.trans (congrArg some isPointer))
    have opened := move.opens isPointer answered pointerServed safe.sound
    refine ⟨Function.update phases author phase', current, ⟨?_, keeps, ?_⟩, Or.inl ⟨rfl, ?_, ?_⟩⟩
    · rw [isPointer, record_getPointer, unchanged]
      exact safe.sound
    · rw [isPointer, record_getPointer, unchanged]
      rintro other ⟨⟩
      rw [Function.update_self]
      exact opened _ _
    · rw [isPointer, record_getPointer]
    · rw [unchanged]
  · by_cases isLatest : world.history.opener = some author
    · obtain ⟨current', advance, known⟩ :=
        move.keeps isPointer answered safe.sound (safe.knows author isLatest)
      refine ⟨Function.update phases author phase', current',
        ⟨advance.sound safe.sound, keeps, ?_⟩, ?_⟩
      · intro other isOpener
        rw [record_opener isPointer, isLatest] at isOpener
        obtain ⟨⟩ := isOpener
        rw [Function.update_self]
        exact known
      · exact (advance.outcome safe.sound).imp_right (fun ⟨next, applied, isFlip, published⟩ =>
          ⟨next, ⟨applied, isPending.trans (congrArg some isFlip)⟩, published⟩)
    · have quiet : ¬ Changes (tablePrefix pipelinePrefix id) effect :=
        fun changes => isLatest (latest effect isPending changes)
      have unchanged := under_unchanged quiet answered
      refine ⟨Function.update phases author phase', current, ⟨?_, keeps, ?_⟩,
        Or.inl ⟨rfl, ?_, ?_⟩⟩
      · rw [record_quiet quiet isPointer, unchanged]
        exact safe.sound
      · rw [record_quiet quiet isPointer, unchanged]
        intro other isOpener
        have different : other ≠ author := by
          rintro rfl
          exact isLatest isOpener
        rw [Function.update_of_ne different]
        exact safe.knows other isOpener
      · rw [record_quiet quiet isPointer]
      · rw [unchanged]

/-- Every step keeps the world safe, and readers see a difference only when the
pointer is flipped. -/
theorem Safe.step (plain : '/' ∉ id) {action : Action}
    (safe : Safe (tablePrefix pipelinePrefix id) phases current world)
    (proper : world.Proper id action)
    (served : world.PointerServed (tablePrefix pipelinePrefix id) action)
    (latest : world.LatestChanges (tablePrefix pipelinePrefix id) action)
    (stepped : world.step pipelinePrefix (tablePrefix pipelinePrefix id) action = some after) :
    ∃ phases' current', Safe (tablePrefix pipelinePrefix id) phases' current' after ∧
      Onward (tablePrefix pipelinePrefix id) world after current current' action := by
  cases action with
  | start author loaded cleanRun =>
    obtain ⟨idle, rfl⟩ := step_start stepped
    refine ⟨Function.update phases author .waiting, current, ⟨safe.sound, ?_, ?_⟩,
      Or.inl ⟨rfl, rfl, rfl⟩⟩
    · intro other job found
      rcases lookup_of_insert found with ⟨rfl, rfl⟩ | ⟨different, before⟩
      · rw [Function.update_self]
        exact executeJob_keeps plain loaded (fun config isLoaded => by
          subst isLoaded
          exact proper) cleanRun
      · rw [Function.update_of_ne different]
        exact safe.keeps other job before
    · intro other isOpener
      by_cases same : other = author
      · subst same
        rw [Function.update_self]
        trivial
      · simp only [History.start, Function.update_of_ne same]
        exact safe.knows other isOpener
  | answer author given => exact safe.answer proper served latest stepped
  | stop author =>
    obtain rfl := Option.some.inj stepped
    refine ⟨phases, current, ⟨safe.sound, ?_, safe.knows⟩, Or.inl ⟨rfl, rfl, rfl⟩⟩
    exact fun other job found => safe.keeps other job (lookup_of_erase found).2
  | fill lake =>
    obtain rfl := Option.some.inj stepped
    exact ⟨phases, current, ⟨safe.sound, safe.keeps, safe.knows⟩, Or.inl ⟨rfl, rfl, rfl⟩⟩

end Worlds

end KaretWorker
