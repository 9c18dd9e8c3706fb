import KaretWorker.Overlap

/-!
# Reads that fail

A run takes any failed get of a table's pointer for an unpublished table. It then
starts over at version 1: it writes that manifest, puts the pointer back to it, and
its vacuum keeps nothing but what the new manifest lists.

For a sound table with a published version, and any set of reads that may fail,
every run leaves the version or its successor current and its files in place
exactly when the pointer's get is not among them, or when there is no history to
lose: version 1 without files.
-/
namespace KaretWorker

open Texts Interaction

/-- An error is excused when it is a read that may fail, or a get of an object
that is not there. Writes take place. -/
def Excused (fails : Effect → Prop) (buckets : Buckets) (effect : Effect) : Answer → Prop
  | .refused _ =>
    match effect with
    | .getBytes bucket key =>
      fails (.getBytes bucket key) ∨ (buckets.store bucket).lookup key = none
    | .listKeys bucket lead => fails (.listKeys bucket lead)
    | _ => False
  | .lost _ => False
  | _ => True

/-- A version that stays retained when the pointer moves: it was stored, and fewer versions
than are retained are newer, with those published since. -/
def StaysRetained (before : Text → Option Object) (named later version : Nat) : Prop :=
  version ≤ named ∧ stored before version = true ∧
    (Retention.newer (stored before) named version).card + (later - named) < retainedVersions

/-- The pointer does not go back, and every version that stays retained still has its
manifest, and each file its manifest listed is there as it was. -/
def NotRolledBack (before after : Text → Option Object) : Prop :=
  ∀ pointer, before currentKey = some (.pointer pointer) →
    ∃ later, after currentKey = some (.pointer later) ∧ pointer.version ≤ later.version ∧
      ∀ version, StaysRetained before pointer.version later.version version →
        stored after version = true ∧
          ∀ manifest, before (manifestKey version) = some (.manifest manifest) →
            ∀ file ∈ manifest.files,
              (after file.key).isSome = true ∧ after file.key = before file.key

/-! ## When the pointer is served -/

/-- The phases after the pointer was put. -/
def Phase.Closed : Phase → Prop
  | .listing _ => True
  | .vacuuming _ _ _ _ => True
  | .finished => True
  | _ => False

section Closed

variable {table : Text} {phase phase' : Phase} {effect : Effect} {reply : Reply effect}

/-- Once the pointer was put, it is neither read nor put again. -/
theorem Move.closed (move : Move table phase effect reply phase') (closed : phase.Closed) :
    phase'.Closed ∧ effect ≠ .getBytes .warehouse (table ++ currentKey) ∧
      ∀ pointer, effect ≠ .putObject .warehouse (table ++ currentKey) (.pointer pointer) := by
  cases move with
  | foreign phase effect reply elsewhere =>
    refine ⟨closed, ?_, ?_⟩
    · rintro rfl
      exact elsewhere (List.prefix_append _ _)
    · rintro pointer rfl
      exact elsewhere (List.prefix_append _ _)
  | listed | listFailed | deleted =>
    exact ⟨trivial, fun impossible => (nomatch impossible),
      fun _ impossible => (nomatch impossible)⟩
  | retainedRead current relative retained version =>
    refine ⟨trivial, ?_, fun _ impossible => nomatch impossible⟩
    intro same
    have keys : table ++ manifestKey version = table ++ currentKey := by
      simpa only [Effect.getBytes.injEq, true_and] using same
    exact manifestKey_ne_currentKey version (List.append_cancel_left keys)
  | retainedUnread current relative retained version =>
    refine ⟨trivial, ?_, fun _ impossible => nomatch impossible⟩
    intro same
    have keys : table ++ manifestKey version = table ++ currentKey := by
      simpa only [Effect.getBytes.injEq, true_and] using same
    exact manifestKey_ne_currentKey version (List.append_cancel_left keys)
  | manifestRead | manifestUnread | uploaded | uploadFailed | manifestWritten | manifestFailed
  | pointerWritten | pointerFailed => exact absurd closed id
  | pointerRead phase ready | pointerMissing phase ready | pointerMalformed phase ready =>
    cases phase with
    | listing | vacuuming | finished => exact absurd ready id
    | waiting | reading | writing | flipping => exact absurd closed id

/-- Putting the pointer closes the run's work on the table. -/
theorem Move.flip_closed (move : Move table phase effect reply phase') {pointer : CurrentPointer}
    (flips : effect = .putObject .warehouse (table ++ currentKey) (.pointer pointer)) :
    phase'.Closed := by
  cases move with
  | foreign phase effect reply elsewhere =>
    subst flips
    exact absurd (List.prefix_append _ _) elsewhere
  | pointerWritten | pointerFailed => trivial
  | manifestWritten | manifestFailed | uploaded | uploadFailed =>
    simp only [Effect.putObject.injEq, reduceCtorEq, and_false] at flips
  | pointerRead | pointerMissing | pointerMalformed | manifestRead | manifestUnread | listed
  | listFailed | retainedRead
  | retainedUnread | deleted => exact nomatch flips

end Closed

/-- What a put or a delete under the table does to the other keys of the table. -/
theorem put_apart {table key tested : Text} {body : Object} {given : Answer}
    {reply : Except Text Unit} {buckets buckets' : Buckets} (different : tested ≠ key)
    (answered : answer buckets (.putObject .warehouse (table ++ key) body) given =
      some (reply, buckets')) :
    buckets'.under table tested = buckets.under table tested := by
  rcases answer_putObject answered with ⟨_, rfl⟩ | ⟨_, rfl, _⟩
  · exact (congrFun (under_insert table key body) tested).trans
      (Function.update_of_ne different _ _)
  · rfl

/-- Until the pointer is put, a run puts no manifest of a version that was published: a
version up to the current one that has a manifest had it before. -/
theorem Move.stored_before {table : Text} {phase phase' : Phase} {effect : Effect}
    {reply : Reply effect} {given : Answer} {buckets buckets' : Buckets} {ledger : Ledger}
    {uploads : Text → Option (List UInt8)} {staged : Option Listing} {current version : Nat}
    (move : Move table phase effect reply phase')
    (answered : answer buckets effect given = some (reply, buckets'))
    (known : At (buckets.under table) ledger uploads staged current phase)
    (within : version ≤ current) (isStored : stored (buckets'.under table) version = true) :
    stored (buckets.under table) version = true := by
  have quiet : ¬ Changes table effect → stored (buckets.under table) version = true :=
    fun quiet => by rw [← under_unchanged quiet answered]; exact isStored
  have apart : buckets'.under table (manifestKey version) = buckets.under table
    (manifestKey version) →
      stored (buckets.under table) version = true :=
    fun same => by rw [stored, ← same]; exact isStored
  cases move with
  | foreign phase effect reply elsewhere => exact quiet elsewhere.quiet
  | pointerRead | pointerMissing | pointerMalformed | manifestRead | manifestUnread | listed
  | listFailed | retainedRead | retainedUnread => exact quiet id
  | uploaded writing base written path bytes key placed =>
    subst placed
    exact apart (put_apart (versionPrefix_ne_manifestKey writing version path).symm answered)
  | uploadFailed writing base written path bytes key placed =>
    subst placed
    exact apart (put_apart (versionPrefix_ne_manifestKey writing version path).symm answered)
  | manifestWritten writing =>
    refine apart (put_apart (fun same => ?_) answered)
    have next := known.1
    have := manifestKey_injective same
    omega
  | manifestFailed writing =>
    refine apart (put_apart (fun same => ?_) answered)
    have next := known.1
    have := manifestKey_injective same
    omega
  | pointerWritten => exact apart (put_apart (manifestKey_ne_currentKey version) answered)
  | pointerFailed => exact apart (put_apart (manifestKey_ne_currentKey version) answered)
  | deleted current relative retained key target =>
    rcases delete_under answered with after | after
    · by_cases same : manifestKey version = key
      · rw [stored, after, same, Function.update_self] at isStored
        cases isStored
      · exact apart (by rw [after, Function.update_of_ne same])
    · exact apart (by rw [after])

/-- A run has kept the table sound, at the version it started with or the next one, and has
removed neither a publication nor the manifest of a version that stays retained. -/
structure Tended (before : Text → Option Object) (published : List Listing) (first : Nat)
    (phase : Phase) (view : Text → Option Object) (history : History) (current : Nat) : Prop where
  sound : Sound view history.ledger current
  known : At view history.ledger (history.uploads 0) (history.staged 0) current phase
  grown : published <+: history.ledger.published
  older : ∀ version, version ≤ first → stored view version = true →
    stored before version = true
  kept : ∀ version, StaysRetained before first current version → stored view version = true
  near : current = first ∨ (current = first + 1 ∧ phase.Closed)

section Tended

variable {before view : Text → Option Object} {published : List Listing}
  {first current : Nat} {ledger : Ledger} {history : History} {phase : Phase}

/-- What stays retained is retained. -/
theorem Tended.retained (tended : Tended before published first phase view history current)
    {version : Nat} (stays : StaysRetained before first current version) :
    Retained view current version := by
  have notBelow : first ≤ current := by
    rcases tended.near with same | ⟨next, _⟩
    · exact same.ge
    · omega
  exact ⟨stays.1.trans notBelow, tended.kept version stays,
    (Retention.newer_card_le tended.older).trans_lt stays.2.2⟩

/-- One genuine step of a run whose pointer reads are served. -/
theorem Tended.step {table : Text} {buckets buckets' : Buckets} {fails : Effect → Prop}
    (reliable : ¬ fails (.getBytes .warehouse (table ++ currentKey))) {phase' : Phase}
    {effect : Effect} {reply : Reply effect}
    (tended : Tended before published first phase (buckets.under table) history current)
    (move : Move table phase effect reply phase')
    (given : Given (Excused fails) buckets effect reply buckets') :
    ∃ history' current',
      Tended before published first phase' (buckets'.under table) history' current' := by
  obtain ⟨_, answered, excused, isAnswer⟩ := given
  have sound := tended.sound
  by_cases isPointer : effect = .getBytes .warehouse (table ++ currentKey)
  · have quiet : ¬ Changes table effect := by
      rw [isPointer]
      exact not_false
    have served : ∀ error, answered = .refused error → buckets.under table currentKey = none := by
      rintro error rfl
      subst isPointer
      exact excused.resolve_left reliable
    have opened := move.opens isPointer isAnswer served sound (history.uploads 0)
      (history.staged 0)
    have same := under_unchanged quiet isAnswer
    rw [← same] at sound opened
    exact ⟨history, current, sound, opened, tended.grown, same ▸ tended.older,
      same ▸ tended.kept,
      tended.near.imp_right (fun closed => absurd isPointer (move.closed closed.2).2.1)⟩
  · obtain ⟨current', advance, known'⟩ := move.keeps isPointer isAnswer sound tended.known
    have sound' := advance.sound sound
    have notBelow : first ≤ current := by
      rcases tended.near with same | ⟨next, _⟩
      · exact same.ge
      · omega
    have older : ∀ version, version ≤ first → stored (buckets'.under table) version = true →
        stored before version = true := fun version within isStored =>
      tended.older version within
        (move.stored_before isAnswer tended.known (within.trans notBelow) isStored)
    generalize after : history.record table 0 effect answered.applied = history' at *
    generalize buckets'.under table = view' at *
    generalize isLedger : history'.ledger = ledger' at *
    cases advance with
    | still _ kept same =>
      refine ⟨history', current, isLedger ▸ sound', isLedger ▸ known', ?_, older, ?_, ?_⟩
      · rw [isLedger, same]
        exact tended.grown
      · intro version stays
        rw [stored, kept _ (Or.inr (Or.inl ⟨version, tended.retained stays, rfl⟩))]
        exact tended.kept version stays
      · exact tended.near.imp_right (fun closed => ⟨closed.1, (move.closed closed.2).1⟩)
    | flip staged isFlip isApplied =>
      rcases tended.near with rfl | ⟨_, closed⟩
      · refine ⟨history', current + 1, isLedger ▸ sound', isLedger ▸ known', ?_, older, ?_, ?_⟩
        · rw [isLedger]
          exact tended.grown.trans (List.prefix_append _ _)
        · intro version stays
          have few := stays.2.2
          rw [stored, Function.update_of_ne (manifestKey_ne_currentKey version)]
          exact tended.kept version ⟨stays.1, stays.2.1, by omega⟩
        · exact Or.inr ⟨rfl, move.flip_closed isFlip⟩
      · exact absurd isFlip ((move.closed closed).2.2 _)

/-- A run that ends tended has rolled nothing back. -/
theorem Tended.notRolledBack (sound : Sound before ledger first)
    (tended : Tended before ledger.published first phase view history current) :
    NotRolledBack before view := by
  intro pointer named
  obtain ⟨rfl, positive⟩ := sound.pointer_current named
  have notBelow : pointer.version ≤ current := by
    rcases tended.near with same | ⟨next, _⟩
    · exact same.ge
    · omega
  have notBlank : current ≠ 0 := by omega
  refine ⟨⟨current⟩, by rw [tended.sound.pointer, if_neg notBlank], notBelow, ?_⟩
  intro version stays
  refine ⟨tended.kept version stays, fun manifest present file member => ?_⟩
  obtain ⟨index, listing, rfl, found⟩ := sound.publication stays.2.1 stays.1
  rw [sound.listed index listing manifest found present] at member
  have found' : history.ledger.published[index]? = some listing := by
    obtain ⟨rest, split⟩ := tended.grown
    rw [← split, List.getElem?_append_left (List.getElem?_eq_some_iff.mp found).1]
    exact found
  have wasRetained : Retained before pointer.version (index + 1) :=
    ⟨stays.1, stays.2.1, (Nat.le_add_right _ _).trans_lt stays.2.2⟩
  obtain ⟨origin, bytes, isFirst, uploaded, body⟩ :=
    sound.contents index listing found wasRetained file member
  obtain ⟨origin', bytes', isFirst', uploaded', body'⟩ :=
    tended.sound.contents index listing found' (tended.retained stays) file member
  have sameOrigin : firstNaming history.ledger.published file.key = some origin := by
    obtain ⟨rest, split⟩ := tended.grown
    rw [← split, firstNaming, List.find?_append, ← firstNaming, isFirst, Option.some_or]
  obtain ⟨⟩ := sameOrigin.symm.trans isFirst'
  obtain ⟨⟩ := uploaded.symm.trans uploaded'
  exact ⟨by rw [body', Option.isSome_some], body'.trans body.symm⟩

end Tended

/-! ## When there is nothing to lose -/

/-- The pointer names version 1, whose manifest says so. -/
def AtFirst (view : Text → Option Object) : Prop :=
  view currentKey = some (.pointer ⟨1⟩) ∧
    ∃ manifest, view (manifestKey 1) = some (.manifest manifest) ∧ manifest.version = 1

/-- The pointer names a positive version, the first version has its manifest, and the keys
that name a version are those of manifests. -/
structure Founded (view : Text → Option Object) : Prop where
  pointer : ∃ pointer, view currentKey = some (.pointer pointer) ∧ 1 ≤ pointer.version
  first : stored view 1 = true
  named : ∀ key version, (view key).isSome = true → manifestVersion key = some version →
    key = manifestKey version

/-- What a run knows of a table at its first version, whatever its reads return: it works on
version 1 or 2. -/
def Early (view : Text → Option Object) : Phase → Prop
  | .waiting => AtFirst view
  | .reading version => version = 1 ∧ AtFirst view
  | .writing version _ _ => (version = 1 ∨ version = 2) ∧ AtFirst view
  | .flipping version => version = 1 ∨ version = 2
  | .listing current => current ≤ 2
  | .vacuuming current relative _ _ => current ≤ 2 ∧ (listedVersions relative).Nodup
  | .finished => True

/-- The pointer and the first manifest are there, and the run works on version 1 or 2. -/
def Pointing (table : Text) (phase : Phase) (buckets : Buckets) : Prop :=
  Founded (buckets.under table) ∧ Early (buckets.under table) phase

section Pointing

variable {table : Text} {phase phase' : Phase} {buckets buckets' : Buckets}

/-- A table that may be opened is at its first version. -/
theorem Early.atFirst {view : Text → Option Object} (early : Early view phase)
    (ready : phase.Openable) : AtFirst view := by
  cases phase with
  | waiting => exact early
  | writing version base written => exact early.2
  | reading | flipping | listing | vacuuming | finished => exact absurd ready id

/-- A put of the pointer stores it or leaves the pointer alone. -/
theorem put_pointer {version : Nat} {given : Answer} {reply : Except Text Unit}
    (answered : answer buckets (.putObject .warehouse (table ++ currentKey) (.pointer ⟨version⟩))
      given = some (reply, buckets')) :
    buckets'.under table currentKey = some (.pointer ⟨version⟩) ∨
      buckets'.under table currentKey = buckets.under table currentKey := by
  rcases answer_putObject answered with ⟨_, rfl⟩ | ⟨_, rfl, _⟩
  · exact Or.inl ((congrFun (under_insert table currentKey _) currentKey).trans
      (Function.update_self ..))
  · exact Or.inr rfl

/-- A put of a manifest leaves the manifest of every version that had one. -/
theorem put_manifest {version tested : Nat} {manifest : TableManifest} {given : Answer}
    {reply : Except Text Unit}
    (answered : answer buckets (.putObject .warehouse (table ++ manifestKey version)
      (.manifest manifest)) given = some (reply, buckets'))
    (isStored : stored (buckets.under table) tested = true) :
    stored (buckets'.under table) tested = true := by
  by_cases same : tested = version
  · subst same
    rcases answer_putObject answered with ⟨_, rfl⟩ | ⟨_, rfl, _⟩
    · have after : (buckets.set .warehouse (buckets.warehouse.insert (table ++ manifestKey tested)
          (.manifest manifest))).under table (manifestKey tested) = _ :=
        congrFun (under_insert table (manifestKey tested) (.manifest manifest)) (manifestKey tested)
      exact (congrArg Option.isSome after).trans (by rw [Function.update_self, Option.isSome_some])
    · exact isStored
  · rw [stored, put_apart (fun equal => same (manifestKey_injective equal)) answered]
    exact isStored

/-- After a put, an object is the one that was put or was there before. -/
theorem put_named {key tested : Text} {body : Object} {given : Answer} {reply : Except Text Unit}
    (answered : answer buckets (.putObject .warehouse (table ++ key) body) given =
      some (reply, buckets'))
    (present : (buckets'.under table tested).isSome = true) :
    tested = key ∨ (buckets.under table tested).isSome = true := by
  by_cases same : tested = key
  · exact Or.inl same
  · rw [put_apart same answered] at present
    exact Or.inr present

/-- The pointer is not among the targets of a vacuum. -/
theorem pointer_not_target (relative : List Text) (current : Nat) (retained : List TableManifest) :
    currentKey ∉ vacuumTargets relative current retained := by
  intro target
  rcases List.mem_append.mp target with unreferenced | doomed
  · exact (mem_unreferencedKeys.mp unreferenced).2.2.1 rfl
  · obtain ⟨version, _, same⟩ := List.mem_map.mp doomed
    exact manifestKey_ne_currentKey version same

/-- The first manifest is no target of a vacuum while the window reaches back to it. -/
theorem first_not_target {relative : List Text} {current : Nat}
    (distinct : (listedVersions relative).Nodup) (early : current ≤ 2)
    (retained : List TableManifest) : manifestKey 1 ∉ vacuumTargets relative current retained := by
  intro target
  rcases List.mem_append.mp target with unreferenced | doomed
  · have notDirectory := (mem_unreferencedKeys.mp unreferenced).2.1
    rw [manifestKey_directory] at notDirectory
    exact nomatch notDirectory
  · obtain ⟨version, isDoomed, same⟩ := List.mem_map.mp doomed
    obtain rfl := manifestKey_injective same
    obtain ⟨isListed, within, outside⟩ :=
      (mem_versionsToDrop distinct current retainedVersions 1).mp isDoomed
    refine outside ⟨within, decide_eq_true isListed, ?_⟩
    calc (Retention.newer _ current 1).card
        ≤ (Finset.Ioc 1 current).card := Finset.card_filter_le _ _
      _ = current - 1 := Nat.card_Ioc 1 current
      _ < retainedVersions := by
        have size : retainedVersions = 10 := rfl
        omega

/-- A key in a version's directory names no manifest. -/
theorem versionPrefix_names_none (version : Nat) (path : Text) :
    manifestVersion (versionPrefix version ++ path) = none := by
  cases names : manifestVersion (versionPrefix version ++ path) with
  | none => rfl
  | some found =>
    have directory := manifestVersion_directory names
    rw [versionPrefix_not_directory] at directory
    exact nomatch directory

/-- The pointer's key names no manifest. -/
theorem currentKey_names_none : manifestVersion currentKey = none := by
  cases names : manifestVersion currentKey with
  | none => rfl
  | some found => exact absurd (manifestVersion_directory names) (by decide)

/-- An upload leaves the pointer and the manifests alone. -/
theorem Founded.upload (founded : Founded (buckets.under table)) {version : Nat} {path : Text}
    {body : Object} {given : Answer} {reply : Except Text Unit}
    (answered :
      answer buckets (.putObject .warehouse (table ++ (versionPrefix version ++ path)) body)
      given = some (reply, buckets')) :
    Founded (buckets'.under table) ∧
      (AtFirst (buckets.under table) → AtFirst (buckets'.under table)) := by
  have keepsPointer := put_apart (versionPrefix_ne_currentKey version path).symm answered
  have keepsFirst := put_apart (versionPrefix_ne_manifestKey version 1 path).symm answered
  refine ⟨⟨keepsPointer ▸ founded.pointer, by rw [stored, keepsFirst]; exact founded.first, ?_⟩, ?_⟩
  · intro key found isPresent names
    rcases put_named answered isPresent with rfl | before
    · cases (versionPrefix_names_none version path).symm.trans names
    · exact founded.named key found before names
  · rintro ⟨isFirst, manifest, present, numbered⟩
    exact ⟨keepsPointer.trans isFirst, manifest, keepsFirst.trans present, numbered⟩

/-- A put of a manifest leaves the pointer alone and the first version with a manifest. -/
theorem Founded.manifest (founded : Founded (buckets.under table)) {version : Nat}
    {manifest : TableManifest} {given : Answer} {reply : Except Text Unit}
    (early : version = 1 ∨ version = 2)
    (answered : answer buckets (.putObject .warehouse (table ++ manifestKey version)
      (.manifest manifest)) given = some (reply, buckets')) :
    Founded (buckets'.under table) := by
  have keepsPointer := put_apart (manifestKey_ne_currentKey version).symm answered
  refine ⟨keepsPointer ▸ founded.pointer, put_manifest answered founded.first, ?_⟩
  intro key found isPresent names
  rcases put_named answered isPresent with rfl | before
  · rw [manifestVersion_manifestKey (by rcases early with rfl | rfl <;> decide)] at names
    rw [Option.some.inj names]
  · exact founded.named key found before names

/-- A put of the pointer leaves the manifests alone. -/
theorem Founded.flip (founded : Founded (buckets.under table)) {version : Nat} {given : Answer}
    {reply : Except Text Unit} (early : version = 1 ∨ version = 2)
    (answered : answer buckets (.putObject .warehouse (table ++ currentKey) (.pointer ⟨version⟩))
      given = some (reply, buckets')) :
    Founded (buckets'.under table) := by
  have keepsFirst := put_apart (manifestKey_ne_currentKey 1) answered
  refine ⟨?_, by rw [stored, keepsFirst]; exact founded.first, ?_⟩
  · rcases put_pointer answered with put | same
    · exact ⟨_, put, by rcases early with rfl | rfl <;> decide⟩
    · exact same ▸ founded.pointer
  · intro key found isPresent names
    rcases put_named answered isPresent with rfl | before
    · cases currentKey_names_none.symm.trans names
    · exact founded.named key found before names

/-- A delete that spares the pointer and the first manifest keeps the table founded. -/
theorem Founded.delete (founded : Founded (buckets.under table)) {key : Text} {given : Answer}
    {reply : Except Text Unit} (notPointer : currentKey ≠ key) (notFirst : manifestKey 1 ≠ key)
    (answered : answer buckets (.deleteObject .warehouse (table ++ key)) given =
      some (reply, buckets')) :
    Founded (buckets'.under table) := by
  rcases delete_under answered with after | after
  · refine ⟨by rw [after, Function.update_of_ne notPointer]; exact founded.pointer,
      by rw [stored, after, Function.update_of_ne notFirst]; exact founded.first, ?_⟩
    intro tested version isPresent names
    by_cases same : tested = key
    · rw [after, same, Function.update_self] at isPresent
      cases isPresent
    · rw [after, Function.update_of_ne same] at isPresent
      exact founded.named tested version isPresent names
  · rw [after]
    exact founded

/-- Whatever happens to the reads, the pointer and the first manifest stay. -/
theorem Pointing.step {effect : Effect} {reply : Reply effect}
    {given : Answer} (pointing : Pointing table phase buckets)
    (move : Move table phase effect reply phase')
    (answered : answer buckets effect given = some (reply, buckets')) :
    Pointing table phase' buckets' := by
  obtain ⟨founded, early⟩ := pointing
  cases move with
  | foreign phase effect reply elsewhere =>
    rw [Pointing, under_unchanged elsewhere.quiet answered]
    exact ⟨founded, early⟩
  | pointerRead phase ready read =>
    obtain ⟨rfl, ⟨_, ⟨⟩, present⟩ | ⟨_, impossible, _⟩⟩ := answer_getBytes answered
    · obtain ⟨⟩ := (early.atFirst ready).1.symm.trans present
      exact ⟨founded, rfl, early.atFirst ready⟩
    · exact nomatch impossible
  | pointerMissing phase ready =>
    obtain ⟨rfl, _⟩ := answer_getBytes answered
    exact ⟨founded, Or.inl rfl, early.atFirst ready⟩
  | pointerMalformed | manifestUnread | retainedUnread =>
    obtain ⟨rfl, _⟩ := answer_getBytes answered
    exact ⟨founded, trivial⟩
  | manifestRead version manifest =>
    obtain ⟨rfl, isFirst, stored, present, numbered⟩ := early
    obtain ⟨rfl, ⟨_, ⟨⟩, found⟩ | ⟨_, impossible, _⟩⟩ := answer_getBytes answered
    · obtain ⟨⟩ := present.symm.trans found
      exact ⟨founded, Or.inr (by rw [numbered]), isFirst, _, present, numbered⟩
    · exact nomatch impossible
  | uploaded version base written path bytes key placed =>
    subst placed
    exact ⟨(founded.upload answered).1, early.1, (founded.upload answered).2 early.2⟩
  | uploadFailed version base written path bytes key placed =>
    subst placed
    exact ⟨(founded.upload answered).1, early.1, (founded.upload answered).2 early.2⟩
  | manifestWritten => exact ⟨founded.manifest early.1 answered, early.1⟩
  | manifestFailed => exact ⟨founded.manifest early.1 answered, trivial⟩
  | pointerWritten version =>
    refine ⟨founded.flip early answered, ?_⟩
    rcases early with rfl | rfl
    · exact Nat.le_succ 1
    · exact Nat.le_refl 2
  | pointerFailed => exact ⟨founded.flip early answered, trivial⟩
  | listed current keys relative isRelative =>
    subst isRelative
    obtain ⟨exactly, distinct⟩ := listing_exact answered
    obtain ⟨rfl, _⟩ := answer_listKeys answered
    exact ⟨founded, early, listedVersions_nodup distinct (fun key member version names =>
      founded.named key version ((exactly key).mp member) names)⟩
  | listFailed =>
    obtain ⟨rfl, _⟩ := answer_listKeys answered
    exact ⟨founded, trivial⟩
  | retainedRead =>
    obtain ⟨rfl, _⟩ := answer_getBytes answered
    exact ⟨founded, early⟩
  | deleted current relative retained key target =>
    refine ⟨founded.delete ?_ ?_ answered, early⟩
    · rintro rfl
      exact pointer_not_target relative current retained target
    · rintro rfl
      exact first_not_target early.2 early.1 retained target

end Pointing

/-- A first version without files cannot be rolled back as long as the pointer and its
manifest stay. -/
theorem notRolledBack_of_empty {before after : Text → Option Object}
    (first : ∀ pointer, before currentKey = some (.pointer pointer) → pointer.version = 1)
    (empty : ∀ manifest, before (manifestKey 1) = some (.manifest manifest) → manifest.files = [])
    (fromOne : ∀ version, stored before version = true → 1 ≤ version)
    (pointing : ∃ pointer, after currentKey = some (.pointer pointer) ∧ 1 ≤ pointer.version)
    (isStored : stored after 1 = true) : NotRolledBack before after := by
  intro pointer named
  obtain ⟨later, after', positive⟩ := pointing
  have isFirst := first pointer named
  refine ⟨later, after', by omega, ?_⟩
  intro version stays
  have atLeast : 1 ≤ version := fromOne version stays.2.1
  have within := stays.1
  obtain rfl : version = 1 := by omega
  refine ⟨isStored, fun manifest present file member => ?_⟩
  rw [empty manifest present] at member
  exact absurd member List.not_mem_nil

/-! ## A vacuum that takes place -/

section Vacuuming

variable {id table : Text} {buckets : Buckets}

/-- Reading manifests that are all stored. -/
theorem readRetained_ends (fails : Effect → Prop) {holds : TableManifest → Prop}
    (pending : List Nat)
    (readable : ∀ version ∈ pending, ∃ manifest,
      buckets.under table (manifestKey version) = some (.manifest manifest) ∧ holds manifest)
    (retained : List TableManifest) (soFar : ∀ manifest ∈ retained, holds manifest) :
    ∃ manifests, Ends (Excused fails) (readRetained table pending retained) buckets (.ok manifests)
      buckets ∧ ∀ manifest ∈ manifests, holds manifest := by
  induction pending generalizing retained with
  | nil => exact ⟨retained, .done _ _, soFar⟩
  | cons version rest inductionHypothesis =>
    obtain ⟨manifest, present, held⟩ := readable version List.mem_cons_self
    obtain ⟨manifests, ends, allHold⟩ := inductionHypothesis
      (fun other member => readable other (List.mem_cons_of_mem _ member)) (retained ++ [manifest])
      (by
        intro other member
        rcases List.mem_append.mp member with before | new
        · exact soFar other before
        · rw [List.mem_singleton.mp new]
          exact held)
    have answered : answer buckets (.getBytes .warehouse (table ++ manifestKey version)) .served =
        some (.ok (.manifest manifest), buckets) := Option.map_eq_some_iff.mpr ⟨_, present, rfl⟩
    exact ⟨manifests, .call .served trivial trivial answered ends, allHold⟩

/-- Deleting every target. -/
theorem deleteTargets_ends (fails : Effect → Prop) (table : Text) (targets : List Text)
    (buckets : Buckets) (deleted : Nat) : ∃ count final,
      Ends (Excused fails) (deleteTargets table targets deleted) buckets count final ∧
        ∀ key, final.under table key = if key ∈ targets then none else buckets.under table key := by
  induction targets generalizing buckets deleted with
  | nil => exact ⟨deleted, buckets, .done _ _, fun key => by simp⟩
  | cons target rest inductionHypothesis =>
    obtain ⟨count, final, ends, after⟩ := inductionHypothesis
      (buckets.set .warehouse (buckets.warehouse.erase (table ++ target))) (deleted + 1)
    have answered : answer buckets (.deleteObject .warehouse (table ++ target)) .served =
        some (.ok (), buckets.set .warehouse (buckets.warehouse.erase (table ++ target))) := rfl
    refine ⟨count, final, .call .served trivial trivial answered ends, ?_⟩
    intro key
    rw [after, under_erase]
    by_cases isTarget : key = target
    · subst isTarget
      simp
    · simp [isTarget]

/-- A vacuum, when the manifests it keeps are stored: it deletes every object that is
neither the pointer nor a manifest nor listed by one of them. -/
theorem vacuum_ends (fails : Effect → Prop) (current : Nat) {holds : TableManifest → Prop}
    (readable : ∀ version, version ∈ listedVersions
        ((buckets.warehouse.listKeys table).filterMap (fun key => key.dropPrefix? table)) →
      version ≤ current → ∃ manifest,
        buckets.under table (manifestKey version) = some (.manifest manifest) ∧ holds manifest) :
    ∃ count final, Ends (Excused fails) (vacuum table current) buckets (.ok count) final ∧
      final.under table currentKey = buckets.under table currentKey ∧
      ∀ key, manifestPrefix.isPrefixOf key = false → key ≠ currentKey →
        (∀ manifest, holds manifest → ∀ file ∈ manifest.files, file.key ≠ key) →
        final.under table key = none := by
  have answered : answer buckets (.listKeys .warehouse table) .served =
      some (.ok (buckets.warehouse.listKeys table), buckets) := rfl
  let relative := (buckets.warehouse.listKeys table).filterMap (fun key => key.dropPrefix? table)
  have keptReadable : ∀ version ∈ keptVersions relative current, ∃ manifest,
      buckets.under table (manifestKey version) = some (.manifest manifest) ∧ holds manifest := by
    intro version member
    simp only [keptVersions, List.mem_filter, Bool.and_eq_true, decide_eq_true_eq] at member
    exact readable version member.1 member.2.2
  obtain ⟨manifests, reads, allHold⟩ := readRetained_ends fails _ keptReadable []
    (fun _ impossible => absurd impossible List.not_mem_nil)
  obtain ⟨count, final, deletes, after⟩ := deleteTargets_ends fails table
    (vacuumTargets relative current manifests) buckets 0
  refine ⟨count, final, .perform .served trivial trivial answered
    (.bind reads (.bind deletes (.done _ _))), ?_, ?_⟩
  · rw [after, if_neg (pointer_not_target relative current manifests)]
  · intro key notDirectory notPointer unlisted
    rw [after]
    split
    · rfl
    · next notTarget =>
      cases present : buckets.under table key with
      | none => rfl
      | some body =>
        have isListed : key ∈ relative := ((listing_exact answered).1 key).mpr
          (by rw [present, Option.isSome_some])
        refine absurd (List.mem_append_left _ (mem_unreferencedKeys.mpr
          ⟨isListed, notDirectory, notPointer, ?_⟩)) notTarget
        exact fun manifest member => unlisted manifest (allHold manifest member)

/-- Publishing version 1 over whatever is there, with its vacuum, when no other object
names a version up to 1. -/
theorem publishTable_ends (fails : Effect → Prop) (files : List ManifestFile)
    (named : ∀ key version, (buckets.under table key).isSome = true →
      manifestVersion key = some version → version ≤ 1 → key = manifestKey 1) :
    ∃ final, (∀ errors, Ends (Excused fails)
      (publishTable id ⟨table, 1, files, true⟩ errors) buckets
        errors final) ∧
      final.under table currentKey = some (.pointer ⟨1⟩) ∧
      ∀ key, manifestPrefix.isPrefixOf key = false → key ≠ currentKey →
        (∀ file ∈ files, file.key ≠ key) → final.under table key = none := by
  let manifest : TableManifest := ⟨1, [], none, files⟩
  let staged := buckets.set .warehouse
    (buckets.warehouse.insert (table ++ manifestKey 1) (.manifest manifest))
  let flipped := staged.set .warehouse
    (staged.warehouse.insert (table ++ currentKey) (.pointer ⟨1⟩))
  have view : flipped.under table = Function.update
      (Function.update (buckets.under table) (manifestKey 1) (some (.manifest manifest)))
      currentKey (some (.pointer ⟨1⟩)) := by
    have first : staged.under table =
        Function.update (buckets.under table) (manifestKey 1) (some (.manifest manifest)) :=
      under_insert table (manifestKey 1) _
    rw [← first]
    exact under_insert table currentKey _
  have published : flipped.under table (manifestKey 1) = some (.manifest manifest) := by
    rw [view, Function.update_of_ne (manifestKey_ne_currentKey 1), Function.update_self]
  have pointer : flipped.under table currentKey = some (.pointer ⟨1⟩) := by
    rw [view, Function.update_self]
  have listed : answer flipped (.listKeys .warehouse table) .served =
      some (.ok (flipped.warehouse.listKeys table), flipped) := rfl
  have readable : ∀ version, version ∈ listedVersions
        ((flipped.warehouse.listKeys table).filterMap (fun key => key.dropPrefix? table)) →
      version ≤ 1 → ∃ stored,
        flipped.under table (manifestKey version) = some (.manifest stored) ∧
          stored.files = files := by
    intro version member within
    obtain ⟨key, isListed, names⟩ := List.mem_filterMap.mp member
    have present := ((listing_exact listed).1 key).mp isListed
    have isManifest : key = manifestKey 1 := by
      by_contra different
      have notPointer : key ≠ currentKey := by
        rintro rfl
        exact absurd (manifestVersion_directory names) (by decide)
      rw [view, Function.update_of_ne notPointer, Function.update_of_ne different] at present
      exact different (named key version present names within)
    rw [isManifest, manifestVersion_manifestKey (by decide)] at names
    obtain ⟨⟩ := names
    exact ⟨manifest, published, rfl⟩
  obtain ⟨count, final, vacuums, keptPointer, gone⟩ := vacuum_ends fails 1 readable
  have publishes : Ends (Excused fails) (publish table manifest) buckets (.ok ()) flipped :=
    .perform .served trivial trivial rfl (.call .served trivial trivial rfl (.done _ _))
  refine ⟨final, fun errors => .perform (.clock []) trivial trivial rfl
    (.bind publishes (.bind vacuums (.done _ _))), keptPointer.trans pointer, ?_⟩
  intro key outside notPointer unlisted
  exact gone key outside notPointer (fun stored same => same ▸ unlisted)

end Vacuuming

/-! ## A run that starts over -/

section StartOver

variable {pipelinePrefix id : Text} {fails : Effect → Prop}

/-- The file the run reads. -/
def someLake : Store := (∅ : Store).insert "in/a.csv".toList (.data [])

/-- A configuration with the partitioned table, one container and one mapping. -/
def configFor (id : Text) : PipelineConfig where
  sourceContainers := [plainSource]
  dimensions := []
  mappings := [plainMapping id]
  analyticTables := [partitionedTable id]

/-- The publish state of a run that starts over. -/
def startedState (pipelinePrefix id : Text) (files : List ManifestFile) (touched : Bool) :
    Publishes :=
  (∅ : Publishes).insert id ⟨tablePrefix pipelinePrefix id, 1, files, touched⟩

/-- Everything a run does before it publishes, with the pointer's get refused. -/
theorem startOver_ends {buckets final : Buckets} (filled : buckets.lake = someLake)
    (refused : fails (.getBytes .warehouse (tablePrefix pipelinePrefix id ++ currentKey)))
    {errors : List Text}
    (publishes : Ends (Excused fails)
      (publishTable id ⟨tablePrefix pipelinePrefix id, 1, [], true⟩ []) buckets errors final) :
    Ends (Excused fails) (executeJob (.ok (configFor id)) pipelinePrefix false) buckets
      (.ok ⟨0, 1, 0, errors⟩) final := by
  have opens : Ends (Excused fails)
    (openTables pipelinePrefix false [partitionedTable id] ∅) buckets
      (.ok (startedState pipelinePrefix id [] false)) buckets :=
    .call (.refused []) trivial (Or.inl refused) rfl (.done _ _)
  have listing : answer buckets (.listKeys .lake "in/".toList) .served =
      some (.ok ["in/a.csv".toList], buckets) := by
    rw [answer, Buckets.store, filled]
    rfl
  have lists : Ends (Excused fails) (listSources (configFor id).sourceContainers []) buckets
      ["in/a.csv".toList] buckets := .call .served trivial trivial listing (.done _ _)
  have fetched : answer buckets (.getBytes .lake "in/a.csv".toList) .served =
      some (.ok (.data []), buckets) := by
    rw [answer, Buckets.store, filled]
    rfl
  have downloads : Ends (Excused fails) (downloadAll ["in/a.csv".toList] []) buckets
      (.ok [("in/a.csv".toList, .data [])]) buckets :=
    .call (.flag false) trivial trivial rfl (.call .served trivial trivial fetched (.done _ _))
  have dimensions : Ends (Excused fails) (loadDimensions (configFor id).dimensions) buckets (.ok ())
      buckets := .call (.outcome (.ok ())) trivial trivial rfl (.done _ _)
  have declared : (configFor id).tableOf (plainMapping id) = some (partitionedTable id) := by
    simp [PipelineConfig.tableOf, configFor, plainMapping, partitionedTable, plainTable]
  have maps : Ends (Excused fails) (runMappings (configFor id) pipelinePrefix
      [("in/a.csv".toList, .data [])] (configFor id).mappings
      ⟨startedState pipelinePrefix id [] false, 0, 0, []⟩) buckets
      (.ok ⟨startedState pipelinePrefix id [] true, 0, 0, []⟩) buckets := by
    have shaped : Genuine (.evaluate (plainMapping id)
        ((configFor id).tableOf (plainMapping id)) [("in/a.csv".toList, .data [])])
        (.partitions [] 0) :=
      ⟨partitionedTable id, declared,
        fun output impossible => absurd impossible List.not_mem_nil,
        fun impossible => by cases impossible⟩
    have applied : applyMapping pipelinePrefix (plainMapping id) [] 0
        ⟨startedState pipelinePrefix id [] false, 0, 0, []⟩ =
          .done ⟨startedState pipelinePrefix id [] true, 0, 0, []⟩ := by
      simp only [applyMapping, startedState, plainMapping, AList.lookup_insert]
      simp only [uploadPartitions, Program.pure_def, Program.done_bind, AList.insert_insert]
      rfl
    have applies : Ends (Excused fails) (applyMapping pipelinePrefix (plainMapping id) [] 0
        ⟨startedState pipelinePrefix id [] false, 0, 0, []⟩) buckets
        ⟨startedState pipelinePrefix id [] true, 0, 0, []⟩ buckets := by
      rw [applied]
      exact .done _ _
    exact .perform (.flag false) trivial trivial rfl
      (.perform (.evaluated (.partitions [] 0)) shaped trivial rfl (.bind applies (.done _ _)))
  have order : (startedState pipelinePrefix id [] true).keys = [id] := rfl
  have found : (startedState pipelinePrefix id [] true).lookup id =
      some ⟨tablePrefix pipelinePrefix id, 1, [], true⟩ := AList.lookup_insert _
  have publishAll : Ends (Excused fails)
      (publishTables (startedState pipelinePrefix id [] true) [id] []) buckets errors final := by
    rw [publishTables, found]
    exact .bind publishes (.done _ _)
  refine .bind opens (.bind lists (.bind downloads (.bind dimensions (.bind maps ?_))))
  exact .perform (.order [id]) (order ▸ List.Perm.refl _) trivial rfl
    (.bind publishAll (.done _ _))

/-- With the pointer's get refused, a run can end with the pointer at version 1 and
every data object of the table gone. -/
theorem startOver_destroys (fails : Effect → Prop) {buckets : Buckets} {ledger : Ledger}
    {current : Nat} (sound : Sound (buckets.under (tablePrefix pipelinePrefix id)) ledger current)
    (refused : fails (.getBytes .warehouse (tablePrefix pipelinePrefix id ++ currentKey))) :
    ∃ outcome final, Ends (Excused fails) (executeJob (.ok (configFor id)) pipelinePrefix false)
        { buckets with lake := someLake } outcome final ∧
      final.under (tablePrefix pipelinePrefix id) currentKey = some (.pointer ⟨1⟩) ∧
      ∀ key bytes, buckets.under (tablePrefix pipelinePrefix id) key = some (.data bytes) →
        final.under (tablePrefix pipelinePrefix id) key = none := by
  let filled : Buckets := { buckets with lake := someLake }
  have named : ∀ key version, (filled.under (tablePrefix pipelinePrefix id) key).isSome = true →
      manifestVersion key = some version → version ≤ 1 → key = manifestKey 1 := by
    intro key version present names within
    have isKey := sound.named_version present names
    rw [isKey] at present
    obtain ⟨_, _, _, positive, _⟩ := sound.manifest present
    rw [isKey, Nat.le_antisymm within positive]
  obtain ⟨final, publishes, pointer, gone⟩ := publishTable_ends fails [] named
  refine ⟨_, final, startOver_ends rfl refused (publishes []), pointer, ?_⟩
  intro key bytes body
  have unlisted : ∀ file ∈ ([] : List ManifestFile), file.key ≠ key :=
    fun file impossible => absurd impossible List.not_mem_nil
  rcases sound.named key _ body with isPointer | ⟨_, _, _, _, impossible, _⟩ |
    ⟨version, path, _, located, _⟩
  · exact absurd isPointer (sound.data_apart body)
  · exact nomatch impossible
  · refine gone key ?_ (sound.data_apart body) unlisted
    rw [located]
    exact versionPrefix_not_directory version path

end StartOver

/-- For a sound table with a published version and a set of reads that may fail,
every run keeps the version current or moves on to its successor, with nothing
that is retained missing, exactly when the pointer's get is not among those reads
or the table is at version 1 and lists no file. -/
theorem reads_keep_history_iff {pipelinePrefix id : Text} (plain : '/' ∉ id) {buckets : Buckets}
    {ledger : Ledger} {current : Nat}
    (sound : Sound (buckets.under (tablePrefix pipelinePrefix id)) ledger current)
    (published : current ≠ 0) (fails : Effect → Prop) :
    (∀ lake loaded cleanRun outcome final, Separate id loaded →
        Ends (Excused fails) (executeJob loaded pipelinePrefix cleanRun)
          { buckets with lake := lake } outcome final →
        NotRolledBack (buckets.under (tablePrefix pipelinePrefix id))
          (final.under (tablePrefix pipelinePrefix id))) ↔
      ¬ fails (.getBytes .warehouse (tablePrefix pipelinePrefix id ++ currentKey)) ∨
        (current = 1 ∧ ∀ manifest, buckets.under (tablePrefix pipelinePrefix id) (manifestKey 1) =
          some (.manifest manifest) → manifest.files = []) := by
  have named : buckets.under (tablePrefix pipelinePrefix id) currentKey =
      some (.pointer ⟨current⟩) := by rw [sound.pointer, if_neg published]
  constructor
  · intro keeps
    by_contra otherwise
    obtain ⟨refused, losable⟩ := not_or.mp otherwise
    obtain ⟨outcome, final, ends, back, gone⟩ := startOver_destroys fails sound (not_not.mp refused)
    have separate : Separate id (.ok (configFor id)) := by
      intro table member
      rw [List.mem_singleton.mp member]
      exact Or.inl rfl
    have kept := keeps _ _ _ outcome final separate ends
    obtain ⟨later, after, notBelow, files⟩ := kept ⟨current⟩ named
    obtain ⟨⟩ := back.symm.trans after
    have isOne : current = 1 := Nat.le_antisymm notBelow (Nat.one_le_iff_ne_zero.mpr published)
    subst isOne
    refine losable ⟨rfl, ?_⟩
    intro manifest present
    apply List.eq_nil_iff_forall_not_mem.mpr
    intro file member
    have retained := sound.current_retained published
    obtain ⟨index, listing, isFirst, found⟩ := sound.publication retained.2.1 (Nat.le_refl _)
    have isListed := member
    rw [sound.listed index listing manifest found (isFirst ▸ present)] at isListed
    obtain ⟨_, bytes, _, _, body⟩ := sound.contents index listing found (isFirst ▸ retained) file
      isListed
    have stays : StaysRetained (buckets.under (tablePrefix pipelinePrefix id)) 1 1 1 :=
      ⟨Nat.le_refl 1, retained.2.1, by simpa using retained.2.2⟩
    have remains := ((files 1 stays).2 manifest present file member).1
    rw [gone file.key bytes body] at remains
    exact nomatch remains
  · rintro (reliable | ⟨rfl, empty⟩) lake loaded cleanRun outcome final separate ⟨trace, finishes⟩
    · have start : Tended (buckets.under (tablePrefix pipelinePrefix id)) ledger.published current
          .waiting (buckets.under (tablePrefix pipelinePrefix id))
          ⟨fun _ _ => none, fun _ => none, ledger, none⟩ current :=
        ⟨sound, trivial, List.prefix_refl _, fun _ _ isStored => isStored,
          fun _ stays => stays.2.1, Or.inl rfl⟩
      obtain ⟨phase, _, history, current', tended⟩ := Program.follows_invariant
        (fun phase reached => ∃ history current', Tended
          (buckets.under (tablePrefix pipelinePrefix id)) ledger.published current phase
          (reached.under (tablePrefix pipelinePrefix id)) history current')
        (executeJob_keeps plain loaded (fun config isLoaded => by
          subst isLoaded
          exact separate) cleanRun)
        (fun _ _ _ _ given => given.1)
        (fun _ _ _ _ _ _ ⟨_, _, tended⟩ move given => tended.step reliable move given) finishes
        ⟨_, _, start⟩
      exact tended.notRolledBack sound
    · have isStored := sound.latest published
      obtain ⟨manifest, present, numbered, _⟩ := sound.manifest isStored
      obtain ⟨phase, _, founded, _⟩ := Program.follows_invariant
        (Pointing (tablePrefix pipelinePrefix id))
        (executeJob_keeps plain loaded (fun config isLoaded => by
          subst isLoaded
          exact separate) cleanRun)
        (fun _ _ _ _ given => given.1)
        (fun _ _ _ _ _ _ pointing move given =>
          let ⟨_, _, _, answered⟩ := given
          pointing.step move answered) finishes
        ⟨⟨⟨⟨1⟩, named, Nat.le_refl 1⟩, isStored, fun _ _ => sound.named_version⟩,
          named, manifest, present, numbered⟩
      refine notRolledBack_of_empty ?_ empty ?_ founded.pointer founded.first
      · intro pointer isNamed
        exact (sound.pointer_current isNamed).1
      · intro version isStored
        obtain ⟨_, _, _, positive, _⟩ := sound.manifest isStored
        exact positive

/-! ## A table published twice -/

section Twice

/-- Two runs that publish one after the other, each with its vacuum. -/
def publishingTwice : List Action :=
  [.start 0 (.ok smallConfig) false] ++
    answers 0 (toUpload [.refused []] ⟨"t/m.parquet".toList, [1]⟩ ++ toPublish 2 ++
      [.served, .served]) ++
    [.stop 0, .start 1 (.ok smallConfig) false] ++
    answers 1 (toUpload [.served, .served] ⟨"t/m.parquet".toList, [2]⟩ ++ toPublish 2 ++
      [.served, .served, .served])

/-- The sound table they leave, at version 2. -/
theorem publishedTwice_sound : ∃ (buckets : Buckets) (ledger : Ledger),
    Sound (buckets.under (tablePrefix "p/".toList "t".toList)) ledger 2 := by
  obtain ⟨world, reached, named⟩ :=
    Runs.reaches_of_check (World.step "p/".toList (tablePrefix "p/".toList "t".toList))
      (OrderedRule "p/".toList "t".toList) (World.initial smallBuckets) publishingTwice
      (fun world => world.buckets.under (tablePrefix "p/".toList "t".toList) currentKey =
        some (.pointer ⟨2⟩)) (by decide +kernel)
  obtain ⟨phases, current, safe⟩ := reaches_safe (by decide) (initial_safe (fun _ => rfl)) reached
  obtain ⟨rfl, _⟩ := safe.sound.pointer_current named
  exact ⟨world.buckets, world.history.ledger, safe.sound⟩

/-- One failed get of the pointer takes the table back to version 1. -/
theorem failed_read_rolls_back :
    ¬ ∀ (pipelinePrefix id : Text) (buckets : Buckets) (ledger : Ledger) (current : Nat),
      '/' ∉ id → Sound (buckets.under (tablePrefix pipelinePrefix id)) ledger current →
      current ≠ 0 → ∀ (fails : Effect → Prop) lake loaded cleanRun outcome final,
        Separate id loaded →
        Ends (Excused fails) (executeJob loaded pipelinePrefix cleanRun)
          { buckets with lake := lake } outcome final →
        NotRolledBack (buckets.under (tablePrefix pipelinePrefix id))
          (final.under (tablePrefix pipelinePrefix id)) := by
  intro claim
  obtain ⟨buckets, ledger, sound⟩ := publishedTwice_sound
  obtain ⟨outcome, final, ends, back, _⟩ :=
    startOver_destroys (fun _ => True) sound trivial
  obtain ⟨later, after, notBelow, _⟩ := claim _ _ buckets ledger 2 (by decide) sound (by decide) _ _
    _ _ outcome final (by decide) ends ⟨2⟩ sound.pointer
  obtain ⟨⟩ := back.symm.trans after
  exact absurd notBelow (by decide)

/-- With all reads served, that table is never rolled back. -/
theorem reads_keep_history_twice : ∃ (buckets : Buckets) (ledger : Ledger),
    Sound (buckets.under (tablePrefix "p/".toList "t".toList)) ledger 2 ∧
      ∀ lake loaded cleanRun outcome final, Separate "t".toList loaded →
        Ends (Excused (fun _ => False)) (executeJob loaded "p/".toList cleanRun)
          { buckets with lake := lake } outcome final →
        NotRolledBack (buckets.under (tablePrefix "p/".toList "t".toList))
          (final.under (tablePrefix "p/".toList "t".toList)) := by
  obtain ⟨buckets, ledger, sound⟩ := publishedTwice_sound
  exact ⟨buckets, ledger, sound,
    (reads_keep_history_iff (by decide) sound (by decide) (fun _ => False)).mpr (Or.inl id)⟩

end Twice

end KaretWorker
