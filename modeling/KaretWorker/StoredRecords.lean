import KaretWorker.Library.JsonText
import KaretWorker.Manifest
import KaretWorker.Queue

/-!
# Records as they are stored

Three records are stored as JSON: the message of a job, in the stream and in the delayed set
(`src/queue.rs`), and the pointer and the manifests of a table (`src/manifest.rs`). Elsewhere
they are kept decoded; here are the codecs that `serde` derives for them, and what keeping them
decoded rests on.

The delayed set has texts for members. As a message has one text, which reads as that message
again, a set of texts is a set of messages, and every run over texts is a run over decoded
messages (`wire_refines`).
-/
namespace KaretWorker

open Texts Json

/-- The fields of the records. -/
inductive RecordKey where
  | jobId | pipeline | pipelinePrefix | configVersionId | cleanRun | trigger | enqueuedAt
  | version | createdAt | files
  | key | mappingId | bytes
  deriving DecidableEq, Repr

/-- The name of a field as it is written. -/
def RecordKey.text : RecordKey → Text
  | .jobId => "job_id".toList
  | .pipeline => "pipeline".toList
  | .pipelinePrefix => "prefix".toList
  | .configVersionId => "config_version_id".toList
  | .cleanRun => "clean_run".toList
  | .trigger => "trigger".toList
  | .enqueuedAt => "enqueued_at".toList
  | .version => "version".toList
  | .createdAt => "created_at".toList
  | .files => "files".toList
  | .key => "key".toList
  | .mappingId => "mapping_id".toList
  | .bytes => "bytes".toList

/-- Different fields have different names. -/
theorem RecordKey.text_injective : Function.Injective RecordKey.text := by
  have distinct :
    ([RecordKey.jobId, .pipeline, .pipelinePrefix, .configVersionId, .cleanRun, .trigger,
      .enqueuedAt, .version, .createdAt, .files, .key, .mappingId, .bytes].map
        RecordKey.text).Nodup := by
    decide +kernel
  exact fun first second same =>
    List.inj_on_of_nodup_map distinct (by cases first <;> decide) (by cases second <;> decide) same

/-! ## Codecs -/

open Shape

/-- `JobMessage`: the version of its configuration may be missing, and so may the clean run. -/
def jobShape : Shape RecordKey JobMessage :=
  ((field .jobId (.required .text)).and <|
    (field .pipeline (.required .text)).and <|
    (field .pipelinePrefix (.required .text)).and <|
    (field .configVersionId (.optional .signed)).and <|
    (field .cleanRun (.defaulted .boolean false)).and <|
    (field .trigger (.required .text)).and <|
    (field .enqueuedAt (.required .signed))).record
  (fun (jobId, pipeline, pipelinePrefix, configVersionId, cleanRun, trigger, enqueuedAt) =>
    ⟨jobId, pipeline, pipelinePrefix, configVersionId, cleanRun, trigger, enqueuedAt⟩)
  (fun msg => (msg.jobId, msg.pipeline, msg.pipelinePrefix, msg.configVersionId, msg.cleanRun,
    msg.trigger, msg.enqueuedAt))

/-- Jobs as they are enqueued. -/
def jobCodec : Codec JobMessage := jobShape.codec RecordKey.text false

/-- `CurrentPointer`: one number. -/
def pointerShape : Shape RecordKey CurrentPointer :=
  (field .version (.required (.unsigned u64Bound))).record CurrentPointer.mk CurrentPointer.version

/-- Pointers as they are stored. -/
def pointerCodec : Codec CurrentPointer := pointerShape.codec RecordKey.text false

/-- `ManifestFile`: its key, its mapping and its size. -/
def manifestFileShape : Shape RecordKey ManifestFile :=
  ((field .key (.required .text)).and <|
    (field .mappingId (.required .text)).and <|
    (field .bytes (.required (.unsigned u64Bound)))).record
  (fun (key, mappingId, bytes) => ⟨key, mappingId, bytes⟩)
  (fun file => (file.key, file.mappingId, file.bytes))

/-- `TableManifest`: the job that wrote it is left out where there is none. -/
def manifestShape : Shape RecordKey TableManifest :=
  ((field .version (.required (.unsigned u64Bound))).and <|
    (field .createdAt (.required .text)).and <|
    (field .jobId (.omitted .text)).and <|
    (field .files (.required (.list (manifestFileShape.codec RecordKey.text false))))).record
  (fun (version, createdAt, jobId, files) => ⟨version, createdAt, jobId, files⟩)
  (fun manifest => (manifest.version, manifest.createdAt, manifest.jobId, manifest.files))

/-- Manifests as they are stored. -/
def manifestCodec : Codec TableManifest := manifestShape.codec RecordKey.text false

/-- The integers of a message have 64 bits. -/
structure JobMessage.Storable (msg : JobMessage) : Prop where
  version : IfPresent Signed msg.configVersionId
  enqueuedAt : Signed msg.enqueuedAt

/-- The numbers of a manifest have 64 bits. -/
structure TableManifest.Storable (manifest : TableManifest) : Prop where
  version : manifest.version < u64Bound
  sizes : ∀ file ∈ manifest.files, file.bytes < u64Bound

/-- Jobs read back if their numbers fit. -/
theorem jobCodec_lawful : jobCodec.Lawful JobMessage.Storable := by
  refine (Shape.Lawful.codec (Shape.Lawful.record ((field_lawful (required_lawful text_lawful)).and
    ((field_lawful (required_lawful text_lawful)).and
      ((field_lawful (required_lawful text_lawful)).and
        ((field_lawful (optional_lawful signed_lawful)).and
          ((field_lawful (defaulted_lawful boolean_lawful trivial)).and
            ((field_lawful (required_lawful text_lawful)).and
              (field_lawful (required_lawful signed_lawful)) (by decide)) (by decide)) (by decide))
        (by decide)) (by decide)) (by decide))
    (fun _ => rfl) (fun _ => rfl)) RecordKey.text_injective false).congr (fun msg => ?_)
  constructor
  · rintro ⟨_, _, _, version, _, _, enqueuedAt⟩
    exact ⟨version, enqueuedAt⟩
  · rintro ⟨version, enqueuedAt⟩
    exact ⟨trivial, trivial, trivial, version, trivial, trivial, enqueuedAt⟩

/-- Pointers read back if the version fits. -/
theorem pointerCodec_lawful : pointerCodec.Lawful (fun pointer => pointer.version < u64Bound) :=
  (Shape.Lawful.record (field_lawful (required_lawful (unsigned_lawful u64Bound)))
    (fun _ => rfl) (fun _ => rfl)).codec RecordKey.text_injective false

/-- The files of a manifest read back if their sizes fit. -/
theorem manifestFileShape_lawful :
    manifestFileShape.Lawful (fun file => file.bytes < u64Bound) := by
  refine (Shape.Lawful.record ((field_lawful (required_lawful text_lawful)).and
    ((field_lawful (required_lawful text_lawful)).and
      (field_lawful (required_lawful (unsigned_lawful u64Bound))) (by decide)) (by decide))
    (fun _ => rfl) (fun _ => rfl)).congr (fun _ => ?_)
  simp

/-- Manifests read back if all their numbers fit. -/
theorem manifestCodec_lawful : manifestCodec.Lawful TableManifest.Storable := by
  have files := list_lawful (manifestFileShape_lawful.codec RecordKey.text_injective false)
  refine (Shape.Lawful.codec (Shape.Lawful.record
    ((field_lawful (required_lawful (unsigned_lawful u64Bound))).and
      ((field_lawful (required_lawful text_lawful)).and
        ((field_lawful (omitted_lawful text_lawful)).and
          (field_lawful (required_lawful files)) (by decide)) (by decide)) (by decide))
    (fun _ => rfl) (fun _ => rfl)) RecordKey.text_injective false).congr (fun manifest => ?_)
  constructor
  · rintro ⟨version, _, _, sizes⟩
    exact ⟨version, sizes⟩
  · rintro ⟨version, sizes⟩
    exact ⟨version, trivial, fun _ _ => trivial, sizes⟩

/-! ## Payloads -/

/-- What is used of JSON texts: a flat object is read back from its text, and what is read
from any text is a value as a document can hold it. -/
structure TextFormat where
  write : Json.Value → Text
  read : Text → Option Json.Value
  readsBack : ∀ json : Json.Value, json.Flat → read (write json) = some json
  proper : ∀ text json, read text = some json → json.Proper

/-- Compact texts of flat objects. -/
def compact : TextFormat where
  write := JsonText.writeObject
  read := JsonText.readObject
  readsBack _ := JsonText.readObject_write
  proper _ _ := JsonText.readObject_proper

section Payloads

variable (json : TextFormat)

/-- The payload of a message. -/
def payloadText (msg : JobMessage) : Text := json.write (jobCodec.write msg)

/-- What a payload is read as. -/
def decodePayload (text : Text) : Payload :=
  match (json.read text).bind jobCodec.read with
  | some msg => .message msg
  | none => .malformed text

variable {json} {msg : JobMessage}

/-- A job is written as an object of scalars. -/
theorem jobCodec_flat (storable : msg.Storable) : (jobCodec.write msg).Flat := by
  obtain ⟨jobId, pipeline, pipelinePrefix, configVersionId, cleanRun, trigger, enqueuedAt⟩ := msg
  have signed : ∀ value, Signed value → (writeInteger value).Scalar := fun value fits =>
    ⟨fits.1, Int.lt_trans fits.2 (by decide)⟩
  refine ⟨(List.Nodup.map RecordKey.text_injective (by decide) :
    (jobShape.keys.map RecordKey.text).Nodup), ?_⟩
  simp only [jobShape, Shape.record, Shape.and, Shape.field, Member.required, Member.optional,
    Member.defaulted, Codec.text, Codec.boolean, Codec.signed, members, Option.toList_some,
    List.map_cons, List.map_nil, List.cons_append, List.nil_append, List.forall_mem_cons]
  refine ⟨trivial, trivial, trivial, ?_, trivial, trivial, signed _ storable.enqueuedAt,
    List.forall_mem_nil _⟩
  cases configVersionId with
  | none => trivial
  | some version => exact signed version (storable.version version rfl)

/-- A message is read back from its payload. -/
theorem decode_payloadText (storable : msg.Storable) :
    decodePayload json (payloadText json msg) = .message msg := by
  rw [decodePayload, payloadText, json.readsBack _ (jobCodec_flat storable), Option.bind_some,
    jobCodec_lawful.readsBack msg storable]

/-- A payload that is read as a message holds one that can be stored. -/
theorem storable_of_decoded {text : Text} (decoded : decodePayload json text = .message msg) :
    msg.Storable := by
  unfold decodePayload at decoded
  split at decoded
  · next read =>
    obtain ⟨value, isValue, isMessage⟩ := Option.bind_eq_some_iff.mp read
    rw [← Payload.message.inj decoded]
    exact jobCodec_lawful.reads value (json.proper text value isValue) _ isMessage
  · exact nomatch decoded

/-- Different messages have different payloads. -/
theorem payloadText_injective {other : JobMessage} (isFirst : msg.Storable)
    (isSecond : other.Storable)
    (same : payloadText json msg = payloadText json other) : msg = other := by
  have decoded : decodePayload json (payloadText json msg) = .message msg :=
    decode_payloadText isFirst
  rw [same, decode_payloadText isSecond] at decoded
  exact (Payload.message.inj decoded).symm

end Payloads

/-! ## The stream and the delayed set over texts -/

/-- What Redis keeps of messages: the stream, and the delayed set with its texts by the time
they fire. -/
structure WireRedis where
  entries : List (Nat × Text)
  nextEntry : Nat
  delayed : AList (fun _ : Text => Int)

/-- Nothing in it, and no entry numbered. -/
def WireRedis.empty : WireRedis := ⟨[], 0, ∅⟩

/-- Append a payload to the stream. -/
def WireRedis.append (wire : WireRedis) (payload : Text) : WireRedis :=
  { wire with
    entries := wire.entries ++ [(wire.nextEntry, payload)]
    nextEntry := wire.nextEntry + 1 }

/-- Take one payload from the delayed set to the stream. -/
def WireRedis.moveOne (wire : WireRedis) (payload : Text) : WireRedis :=
  WireRedis.append { wire with delayed := wire.delayed.erase payload } payload

/-- The payloads one run of the mover takes. -/
structure WireDue (delayed : AList (fun _ : Text => Int)) (now : Int) (due : List Text) : Prop where
  distinct : due.Nodup
  few : due.length ≤ 10
  scheduled : ∀ payload ∈ due, ∃ fireAt ∈ delayed.lookup payload, fireAt ≤ now
  ordered : due.Pairwise (fun earlier later =>
    (delayed.lookup earlier).getD 0 ≤ (delayed.lookup later).getD 0)
  earliest : ∀ payload ∈ delayed.keys, (delayed.lookup payload).getD 0 ≤ now → payload ∈ due ∨
    (due.length = 10 ∧
      ∀ taken ∈ due, (delayed.lookup taken).getD 0 ≤ (delayed.lookup payload).getD 0)

/-- A step over texts: a payload is added to the stream, the message of one that was delivered is
deferred, due ones are moved back, the oldest entry is trimmed. -/
inductive WireAction where
  | append (payload : Text)
  | defer (delivered : Text) (fireAt : Int)
  | move (now : Int) (due : List Text)
  | trim

/-- A message is deferred under the payload it is written as again. -/
def WireRedis.step (json : TextFormat) (wire : WireRedis) : WireAction → Option WireRedis
  | .append payload => some (wire.append payload)
  | .defer delivered fireAt =>
    match decodePayload json delivered with
    | .message msg => some { wire with delayed := wire.delayed.insert (payloadText json msg) fireAt }
    | .malformed _ => none
  | .move _ due => some (due.foldl WireRedis.moveOne wire)
  | .trim => some { wire with entries := wire.entries.tail }

/-- The mover takes what is due. -/
def WireRedis.Admits (wire : WireRedis) : WireAction → Prop
  | .move now due => WireDue wire.delayed now due
  | _ => True

/-- The same steps over decoded messages. -/
inductive StoreAction where
  | append (payload : Payload)
  | defer (msg : JobMessage) (fireAt : Int)
  | move (now : Int) (due : List JobMessage)
  | trim

/-- What the three actions do to the jobs themselves. -/
def Redis.store (redis : Redis) : StoreAction → Option Redis
  | .append payload => some (redis.append payload)
  | .defer msg fireAt => some { redis with delayed := redis.delayed.insert msg fireAt }
  | .move _ due => some (due.foldl Redis.moveOne redis)
  | .trim => some { redis with entries := redis.entries.tail }

/-- The mover moves what is due. -/
def Redis.Admits (redis : Redis) : StoreAction → Prop
  | .move now due => Due redis.delayed now due
  | _ => True

/-- The decoded store shows the texts: each entry is what its payload is read as, and the texts
of the delayed set are those of its messages, with their times. -/
structure Shows (json : TextFormat) (wire : WireRedis) (redis : Redis) : Prop where
  entries : redis.entries = wire.entries.map (fun entry => (entry.1, decodePayload json entry.2))
  nextEntry : redis.nextEntry = wire.nextEntry
  storable : ∀ msg ∈ redis.delayed.keys, msg.Storable
  written : ∀ payload ∈ wire.delayed.keys, ∃ msg ∈ redis.delayed.keys, payload = payloadText json msg
  times : ∀ msg : JobMessage, msg.Storable →
    redis.delayed.lookup msg = wire.delayed.lookup (payloadText json msg)

section Wire

variable {json : TextFormat} {wire : WireRedis} {redis : Redis}

/-- A new entry is shown as its text decodes. -/
theorem Shows.append (shows : Shows json wire redis) (payload : Text) :
    Shows json (wire.append payload) (redis.append (decodePayload json payload)) := by
  refine ⟨?_, ?_, shows.storable, shows.written, shows.times⟩
  · simp only [Redis.append, WireRedis.append, List.map_append, shows.entries, shows.nextEntry,
      List.map_cons, List.map_nil]
  · simp only [Redis.append, WireRedis.append, shows.nextEntry]

/-- A deferred job is shown by its text. -/
theorem Shows.defer (shows : Shows json wire redis) {msg : JobMessage} (isStorable : msg.Storable)
    (fireAt : Int) :
    Shows json { wire with delayed := wire.delayed.insert (payloadText json msg) fireAt }
      { redis with delayed := redis.delayed.insert msg fireAt } := by
  refine ⟨shows.entries, shows.nextEntry, ?_, ?_, ?_⟩
  · intro other member
    rcases (AList.mem_insert _).mp (AList.mem_keys.mpr member) with rfl | kept
    · exact isStorable
    · exact shows.storable other (AList.mem_keys.mp kept)
  · intro payload member
    rcases (AList.mem_insert _).mp (AList.mem_keys.mpr member) with rfl | kept
    · exact ⟨msg, AList.mem_keys.mp ((AList.mem_insert _).mpr (Or.inl rfl)), rfl⟩
    · obtain ⟨other, isOther, same⟩ := shows.written payload (AList.mem_keys.mp kept)
      exact ⟨other,
        AList.mem_keys.mp ((AList.mem_insert _).mpr (Or.inr (AList.mem_keys.mpr isOther))), same⟩
  · intro other otherStorable
    by_cases same : other = msg
    · rw [same, AList.lookup_insert, AList.lookup_insert]
    · have different : payloadText json other ≠ payloadText json msg :=
        fun sameText => same (payloadText_injective otherStorable isStorable sameText)
      rw [AList.lookup_insert_ne same, AList.lookup_insert_ne different]
      exact shows.times other otherStorable

/-- Moving a job is shown by moving its text. -/
theorem Shows.moveOne (shows : Shows json wire redis) {msg : JobMessage}
    (isStorable : msg.Storable) :
    Shows json (wire.moveOne (payloadText json msg)) (redis.moveOne msg) := by
  have erased : Shows json { wire with delayed := wire.delayed.erase (payloadText json msg) }
      { redis with delayed := redis.delayed.erase msg } := by
    refine ⟨shows.entries, shows.nextEntry, ?_, ?_, ?_⟩
    · intro other member
      exact shows.storable other
        (AList.mem_keys.mp (AList.mem_erase.mp (AList.mem_keys.mpr member)).2)
    · intro payload member
      obtain ⟨different, kept⟩ := AList.mem_erase.mp (AList.mem_keys.mpr member)
      obtain ⟨other, isOther, rfl⟩ := shows.written payload (AList.mem_keys.mp kept)
      refine ⟨other, AList.mem_keys.mp (AList.mem_erase.mpr ⟨?_, AList.mem_keys.mpr isOther⟩), rfl⟩
      rintro rfl
      exact different rfl
    · intro other otherStorable
      by_cases same : other = msg
      · rw [same, AList.lookup_erase, AList.lookup_erase]
      · have different : payloadText json other ≠ payloadText json msg :=
          fun sameText => same (payloadText_injective otherStorable isStorable sameText)
        rw [AList.lookup_erase_ne same, AList.lookup_erase_ne different]
        exact shows.times other otherStorable
  have moved := erased.append (payloadText json msg)
  rwa [decode_payloadText isStorable] at moved

/-- Moving all due jobs is shown by moving their texts. -/
theorem Shows.move {due : List JobMessage} (storable : ∀ msg ∈ due, msg.Storable)
    (shows : Shows json wire redis) :
    Shows json ((due.map (payloadText json)).foldl WireRedis.moveOne wire)
    (due.foldl Redis.moveOne redis) := by
  induction due generalizing wire redis with
  | nil => exact shows
  | cons msg rest inductionHypothesis =>
    rw [List.forall_mem_cons] at storable
    exact inductionHypothesis storable.2 (shows.moveOne storable.1)

/-- What is due among the texts is the payloads of what is due among the messages. -/
theorem Shows.due (shows : Shows json wire redis) {now : Int} {due : List Text}
    (isDue : WireDue wire.delayed now due) : ∃ msgs :
    List JobMessage, due = msgs.map (payloadText json) ∧
      (∀ msg ∈ msgs, msg.Storable) ∧ Due redis.delayed now msgs := by
  have each : ∀ payload ∈ due, ∃ msg ∈ redis.delayed.keys, payloadText json msg = payload := by
    intro payload member
    obtain ⟨fireAt, found, _⟩ := isDue.scheduled payload member
    have isKey : payload ∈ wire.delayed.keys :=
      AList.mem_keys.mp (AList.lookup_isSome.mp (Option.isSome_iff_exists.mpr ⟨fireAt, found⟩))
    obtain ⟨msg, isMessage, same⟩ := shows.written payload isKey
    exact ⟨msg, isMessage, same.symm⟩
  obtain ⟨msgs, among, rfl⟩ : ∃ msgs : List JobMessage, (∀ msg ∈ msgs, msg ∈ redis.delayed.keys) ∧
      due = msgs.map (payloadText json) := by
    clear isDue
    induction due with
    | nil => exact ⟨[], List.forall_mem_nil _, rfl⟩
    | cons payload rest inductionHypothesis =>
      rw [List.forall_mem_cons] at each
      obtain ⟨msg, isMessage, rfl⟩ := each.1
      obtain ⟨msgs, among, rfl⟩ := inductionHypothesis each.2
      exact ⟨msg :: msgs, List.forall_mem_cons.mpr ⟨isMessage, among⟩, rfl⟩
  have storable : ∀ msg ∈ msgs, msg.Storable :=
    fun msg member => shows.storable msg (among msg member)
  have time : ∀ msg ∈ redis.delayed.keys,
      redis.delayed.lookup msg = wire.delayed.lookup (payloadText json msg) :=
    fun msg member => shows.times msg (shows.storable msg member)
  refine ⟨msgs, rfl, storable, ⟨List.Nodup.of_map _ isDue.distinct, ?_, ?_, ?_, ?_⟩⟩
  · simpa using isDue.few
  · intro msg member
    rw [time msg (among msg member)]
    exact isDue.scheduled _ (List.mem_map_of_mem member)
  · refine List.Pairwise.imp_of_mem ?_ (List.pairwise_map.mp isDue.ordered)
    intro earlier later isEarlier isLater ordered
    rwa [time earlier (among earlier isEarlier), time later (among later isLater)]
  · intro msg isKey inTime
    have wireKey : payloadText json msg ∈ wire.delayed.keys := by
      rw [AList.mem_keys.symm, ← AList.lookup_isSome, ← time msg isKey]
      exact AList.lookup_isSome.mpr (AList.mem_keys.mpr isKey)
    rw [time msg isKey] at inTime ⊢
    rcases isDue.earliest _ wireKey inTime with taken | ⟨full, later⟩
    · obtain ⟨other, isOther, same⟩ := List.mem_map.mp taken
      rw [payloadText_injective (shows.storable msg isKey) (storable other isOther) same.symm]
      exact Or.inl isOther
    · refine Or.inr ⟨by simpa using full, fun taken isTaken => ?_⟩
      rw [time taken (among taken isTaken)]
      exact later _ (List.mem_map_of_mem isTaken)

/-- One step over texts is one over decoded messages. -/
theorem Shows.step (shows : Shows json wire redis) {action : WireAction} {after : WireRedis}
    (admits : wire.Admits action) (stepped : wire.step json action = some after) :
    ∃ decoded redis', redis.Admits decoded ∧ redis.store decoded = some redis' ∧
    Shows json after redis' := by
  cases action with
  | append payload =>
    obtain rfl := Option.some.inj stepped
    exact ⟨.append (decodePayload json payload), _, trivial, rfl, shows.append payload⟩
  | defer delivered fireAt =>
    simp only [WireRedis.step] at stepped
    split at stepped
    · next msg decoded =>
      obtain rfl := Option.some.inj stepped
      exact ⟨.defer msg fireAt, _, trivial, rfl, shows.defer (storable_of_decoded decoded) fireAt⟩
    · exact nomatch stepped
  | move now due =>
    obtain rfl := Option.some.inj stepped
    obtain ⟨msgs, rfl, storable, isDue⟩ := shows.due admits
    exact ⟨.move now msgs, _, isDue, rfl, shows.move storable⟩
  | trim =>
    obtain rfl := Option.some.inj stepped
    refine ⟨.trim, _, trivial, rfl, ?_, shows.nextEntry, shows.storable, shows.written, shows.times⟩
    simp only [shows.entries, List.map_tail]

/-- Every run over texts is a run over decoded messages that shows it throughout. -/
theorem wire_refines (json : TextFormat) {wire : WireRedis}
    (reached : Runs.Reaches (WireRedis.step json) WireRedis.Admits WireRedis.empty wire) :
    ∃ redis, Runs.Reaches Redis.store Redis.Admits Redis.empty redis ∧ Shows json wire redis := by
  refine reached.invariant (fun wire => ∃ redis,
    Runs.Reaches Redis.store Redis.Admits Redis.empty redis ∧ Shows json wire redis) ?_ ?_
  · refine ⟨Redis.empty, .refl, rfl, rfl, ?_, ?_, fun _ _ => rfl⟩
    · intro msg member
      exact absurd member List.not_mem_nil
    · intro payload member
      exact absurd member List.not_mem_nil
  · rintro before action after ⟨redis, reachedBefore, shows⟩ admits stepped
    obtain ⟨decoded, redis', isAdmitted, stored, showsAfter⟩ := shows.step admits stepped
    exact ⟨redis', reachedBefore.tail ⟨decoded, isAdmitted, stored⟩, showsAfter⟩

end Wire

/-- A message that is deferred once and is due again. -/
def deferredJob : JobMessage :=
  ⟨"job-1".toList, "sales".toList, "tenants/1".toList, none, false, "webhook".toList, 5⟩

/-- A job that is deferred, moved and enqueued again has the same text both times. -/
theorem wire_refines_deferred : ∃ redis, Runs.Reaches Redis.store Redis.Admits Redis.empty redis ∧
    Shows compact ⟨[(0, payloadText compact deferredJob), (1, payloadText compact deferredJob)], 2, ∅⟩ redis := by
  have storable : deferredJob.Storable := ⟨(fun _ absent => nomatch absent), by decide⟩
  have decoded : decodePayload compact (payloadText compact deferredJob) = .message deferredJob :=
    decode_payloadText storable
  have appended : Runs.Reaches (WireRedis.step compact) WireRedis.Admits WireRedis.empty
      (WireRedis.empty.append (payloadText compact deferredJob)) :=
        .tail .refl ⟨.append _, trivial, rfl⟩
  have deferred : Runs.Reaches (WireRedis.step compact) WireRedis.Admits WireRedis.empty
      { WireRedis.empty.append (payloadText compact deferredJob) with
        delayed := AList.insert (payloadText compact deferredJob) 7 ∅ } := by
    refine .tail appended ⟨.defer (payloadText compact deferredJob) 7, trivial, ?_⟩
    simp only [WireRedis.step, decoded]
    rfl
  refine wire_refines compact (.tail deferred ⟨.move 7 [payloadText compact deferredJob], ?_, ?_⟩)
  · have time :
      (AList.insert (payloadText compact deferredJob) 7 ∅ : AList (fun _ : Text => Int)).lookup
        (payloadText compact deferredJob) = some 7 := AList.lookup_insert _
    refine ⟨List.nodup_singleton _, by decide, ?_, List.pairwise_singleton _ _, ?_⟩
    · intro payload member
      obtain rfl := List.mem_singleton.mp member
      exact ⟨7, time, Int.le_refl 7⟩
    · intro payload isKey _
      exact Or.inl isKey
  · have erased :
      (AList.singleton (payloadText compact deferredJob) 7 : AList (fun _ : Text => Int)).erase
        (payloadText compact deferredJob) = ∅ := by
      have noKeys :
        ((AList.singleton (payloadText compact deferredJob) 7 : AList (fun _ : Text => Int)).erase
          (payloadText compact deferredJob)).keys = [] := by
        rw [AList.keys_erase, AList.keys_singleton]
        simp
      exact AList.ext (by simpa [AList.keys, List.keys] using noKeys)
    simp [WireRedis.step, WireRedis.moveOne, WireRedis.append, WireRedis.empty, erased]

end KaretWorker
