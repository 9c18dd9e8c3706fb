import KaretWorker.Config
import KaretWorker.Library.Program
import KaretWorker.Manifest
import Mathlib.Data.List.AList

/-!
# What a run asks of its surroundings

A run of the executor talks to two buckets through the four operations of
`src/s3.rs` and `src/manifest.rs`, and asks for a few results the control flow
only branches on: the cancel flag, the clock, the iteration order of a hash map,
and the outcomes of building dimensions and of evaluating one mapping. Each is an
effect with a typed reply.

Objects are kept decoded: `serde_json` reads back the records it wrote, and a
body of another kind fails to parse. An arithmetic overflow is an effect without
a reply; the run ends there, as a panic does.

`answer` executes one effect on the buckets under an answer chosen by the
surroundings. A refused operation changes nothing. A lost one was applied
although the caller sees an error.
-/
namespace KaretWorker

open Texts Interaction

/-- The two buckets: sources in the one, tables in the other. -/
inductive Bucket where
  | lake
  | warehouse
  deriving DecidableEq, Repr

/-- The body of one object. -/
inductive Object where
  | pointer (pointer : CurrentPointer)
  | manifest (manifest : TableManifest)
  | data (bytes : List UInt8)
  deriving DecidableEq, Repr

/-- One bucket: the body stored under each key. -/
abbrev Store : Type := AList (fun _ : Text => Object)

/-- The contents of both. -/
structure Buckets where
  lake : Store
  warehouse : Store

/-- A single partition's worth of Parquet-encoded output. -/
structure PartitionOutput where
  key : Text
  bytes : List UInt8
  deriving DecidableEq, Repr

/-- What the blocking task of one mapping ends with: its partitions and the
number of rows dropped by dedup, an error message, or a panic. -/
inductive Evaluation where
  | partitions (outputs : List PartitionOutput) (dropped : Nat)
  | failed (message : Text)
  | panicked (joinError : Text)
  deriving DecidableEq, Repr

/-- What a run asks of its surroundings, one operation at a time. -/
inductive Effect where
  | getBytes (bucket : Bucket) (key : Text)
  | listKeys (bucket : Bucket) (lead : Text)
  | putObject (bucket : Bucket) (key : Text) (body : Object)
  | deleteObject (bucket : Bucket) (key : Text)
  | loadCancel
  | now
  | overflow
  | iterate (ids : List Text)
  | buildInlineRegistry (dimensions : List Dimension)
  | rowsFromCsv (dimension : Dimension) (body : Object)
  | newMatcher (dimension : Dimension)
  | evaluate (mapping : Mapping) (table : Option AnalyticTable) (files : List (Text × Object))

/-- Whether a pending effect reads a given object. -/
instance (bucket : Bucket) (key : Text) :
    (pending : Option Effect) → Decidable (pending = some (.getBytes bucket key))
  | some (.getBytes other read) =>
    decidable_of_iff (other = bucket ∧ read = key) (by simp)
  | none => isFalse (fun impossible => nomatch impossible)
  | some (.listKeys _ _) | some (.putObject _ _ _) | some (.deleteObject _ _) | some .loadCancel
  | some .now | some .overflow | some (.iterate _) | some (.buildInlineRegistry _)
  | some (.rowsFromCsv _ _) | some (.newMatcher _) | some (.evaluate _ _ _) =>
    isFalse (fun impossible => nomatch impossible)

/-- What each effect returns. -/
abbrev Reply : Effect → Type
  | .getBytes _ _ => Except Text Object
  | .listKeys _ _ => Except Text (List Text)
  | .putObject _ _ _ => Except Text Unit
  | .deleteObject _ _ => Except Text Unit
  | .loadCancel => Bool
  | .now => Text
  | .overflow => Empty
  | .iterate _ => List Text
  | .buildInlineRegistry _ => Except Text Unit
  | .rowsFromCsv _ _ => Except Text Unit
  | .newMatcher _ => Except Text Unit
  | .evaluate _ _ _ => Evaluation

/-- A run of the executor, or a part of one. -/
abbrev Job (α : Type) : Type := Program Effect Reply α

/-- Issue one effect. -/
abbrev perform (effect : Effect) : Job (Reply effect) := Program.perform effect

/-- What every reply satisfies, whatever the buckets hold. Iterating a hash map
visits each id once. A mapping is evaluated into partitions only if its table is
declared, and each partition's key has the shape `produce_partitions` gives it; a
table without partition keys gets one partition. -/
def Genuine : (effect : Effect) → Reply effect → Prop
  | .iterate ids, order => order.Perm ids
  | .evaluate mapping table _, .partitions outputs _ =>
      ∃ declared, table = some declared ∧
        (∀ output ∈ outputs, ∃ segments,
          output.key = partitionKey declared.id segments mapping.id) ∧
        (declared.partitionKeys = [] →
          outputs.map PartitionOutput.key = [partitionKey declared.id [] mapping.id])
  | _, _ => True

instance : (effect : Effect) → (reply : Reply effect) → Decidable (Genuine effect reply)
  | .iterate ids, order => inferInstanceAs (Decidable (order.Perm ids))
  | .evaluate mapping table _, .partitions outputs _ =>
    decidable_of_iff
      (∃ declared ∈ table,
        (∀ output ∈ outputs,
          ∃ rest ∈ output.key.dropPrefix? (declared.id ++ ['/']),
            ∃ middle ∈ rest.dropSuffix? (mapping.id ++ ".parquet".toList), Segmented middle) ∧
        (declared.partitionKeys = [] →
          outputs.map PartitionOutput.key = [partitionKey declared.id [] mapping.id]))
      (by simp only [Genuine, ← partitionKey_iff, Option.mem_def])
  | .evaluate _ _ _, .failed _ => isTrue trivial
  | .evaluate _ _ _, .panicked _ => isTrue trivial
  | .getBytes _ _, _ => isTrue trivial
  | .listKeys _ _, _ => isTrue trivial
  | .putObject _ _ _, _ => isTrue trivial
  | .deleteObject _ _, _ => isTrue trivial
  | .loadCancel, _ => isTrue trivial
  | .now, _ => isTrue trivial
  | .overflow, _ => isTrue trivial
  | .buildInlineRegistry _, _ => isTrue trivial
  | .rowsFromCsv _ _, _ => isTrue trivial
  | .newMatcher _, _ => isTrue trivial

/-- What a frame without rows is partitioned into: one empty file, or none for a table
with partition keys. -/
def emptyPartitions (table : AnalyticTable) (mappingId : Text) : List PartitionOutput :=
  if table.partitionKeys = [] then [⟨partitionKey table.id [] mappingId, []⟩] else []

/-- Each of its keys is the unpartitioned one. -/
theorem emptyPartitions_key {table : AnalyticTable} {mappingId : Text} {output : PartitionOutput}
    (member : output ∈ emptyPartitions table mappingId) :
    output.key = partitionKey table.id [] mappingId := by
  unfold emptyPartitions at member
  split at member
  · rw [List.mem_singleton.mp member]
  · exact absurd member List.not_mem_nil

/-- A mapping of a declared table may produce a frame without rows. -/
theorem emptyPartitions_genuine {mapping : Mapping} {table : AnalyticTable}
    {files : List (Text × Object)} (dropped : Nat) :
    Genuine (.evaluate mapping (some table) files)
      (.partitions (emptyPartitions table mapping.id) dropped) := by
  refine ⟨table, rfl, fun output member => ⟨[], emptyPartitions_key member⟩, fun unkeyed => ?_⟩
  rw [emptyPartitions, if_pos unkeyed, List.map_singleton]

/-! ## The buckets -/

/-- The contents of one bucket. -/
def Buckets.store (buckets : Buckets) : Bucket → Store
  | .lake => buckets.lake
  | .warehouse => buckets.warehouse

/-- Replace the contents of one bucket. -/
def Buckets.set (buckets : Buckets) (bucket : Bucket) (store : Store) : Buckets :=
  match bucket with
  | .lake => { buckets with lake := store }
  | .warehouse => { buckets with warehouse := store }

/-- All keys of a bucket with the given lead, in ascending order. -/
def Store.listKeys (store : Store) (lead : Text) : List Text :=
  (store.keys.filter (fun key => lead.isPrefixOf key)).insertionSort (· ≤ ·)

/-- A listing has exactly the keys under its prefix. -/
theorem Store.mem_listKeys {store : Store} {lead key : Text} :
    key ∈ store.listKeys lead ↔ lead <+: key ∧ (store.lookup key).isSome = true := by
  simp only [Store.listKeys, List.mem_insertionSort, List.mem_filter, List.isPrefixOf_iff_prefix,
    AList.mem_keys, AList.lookup_isSome, and_comm]

/-- A listing has no key twice. -/
theorem Store.nodup_listKeys (store : Store) (lead : Text) : (store.listKeys lead).Nodup :=
  (List.perm_insertionSort _ _).nodup_iff.mpr (store.keys_nodup.filter _)

/-- How the surroundings answer one effect. -/
inductive Answer where
  | served
  | refused (error : Text)
  | lost (error : Text)
  | flag (cancelled : Bool)
  | clock (text : Text)
  | order (ids : List Text)
  | outcome (result : Except Text Unit)
  | evaluated (evaluation : Evaluation)

/-- Execute an effect under an answer. An answer that does not fit the effect, or
that serves an object that is not there, is no execution. -/
def answer (buckets : Buckets) : (effect : Effect) → Answer → Option (Reply effect × Buckets)
  | .getBytes bucket key, .served =>
      ((buckets.store bucket).lookup key).map (fun body => (.ok body, buckets))
  | .getBytes _ _, .refused error => some (.error error, buckets)
  | .listKeys bucket lead, .served => some (.ok ((buckets.store bucket).listKeys lead), buckets)
  | .listKeys _ _, .refused error => some (.error error, buckets)
  | .putObject bucket key body, .served =>
      some (.ok (), buckets.set bucket ((buckets.store bucket).insert key body))
  | .putObject _ _ _, .refused error => some (.error error, buckets)
  | .putObject bucket key body, .lost error =>
      some (.error error, buckets.set bucket ((buckets.store bucket).insert key body))
  | .deleteObject bucket key, .served =>
      some (.ok (), buckets.set bucket ((buckets.store bucket).erase key))
  | .deleteObject _ _, .refused error => some (.error error, buckets)
  | .deleteObject bucket key, .lost error =>
      some (.error error, buckets.set bucket ((buckets.store bucket).erase key))
  | .loadCancel, .flag cancelled => some (cancelled, buckets)
  | .now, .clock text => some (text, buckets)
  | .iterate _, .order ids => some (ids, buckets)
  | .buildInlineRegistry _, .outcome result => some (result, buckets)
  | .rowsFromCsv _ _, .outcome result => some (result, buckets)
  | .newMatcher _, .outcome result => some (result, buckets)
  | .evaluate _ _ _, .evaluated evaluation => some (evaluation, buckets)
  | _, _ => none

/-! ## Finished runs -/

/-- A genuine reply given under one of the permitted answers. -/
def Given (permits : Buckets → Effect → Answer → Prop) (buckets : Buckets) (effect : Effect)
    (reply : Reply effect) (buckets' : Buckets) : Prop :=
  Genuine effect reply ∧
    ∃ given, permits buckets effect given ∧ answer buckets effect given = some (reply, buckets')

/-- Run a job under answers given in order, as long as each fits and its reply is genuine. -/
def execute {α : Type} : Job α → Buckets → List Answer →
    Option (List (Event Effect Reply) × α × Buckets)
  | .done value, buckets, _ => some ([], value, buckets)
  | .call _ _, _, [] => none
  | .call effect next, buckets, given :: rest =>
    match answer buckets effect given with
    | none => none
    | some (reply, buckets') =>
      if Genuine effect reply then
        (execute (next reply) buckets' rest).map (fun run => (⟨effect, reply⟩ :: run.1, run.2))
      else none

/-- What was executed is a finished run. -/
theorem execute_completes {α : Type} {job : Job α} {buckets final : Buckets} {answers : List Answer}
    {trace : List (Event Effect Reply)} {value : α}
    (executed : execute job buckets answers = some (trace, value, final)) :
    Program.Completes (Given (fun _ _ _ => True)) job buckets trace value final := by
  induction job generalizing buckets answers trace with
  | done value =>
    obtain ⟨⟩ := executed
    exact .done _ _
  | call effect next inductionHypothesis =>
    cases answers with
    | nil => exact nomatch executed
    | cons given rest =>
      simp only [execute] at executed
      split at executed
      · exact nomatch executed
      · next reply buckets' answered =>
        split at executed
        · next genuine =>
          obtain ⟨⟨later, result⟩, further, same⟩ := Option.map_eq_some_iff.mp executed
          obtain ⟨⟩ := same
          exact .call ⟨genuine, given, trivial, answered⟩ (inductionHypothesis reply further)
        · exact nomatch executed

/-- A run on the buckets that ends, every effect answered as permitted. -/
abbrev Ends {α : Type} (permits : Buckets → Effect → Answer → Prop) (job : Job α) (buckets : Buckets)
    (value : α) (final : Buckets) : Prop :=
  Program.Ends (Given permits) job buckets value final

section Ends

variable {α β : Type} {permits : Buckets → Effect → Answer → Prop} {buckets middle final : Buckets}

/-- A finished program ends where it is. -/
theorem Ends.done (value : α) (buckets : Buckets) :
    Ends permits (.done value) buckets value buckets := Program.ends_done value buckets

/-- The pending effect is answered, and the rest ends. -/
theorem Ends.call {effect : Effect} {next : Reply effect → Job α} {reply : Reply effect} {value : α}
    (given : Answer) (genuine : Genuine effect reply) (permitted : permits buckets effect given)
    (answered : answer buckets effect given = some (reply, middle))
    (rest : Ends permits (next reply) middle value final) :
    Ends permits (.call effect next) buckets value final :=
  Program.ends_call ⟨genuine, given, permitted, answered⟩ rest

/-- An effect is answered, and what follows its reply ends. -/
theorem Ends.perform {effect : Effect} {next : Reply effect → Job α} {reply : Reply effect}
    {value : α} (given : Answer) (genuine : Genuine effect reply)
    (permitted : permits buckets effect given)
    (answered : answer buckets effect given = some (reply, middle))
    (rest : Ends permits (next reply) middle value final) :
    Ends permits (KaretWorker.perform effect >>= next) buckets value final :=
  .call given genuine permitted answered rest

/-- A part ends, and so does what follows it. -/
theorem Ends.bind {job : Job α} {next : α → Job β} {value : α} {result : β}
    (first : Ends permits job buckets value middle)
    (rest : Ends permits (next value) middle result final) :
    Ends permits (job >>= next) buckets result final := Program.ends_bind first rest

end Ends

end KaretWorker
