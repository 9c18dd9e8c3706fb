import KaretWorker.PartitionPaths

/-!
# Partitions of a frame

`produce_partitions` of `src/pipeline.rs` splits a frame by its partition keys: one output
for each tuple of key cells, with the rows of the tuple in their order and without the key
columns, under a path from which the tuple is read back (`producePartitions_splits`). It
fails exactly when some key cell is null, of another type, or a date out of range.

With no keys there is one output, the whole frame, even if the frame has no row.
-/
namespace KaretWorker

open Texts Frames

/-- The key columns hold integers, truth values, dates or strings, each of them one kind. -/
def Typed (frame : DataFrame) (keys : List Text) : Prop :=
  ∀ row ∈ frame.rows, ∀ row' ∈ frame.rows,
    List.Forall₂ SameKind (tupleOf frame.names keys row) (tupleOf frame.names keys row')

/-- Every key cell is supported. -/
def AllSupported (engine : Engine) (frame : DataFrame) (keys : List Text) : Prop :=
  ∀ row ∈ frame.rows, ∀ cell ∈ tupleOf frame.names keys row, Supported engine cell

/-- The outputs split the frame by the tuples: each tuple of key cells has one output,
whose path gives the tuple back and whose bytes are those of the tuple's rows. -/
structure Splits (engine : Engine) (read : List UInt8 → Option DataFrame) (frame : DataFrame)
    (mapping : Mapping) (table : AnalyticTable) (outputs : List PartitionOutput)
    (tuples : List (List Cell)) : Prop where
  distinct : tuples.Nodup
  complete : ∀ tuple, tuple ∈ tuples ↔
    ∃ row ∈ frame.rows, tupleOf frame.names table.partitionKeys row = tuple
  keys : (outputs.map PartitionOutput.key).Nodup
  parts : List.Forall₂ (fun tuple (output : PartitionOutput) =>
    splitPath mapping table output.key = some (tuple.map (cellText engine)) ∧
      read output.bytes = some (frame.part table.partitionKeys tuple)) tuples outputs
  texts : ∀ tuple ∈ tuples, ∀ tuple' ∈ tuples,
    tuple.map (cellText engine) = tuple'.map (cellText engine) → tuple = tuple'

section Groups

variable {engine : Engine} {frame : DataFrame} {keys : List Text}

/-- The segments of a group are those of its first row's tuple. -/
theorem groupSegments_tuple {first : List Cell} {others : List (List Cell)}
    (rows : frame.rows = first :: others) (declared : ∀ key ∈ keys, key ∈ frame.names) :
    groupSegments engine frame keys = tupleSegments engine keys
      (tupleOf frame.names keys first) := by
  induction keys with
  | nil => rfl
  | cons key rest inductionHypothesis =>
    rw [List.forall_mem_cons] at declared
    obtain ⟨cell, column, isColumn, tuple⟩ := column_first rows declared.1
    rw [groupSegments, tuple, tupleSegments, keyColumn, isColumn, inductionHypothesis declared.2]
    rfl

/-- Without nulls in the key columns no null is found. -/
theorem checkNulls_ok (declared : ∀ key ∈ keys, key ∈ frame.names)
    (present : ∀ row ∈ frame.rows, .null ∉ tupleOf frame.names keys row) :
    checkNulls frame keys = .ok () := by
  induction keys with
  | nil => rfl
  | cons key rest inductionHypothesis =>
    rw [List.forall_mem_cons] at declared
    obtain ⟨column, isColumn, cells⟩ := mem_column declared.1
    have none : column.countP (· = .null) = 0 := by
      rw [List.countP_eq_zero]
      intro cell member isNull
      obtain ⟨row, isRow, tuple⟩ := (cells cell).mp member
      rw [of_decide_eq_true isNull] at tuple
      exact present row isRow (mem_tupleOf.mpr ⟨key, List.mem_cons_self, tuple⟩)
    have others := inductionHypothesis declared.2 (fun row isRow isNull => by
      obtain ⟨other, member, tuple⟩ := mem_tupleOf.mp isNull
      exact present row isRow (mem_tupleOf.mpr ⟨other, List.mem_cons_of_mem _ member, tuple⟩))
    rw [checkNulls, keyColumn, isColumn]
    simp only [Except.mapError, bind, Except.bind, none, Nat.lt_irrefl, if_false]
    exact others

variable {mapping : Mapping} {table : AnalyticTable} {group : DataFrame} {tuple : List Cell}

/-- The segments of a tuple's group are those of the tuple. -/
theorem groupSegments_group (declared : ∀ key ∈ keys, key ∈ frame.names)
    (isGroup : IsGroup frame keys tuple group) :
    groupSegments engine group keys = tupleSegments engine keys tuple := by
  obtain ⟨first, others, rows, isTuple⟩ := isGroup.first
  rw [groupSegments_tuple rows (isGroup.names ▸ declared), isGroup.names, isTuple]

/-- A supported tuple has an output, from whose path it is read back. -/
theorem groupOutput_ok {read : List UInt8 → Option DataFrame} (mapping : Mapping)
    (calendar : CalendarDates engine) (declared : ∀ key ∈ table.partitionKeys, key ∈ frame.names)
    (isGroup : IsGroup frame table.partitionKeys tuple group)
    (writes : ∃ bytes, engine.writeParquet (frame.part table.partitionKeys tuple) = .ok bytes ∧
      read bytes = some (frame.part table.partitionKeys tuple))
    (width : tuple.length = table.partitionKeys.length)
    (supported : ∀ cell ∈ tuple, Supported engine cell) :
    ∃ output, groupOutput engine mapping table group = .ok output ∧
      splitPath mapping table output.key = some (tuple.map (cellText engine)) ∧
      read output.bytes = some (frame.part table.partitionKeys tuple) := by
  obtain ⟨segments, areSegments⟩ :=
    tupleSegments_ok table.partitionKeys supported
  obtain ⟨bytes, written, readBack⟩ := writes
  refine ⟨⟨partitionKey table.id segments mapping.id, bytes⟩, ?_,
    splitPath_partitionKey calendar mapping width areSegments, readBack⟩
  rw [groupOutput, groupSegments_group declared isGroup, areSegments, isGroup.part,
    parquetBytes, written]
  rfl

/-- A tuple with a cell that is not supported has none. -/
theorem groupOutput_error (declared : ∀ key ∈ table.partitionKeys, key ∈ frame.names)
    (isGroup : IsGroup frame table.partitionKeys tuple group)
    (width : tuple.length = table.partitionKeys.length) {cell : Cell} (member : cell ∈ tuple)
    (unsupported : ¬ Supported engine cell) :
    ∃ error, groupOutput engine mapping table group = .error error := by
  have fails : ∀ (keys : List Text) (tuple : List Cell), tuple.length = keys.length → cell ∈ tuple →
      ∃ error, tupleSegments engine keys tuple = .error error := by
    intro keys
    induction keys with
    | nil =>
      intro tuple width member
      rw [List.eq_nil_of_length_eq_zero width] at member
      exact absurd member List.not_mem_nil
    | cons key rest inductionHypothesis =>
      intro tuple width member
      cases tuple with
      | nil => exact nomatch width
      | cons first others =>
        rw [tupleSegments]
        cases isValue : segmentValue engine first with
        | error error => exact ⟨error, rfl⟩
        | ok value =>
          rcases List.mem_cons.mp member with rfl | later
          · exact absurd (segmentValue_supported.mp ⟨value, isValue⟩) unsupported
          · obtain ⟨error, failed⟩ := inductionHypothesis others (Nat.succ.inj width) later
            exact ⟨error, by rw [failed]; rfl⟩
  obtain ⟨error, failed⟩ := fails table.partitionKeys tuple width member
  exact ⟨error, by rw [groupOutput, groupSegments_group declared isGroup, failed]; rfl⟩

end Groups

/-! ## The outputs of a frame -/

section Outputs

variable {engine : Engine} {read : List UInt8 → Option DataFrame} {frame : DataFrame}
  {mapping : Mapping} {table : AnalyticTable}

/-- Outputs with different paths texts have different keys. -/
theorem keys_nodup {tuples : List (List Cell)} {outputs : List PartitionOutput}
    (distinct : tuples.Nodup) (texts : ∀ tuple ∈ tuples, ∀ tuple' ∈ tuples,
      tuple.map (cellText engine) = tuple'.map (cellText engine) → tuple = tuple')
    (paths : List.Forall₂ (fun tuple (output : PartitionOutput) =>
      splitPath mapping table output.key = some (tuple.map (cellText engine))) tuples outputs) :
    (outputs.map PartitionOutput.key).Nodup := by
  have decoded : (outputs.map PartitionOutput.key).map (splitPath mapping table) =
      tuples.map (fun tuple => some (tuple.map (cellText engine))) := by
    clear distinct texts
    induction paths with
    | nil => rfl
    | cons same _ inductionHypothesis =>
      rw [List.map_cons, List.map_cons, List.map_cons, same, inductionHypothesis]
  refine List.Nodup.of_map (splitPath mapping table) ?_
  rw [decoded]
  exact List.Nodup.map_on (fun tuple member tuple' member' same =>
    texts tuple member tuple' member' (Option.some.inj same)) distinct

/-- Tuples of the same kinds with the same texts are equal. -/
theorem tuple_injective (calendar : CalendarDates engine) {tuple tuple' : List Cell}
    (kinds : List.Forall₂ SameKind tuple tuple') (supported : ∀ cell ∈ tuple, Supported engine cell)
    (supported' : ∀ cell ∈ tuple', Supported engine cell)
    (sameTexts : tuple.map (cellText engine) = tuple'.map (cellText engine)) : tuple = tuple' := by
  induction kinds with
  | nil => rfl
  | cons sameKind _ inductionHypothesis =>
    rw [List.forall_mem_cons] at supported supported'
    rw [List.map_cons, List.map_cons] at sameTexts
    obtain ⟨sameText, others⟩ := List.cons.inj sameTexts
    rw [cellText_injective calendar supported.1 supported'.1 sameKind sameText,
      inductionHypothesis supported.2 supported'.2 others]

/-- Without keys the one output is the whole frame. -/
theorem producePartitions_unkeyed (unkeyed : table.partitionKeys = []) {bytes : List UInt8}
    (written : engine.writeParquet frame = .ok bytes) :
    producePartitions engine frame mapping table =
    .ok [⟨partitionKey table.id [] mapping.id, bytes⟩] := by
  rw [producePartitions, if_pos (List.isEmpty_iff.mpr unkeyed), parquetBytes, written]
  rfl

/-- With partition keys: nulls are refused, then each group is an output of its own. -/
theorem producePartitions_keyed (keyed : table.partitionKeys ≠ []) :
    producePartitions engine frame mapping table = (do
      checkNulls frame table.partitionKeys
      let groups ← (frame.partitionByStable table.partitionKeys).mapError (.polars partitionPlace)
      groups.mapM (groupOutput engine mapping table)) := by
  rw [producePartitions, if_neg (fun empty => keyed (List.isEmpty_iff.mp empty))]

/-- A tuple of the frame has a cell for each key. -/
theorem tuple_width (declared : ∀ key ∈ table.partitionKeys, key ∈ frame.names)
    {tuple : List Cell}
    (isTuple : ∃ row ∈ frame.rows, tupleOf frame.names table.partitionKeys row = tuple) :
    tuple.length = table.partitionKeys.length := by
  obtain ⟨row, isRow, rfl⟩ := isTuple
  exact tupleOf_length declared (frame.even row isRow)

/-- The Parquet bytes of every part of the frame are written and read back. -/
def Writes (engine : Engine) (read : List UInt8 → Option DataFrame) (frame : DataFrame)
    (keys : List Text) : Prop :=
  ∀ tuple, ∃ bytes, engine.writeParquet (frame.part keys tuple) = .ok bytes ∧
    read bytes = some (frame.part keys tuple)

/-- The tuples of a frame of typed columns are told apart by their texts. -/
theorem texts_injective (calendar : CalendarDates engine)
    (typed : Typed frame table.partitionKeys)
    (supported : AllSupported engine frame table.partitionKeys)
    {tuples : List (List Cell)} (complete : ∀ tuple, tuple ∈ tuples ↔
      ∃ row ∈ frame.rows, tupleOf frame.names table.partitionKeys row = tuple) :
    ∀ tuple ∈ tuples, ∀ tuple' ∈ tuples,
      tuple.map (cellText engine) = tuple'.map (cellText engine) → tuple = tuple' := by
  intro tuple member tuple' member' sameTexts
  obtain ⟨row, isRow, rfl⟩ := (complete tuple).mp member
  obtain ⟨row', isRow', rfl⟩ := (complete tuple').mp member'
  exact tuple_injective calendar (typed row isRow row' isRow') (supported row isRow)
    (supported row' isRow') sameTexts

/-- A frame whose key cells are supported is split. -/
theorem producePartitions_ok (mapping : Mapping) (calendar : CalendarDates engine)
    (declared : ∀ key ∈ table.partitionKeys, key ∈ frame.names)
    (writes : Writes engine read frame table.partitionKeys)
    (supported : AllSupported engine frame table.partitionKeys) :
    ∃ outputs tuples, producePartitions engine frame mapping table = .ok outputs ∧
      (Typed frame table.partitionKeys → table.partitionKeys ≠ [] ∨ frame.rows ≠ [] →
        Splits engine read frame mapping table outputs tuples) := by
  by_cases unkeyed : table.partitionKeys = []
  · obtain ⟨bytes, written, readBack⟩ := writes []
    rw [unkeyed, part_nil] at written readBack
    refine ⟨_, [[]], producePartitions_unkeyed unkeyed written, fun _ shown => ?_⟩
    have path := splitPath_partitionKey calendar mapping
      (show [].length = table.partitionKeys.length by rw [unkeyed]; rfl)
      (show tupleSegments engine table.partitionKeys [] = .ok [] by rw [unkeyed]; rfl)
    refine ⟨List.nodup_singleton _, fun tuple => ?_, List.nodup_singleton _,
      List.Forall₂.cons ⟨path, by rw [unkeyed, part_nil]; exact readBack⟩ List.Forall₂.nil, ?_⟩
    · obtain ⟨first, others, rows⟩ :=
        List.exists_cons_of_ne_nil (shown.resolve_left (fun keyed => keyed unkeyed))
      rw [List.mem_singleton, unkeyed]
      constructor
      · rintro rfl
        exact ⟨first, rows ▸ List.mem_cons_self, rfl⟩
      · rintro ⟨_, _, rfl⟩
        rfl
    · intro tuple member tuple' member' _
      rw [List.mem_singleton.mp member, List.mem_singleton.mp member']
  · obtain ⟨groups, tuples, parted, distinct, complete, areGroups⟩ :=
      partitionByStable_tuples declared
    have supportedTuple : ∀ tuple ∈ tuples, ∀ cell ∈ tuple, Supported engine cell := by
      intro tuple member
      obtain ⟨row, isRow, rfl⟩ := (complete tuple).mp member
      exact supported row isRow
    obtain ⟨outputs, areOutputs, parts⟩ := Results.mapM_related areGroups
      (fun tuple member group isGroup => groupOutput_ok mapping calendar declared isGroup
        (writes tuple) (tuple_width declared ((complete tuple).mp member))
          (supportedTuple tuple member))
    have noNull : checkNulls frame table.partitionKeys = .ok () :=
      checkNulls_ok declared (fun row isRow isNull => supported row isRow _ isNull)
    refine ⟨outputs, tuples, ?_, fun typed _ => ?_⟩
    · rw [producePartitions_keyed unkeyed, noNull, parted]
      exact areOutputs
    · have texts := texts_injective calendar typed supported complete
      exact ⟨distinct, complete,
        keys_nodup distinct texts (parts.imp (fun _ _ both => both.1)), parts, texts⟩

/-- A frame with a key cell that is not supported is not split. -/
theorem producePartitions_error (declared : ∀ key ∈ table.partitionKeys, key ∈ frame.names)
    (unsupported : ¬ AllSupported engine frame table.partitionKeys) :
    ∃ error, producePartitions engine frame mapping table = .error error := by
  simp only [AllSupported, not_forall] at unsupported
  obtain ⟨row, isRow, cell, member, unsupported⟩ := unsupported
  have keyed : table.partitionKeys ≠ [] := by
    intro unkeyed
    rw [unkeyed] at member
    exact absurd member List.not_mem_nil
  rw [producePartitions_keyed keyed]
  cases checked : checkNulls frame table.partitionKeys with
  | error error => exact ⟨error, rfl⟩
  | ok _ =>
    obtain ⟨groups, tuples, parted, -, complete, areGroups⟩ := partitionByStable_tuples declared
    have isTuple := (complete (tupleOf frame.names table.partitionKeys row)).mpr ⟨row, isRow, rfl⟩
    obtain ⟨group, isIn, isGroup⟩ := Results.forall₂_exists areGroups isTuple
    obtain ⟨error, fails⟩ :=
      groupOutput_error declared isGroup (tuple_width declared ⟨row, isRow, rfl⟩)
      member unsupported
    obtain ⟨error, failed⟩ := Results.mapM_fails isIn fails
    exact ⟨error, by rw [parted]; exact failed⟩

/-- A frame with a row or with partition keys is split into one output for each tuple of key
cells. The partitioning fails exactly when some key cell is not supported, and the escapes
of a segment lose nothing and separate nothing. -/
theorem producePartitions_splits (calendar : CalendarDates engine)
    (declared : ∀ key ∈ table.partitionKeys, key ∈ frame.names)
    (writes : Writes engine read frame table.partitionKeys) :
    (AllSupported engine frame table.partitionKeys → Typed frame table.partitionKeys →
      table.partitionKeys ≠ [] ∨ frame.rows ≠ [] →
        ∃ outputs tuples, producePartitions engine frame mapping table = .ok outputs ∧
          Splits engine read frame mapping table outputs tuples) ∧
    ((∃ error, producePartitions engine frame mapping table = .error error) ↔
      ∃ row ∈ frame.rows, ∃ cell ∈ tupleOf frame.names table.partitionKeys row,
        ¬ Supported engine cell) ∧
    Function.Injective encodeSegment ∧ ∀ value, '/' ∉ encodeSegment value ∧ '=' ∉ encodeSegment value := by
  refine ⟨fun supported typed shown => ?_, ?_, encodeSegment_injective, fun value =>
    ⟨not_mem_encodeSegment (Or.inl rfl) value, not_mem_encodeSegment (Or.inr rfl) value⟩⟩
  · obtain ⟨outputs, tuples, produces, splits⟩ :=
      producePartitions_ok mapping calendar declared writes supported
    exact ⟨outputs, tuples, produces, splits typed shown⟩
  · have notAll : (∃ row ∈ frame.rows, ∃ cell ∈ tupleOf frame.names table.partitionKeys row,
        ¬ Supported engine cell) ↔ ¬ AllSupported engine frame table.partitionKeys := by
      simp only [AllSupported, not_forall, exists_prop]
    rw [notAll]
    constructor
    · rintro ⟨error, fails⟩ supported
      obtain ⟨outputs, tuples, produces, -⟩ :=
        producePartitions_ok mapping calendar declared writes supported
      rw [produces] at fails
      cases fails
    · exact producePartitions_error declared

end Outputs

/-! ## Two frames -/

section Frames

/-- The byte of a row of one small integer. -/
def rowByte : List Cell → UInt8
  | [.int value] => UInt8.ofNat value.toNat
  | _ => 0

/-- A row of one byte. -/
def byteRow (byte : UInt8) : List Cell := [.int byte.toNat]

/-- A data frame library at frames of one column of small integers, and on one day. -/
def byteEngine : Engine where
  evaluate _ _ := .error []
  mask _ _ := .error []
  writeParquet frame := .ok (frame.rows.map rowByte)
  isoDate days := if days = 0 then some "1970-01-01".toList else none

/-- A file of bytes, read as a column of small integers. -/
def readBytes (bytes : List UInt8) : Option DataFrame :=
  some ⟨["v".toList], bytes.map byteRow, List.nodup_singleton _, by simp [byteRow]⟩

/-- Its dates are those of the calendar. -/
theorem byteEngine_calendar : CalendarDates byteEngine := by
  refine ⟨fun days => if days = 0 then some ⟨1970, 1, 1, by decide, by decide⟩ else none, ?_, ?_⟩
  · intro days days' date isDate isDate'
    simp only [Option.ite_none_right_eq_some] at isDate isDate'
    rw [isDate.1, isDate'.1]
  · intro days
    simp only [byteEngine]
    split
    · exact congrArg some (by decide +kernel)
    · rfl

/-- Three rows in two partitions. -/
def letterFrame : DataFrame where
  names := ["a".toList, "v".toList]
  rows := [[.string "x/y".toList, .int 1], [.string "z".toList, .int 2], [.string "x/y".toList, .int 3]]
  distinct := by decide +kernel
  even := by decide +kernel

/-- Frames whose other column is one of small integers are written and read back. -/
theorem byteEngine_writes {frame : DataFrame} {keys : List Text}
    (names : (frame.dropMany keys).names = ["v".toList])
    (rows : ∀ row ∈ frame.rows, byteRow (rowByte (keptCells frame.names keys row)) =
      keptCells frame.names keys row) : Writes byteEngine readBytes frame keys := by
  intro tuple
  refine ⟨_, rfl, congrArg some (frame_ext names.symm ?_)⟩
  simp only [Frame.part, Frame.dropMany, Frame.withRows, List.map_map]
  exact List.map_congr_left (fun row member => rows row (List.mem_of_mem_filter member))

/-- The letters are written without their key and read back. -/
theorem letterFrame_writes : Writes byteEngine readBytes letterFrame ["a".toList] :=
  byteEngine_writes (by decide +kernel) (by decide +kernel)

/-- The rows of `x/y` and of `z` are told apart, in spite of the slash. -/
theorem producePartitions_splits_letters : ∃ outputs tuples,
    producePartitions byteEngine letterFrame (plainMapping "t".toList) (partitionedTable "t".toList) =
        .ok outputs ∧
      Splits byteEngine readBytes letterFrame (plainMapping "t".toList) (partitionedTable "t".toList)
        outputs tuples := by
  have strings : ∀ row ∈ letterFrame.rows, ∃ text,
      tupleOf letterFrame.names ["a".toList] row = [.string text] :=
    List.forall_mem_cons.mpr ⟨⟨"x/y".toList, by decide +kernel⟩,
      List.forall_mem_cons.mpr ⟨⟨"z".toList, by decide +kernel⟩,
        List.forall_mem_cons.mpr ⟨⟨"x/y".toList, by decide +kernel⟩, List.forall_mem_nil _⟩⟩⟩
  have supported : AllSupported byteEngine letterFrame ["a".toList] := by
    intro row isRow cell member
    obtain ⟨text, tuple⟩ := strings row isRow
    rw [tuple, List.mem_singleton] at member
    rw [member]
    trivial
  have typed : Typed letterFrame ["a".toList] := by
    intro row isRow row' isRow'
    obtain ⟨text, tuple⟩ := strings row isRow
    obtain ⟨text', tuple'⟩ := strings row' isRow'
    rw [tuple, tuple']
    exact List.Forall₂.cons trivial List.Forall₂.nil
  exact (producePartitions_splits byteEngine_calendar (by decide +kernel) letterFrame_writes).1
    supported typed (Or.inl (by decide +kernel))

/-- A frame without rows. -/
def bareFrame : DataFrame := ⟨["v".toList], [], List.nodup_singleton _, by simp⟩

/-- Without keys and without rows there is an output, though there is no tuple. -/
theorem keyless_output : ¬ ∀ engine read frame mapping table, CalendarDates engine →
    (∀ key ∈ table.partitionKeys, key ∈ frame.names) → Writes engine read frame table.partitionKeys →
    AllSupported engine frame table.partitionKeys → Typed frame table.partitionKeys →
      ∃ outputs tuples, producePartitions engine frame mapping table = .ok outputs ∧
        Splits engine read frame mapping table outputs tuples := by
  intro claim
  have writes : Writes byteEngine readBytes bareFrame [] :=
    byteEngine_writes (by decide +kernel) (by decide +kernel)
  obtain ⟨outputs, tuples, produces, splits⟩ := claim byteEngine readBytes bareFrame
    (plainMapping "t".toList) (plainTable "t".toList) byteEngine_calendar
    (fun _ impossible => nomatch impossible) writes (fun _ impossible => nomatch impossible)
    (fun _ impossible => nomatch impossible)
  have single : producePartitions byteEngine bareFrame (plainMapping "t".toList)
    (plainTable "t".toList) =
      .ok [⟨partitionKey "t".toList [] "m".toList, []⟩] := producePartitions_unkeyed rfl rfl
  rw [single] at produces
  obtain rfl := Except.ok.inj produces
  cases splits.parts with
  | cons _ _ => 
    obtain ⟨row, isRow, -⟩ := (splits.complete _).mp List.mem_cons_self
    exact absurd isRow List.not_mem_nil

end Frames

end KaretWorker
