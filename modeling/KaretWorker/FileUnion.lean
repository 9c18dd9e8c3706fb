import KaretWorker.Ingestion

/-!
# The union of ingested files

A file that cannot be ingested is skipped, and the frames of the others are stacked. The
types of a frame's columns come from its file alone, and stacking wants them equal.

So the collected stack is the union of the files exactly when each expression of the
mapping has one type over all of them (`union_iff`). `mixed_types_abort` has a file of numbers beside a file
of words: each is ingested on its own, and together they yield nothing.
-/
namespace KaretWorker

open Texts Frames

section Union

variable {polars : Polars}
  {readJsonSource : SourceContainer → List UInt8 → Except Text TypedFrame} {registry : Registry}
  {config : PipelineConfig} {mapping : Mapping} {files : List (Text × List UInt8)}

/-- The promise about many files: unless every one fails, the collected frame has the rows
of the single frames in file order, under their columns. -/
def IsUnion (polars : Polars)
    (readJsonSource : SourceContainer → List UInt8 → Except Text TypedFrame) (registry : Registry)
    (config : PipelineConfig) (mapping : Mapping) (files : List (Text × List UInt8)) : Prop :=
  (∀ file ∈ files, ∀ frame,
      ingestFile polars readJsonSource registry config mapping file.1 file.2 ≠ .ok frame) ∨
    ∃ whole, ingestAndCollect polars readJsonSource registry config mapping files = some whole ∧
      Stacks (ingestedFrames polars readJsonSource registry config mapping files) whole

/-- The file is read as a frame of its container's columns. -/
def ProjectsTo (polars : Polars)
    (readJsonSource : SourceContainer → List UInt8 → Except Text TypedFrame) (registry : Registry)
    (config : PipelineConfig) (file : Text × List UInt8) (projected : TypedFrame) : Prop :=
  ∃ container, resolveSourceContainer file.1 config = .ok container ∧
    readProjected polars readJsonSource registry file.1 container file.2 = .ok projected

/-- Over the column types of any two files that can be ingested, each expression of the
mapping has one type. -/
def AgreeOnTypes (polars : Polars)
    (readJsonSource : SourceContainer → List UInt8 → Except Text TypedFrame) (registry : Registry)
    (config : PipelineConfig) (mapping : Mapping) (files : List (Text × List UInt8)) : Prop :=
  ∀ file ∈ files, ∀ other ∈ files,
    (∃ frame, ingestFile polars readJsonSource registry config mapping file.1 file.2 = .ok frame) →
    (∃ frame, ingestFile polars readJsonSource registry config mapping other.1 other.2 = .ok frame) →
    ∀ left right, ProjectsTo polars readJsonSource registry config file left →
      ProjectsTo polars readJsonSource registry config other right →
      ∀ column ∈ mapping.columns, ∀ expr, compile registry column.expr = .ok expr →
        polars.typeOf left.schema expr = polars.typeOf right.schema expr

/-- The frame of a file has the types of the expressions over the file's columns. -/
theorem ingestFile_schema {file : Text × List UInt8} {frame : TypedFrame}
    (ingested : ingestFile polars readJsonSource registry config mapping file.1 file.2 =
      .ok frame) :
    ∃ exprs projected, compileColumns registry mapping.columns = .ok exprs ∧
      ProjectsTo polars readJsonSource registry config file projected ∧
      frame.schema = typedColumns polars projected.schema exprs := by
  unfold ingestFile at ingested
  split at ingested
  · exact nomatch ingested
  next container resolved =>
  unfold ingestFrom at ingested
  split at ingested
  · exact nomatch ingested
  next projected reads =>
  unfold evaluateTyped at ingested
  split at ingested
  · exact nomatch ingested
  next exprs compiled =>
  split at ingested
  · exact nomatch ingested
  · refine ⟨exprs, projected, compiled, ⟨container, resolved, reads⟩, ?_⟩
    rw [← Except.ok.inj ingested]

/-- A file is read in one way. -/
theorem ProjectsTo.unique {file : Text × List UInt8} {left right : TypedFrame}
    (isLeft : ProjectsTo polars readJsonSource registry config file left)
    (isRight : ProjectsTo polars readJsonSource registry config file right) : left = right := by
  obtain ⟨container, resolved, reads⟩ := isLeft
  obtain ⟨other, alsoResolved, alsoReads⟩ := isRight
  obtain rfl := Except.ok.inj (resolved.symm.trans alsoResolved)
  exact Except.ok.inj (reads.symm.trans alsoReads)

/-- Where expressions agree on their types, frames have one schema. -/
theorem schema_eq_of_agree
    (agree : AgreeOnTypes polars readJsonSource registry config mapping files)
    {file other : Text × List UInt8} (isFile : file ∈ files) (isOther : other ∈ files)
    {left right : TypedFrame}
    (ofFile : ingestFile polars readJsonSource registry config mapping file.1 file.2 = .ok left)
    (ofOther : ingestFile polars readJsonSource registry config mapping other.1 other.2 =
      .ok right) :
    left.schema = right.schema := by
  obtain ⟨exprs, projected, compiled, reads, isTyped⟩ := ingestFile_schema ofFile
  obtain ⟨_, otherProjected, alsoCompiled, otherReads, isAlsoTyped⟩ := ingestFile_schema ofOther
  obtain rfl := Except.ok.inj (compiled.symm.trans alsoCompiled)
  rw [isTyped, isAlsoTyped]
  refine List.map_congr_left (fun named member => ?_)
  obtain ⟨column, isColumn, _, compiles⟩ := (mem_compileColumns compiled).mp member
  rw [agree file isFile other isOther ⟨left, ofFile⟩ ⟨right, ofOther⟩ projected otherProjected reads
    otherReads column isColumn named.2 compiles]

/-- The ingested frames are those of the files that succeed. -/
theorem mem_ingestedFrames {frame : TypedFrame} :
    frame ∈ ingestedFrames polars readJsonSource registry config mapping files ↔
      ∃ file ∈ files,
        ingestFile polars readJsonSource registry config mapping file.1 file.2 = .ok frame := by
  simp only [ingestedFrames, List.mem_filterMap]
  refine exists_congr (fun file => and_congr_right (fun _ => ?_))
  cases ingestFile polars readJsonSource registry config mapping file.1 file.2 with
  | error error => simp [Except.toOption]
  | ok found => simp [Except.toOption]

/-- Frames of one schema are collected into their stack. -/
theorem ingestAndCollect_stacks
    (present : ingestedFrames polars readJsonSource registry config mapping files ≠ [])
    (agree : AgreeOnTypes polars readJsonSource registry config mapping files) :
    ∃ whole, ingestAndCollect polars readJsonSource registry config mapping files = some whole ∧
      Stacks (ingestedFrames polars readJsonSource registry config mapping files) whole := by
  have sameSchema : ∀ left ∈ ingestedFrames polars readJsonSource registry config mapping files,
      ∀ right ∈ ingestedFrames polars readJsonSource registry config mapping files,
        left.schema = right.schema := by
    intro left isLeft right isRight
    obtain ⟨file, isFile, ofFile⟩ := mem_ingestedFrames.mp isLeft
    obtain ⟨other, isOther, ofOther⟩ := mem_ingestedFrames.mp isRight
    exact schema_eq_of_agree agree isFile isOther ofFile ofOther
  obtain ⟨union, whole, unites, collects, isStack⟩ := polars.stacked _ present sameSchema
  refine ⟨whole, ?_, isStack⟩
  rw [ingestAndCollect, ingestMany, if_neg (by simpa using present), unites]
  simp only [Except.mapError, collects, Except.toOption]

/-- Frames that clash are not collected. -/
theorem ingestAndCollect_clash
    (clash : ∃ left ∈ ingestedFrames polars readJsonSource registry config mapping files,
      ∃ right ∈ ingestedFrames polars readJsonSource registry config mapping files,
        Clash left right) :
    ingestAndCollect polars readJsonSource registry config mapping files = none := by
  have present : ingestedFrames polars readJsonSource registry config mapping files ≠ [] := by
    obtain ⟨left, member, _⟩ := clash
    exact List.ne_nil_of_mem member
  rw [ingestAndCollect, ingestMany, if_neg (by simpa using present)]
  cases unites : polars.concat
      (ingestedFrames polars readJsonSource registry config mapping files) with
  | error message => rfl
  | ok union =>
    obtain ⟨message, fails⟩ := polars.mismatch _ clash union unites
    simp only [Except.mapError, fails, Except.toOption]

/-- Files whose expressions agree on their types are collected as a union. -/
theorem isUnion_of_agree
    (agree : AgreeOnTypes polars readJsonSource registry config mapping files) :
    IsUnion polars readJsonSource registry config mapping files := by
  by_cases none : ingestedFrames polars readJsonSource registry config mapping files = []
  · refine Or.inl (fun file isFile frame ofFile => ?_)
    have member := mem_ingestedFrames.mpr ⟨file, isFile, ofFile⟩
    rw [none] at member
    exact absurd member List.not_mem_nil
  · exact Or.inr (ingestAndCollect_stacks none agree)

/-- Collected files are the union of the single ones exactly when each expression of the
mapping has one type over all files that can be ingested. -/
theorem union_iff (polars : Polars)
    (readJsonSource : SourceContainer → List UInt8 → Except Text TypedFrame) (registry : Registry)
    (config : PipelineConfig) (mapping : Mapping) (files : List (Text × List UInt8)) :
    IsUnion polars readJsonSource registry config mapping files ↔
      AgreeOnTypes polars readJsonSource registry config mapping files := by
  constructor
  · rintro isUnion file isFile other isOther ⟨left, ofFile⟩
      ⟨right, ofOther⟩ projected otherProjected
      reads otherReads column isColumn expr compiles
    obtain ⟨exprs, _, compiled, alsoReads, isTyped⟩ := ingestFile_schema ofFile
    obtain rfl := reads.unique alsoReads
    obtain ⟨_, _, alsoCompiled, alsoOtherReads, isAlsoTyped⟩ := ingestFile_schema ofOther
    obtain rfl := Except.ok.inj (compiled.symm.trans alsoCompiled)
    obtain rfl := otherReads.unique alsoOtherReads
    have member := (mem_compileColumns compiled).mpr ⟨column, isColumn, rfl, compiles⟩
    by_contra different
    have clash : Clash left right := by
      refine ⟨column.name, _, _, ?_, ?_, different⟩
      · rw [isTyped]
        exact List.mem_map.mpr ⟨_, member, rfl⟩
      · rw [isAlsoTyped]
        exact List.mem_map.mpr ⟨_, member, rfl⟩
    rcases isUnion with none | ⟨whole, collects, _⟩
    · exact none file isFile left ofFile
    · have nothing := ingestAndCollect_clash
        ⟨left, mem_ingestedFrames.mpr ⟨file, isFile, ofFile⟩, right,
          mem_ingestedFrames.mpr ⟨other, isOther, ofOther⟩, clash⟩
      exact nomatch nothing.symm.trans collects
  · exact isUnion_of_agree

end Union

/-! ## Numbers and words -/

/-- Where no name repeats, the type of a name is that of its entry. -/
theorem typeAt_of_mem {schema : Schema} {name : Text} {type : ColumnType}
    (distinct : (schema.map Prod.fst).Nodup) (member : (name, type) ∈ schema) :
    schema.typeAt name = type := by
  have found : schema.find? (fun column => column.1 = name) = some (name, type) := by
    induction schema with
    | nil => exact absurd member List.not_mem_nil
    | cons column rest inductionHypothesis =>
      obtain ⟨fresh, distinct⟩ := List.nodup_cons.mp distinct
      rcases List.mem_cons.mp member with rfl | later
      · simp
      · rw [List.find?_cons_of_neg, inductionHypothesis distinct later]
        rintro same
        exact fresh (List.mem_map.mpr ⟨_, later, (of_decide_eq_true same).symm⟩)
  rw [Schema.typeAt, found]
  rfl

/-- Stack frames under the schema of the first. -/
def stackAll (first : TypedFrame) (frames : List TypedFrame)
    (same : ∀ part ∈ frames, part.schema = first.schema) : TypedFrame where
  frame := ⟨first.frame.names, frames.flatMap (fun part => part.frame.rows), first.frame.distinct, by
    intro row member
    obtain ⟨part, isPart, isRow⟩ := List.mem_flatMap.mp member
    rw [part.frame.even row isRow, ← part.named, same part isPart, first.named]⟩
  schema := first.schema
  named := first.named

/-- An engine that computes columns only. -/
def columnEngine : Engine where
  evaluate exprs frame := .ok ⟨frame.rows.map (fun row => exprs.map (fun expr =>
    match expr with
    | .col name => row[frame.names.idxOf name]?.getD .null
    | _ => .null)), by
      intro row member
      obtain ⟨whole, _, rfl⟩ := List.mem_map.mp member
      exact List.length_map _⟩
  mask _ frame := .ok (frame.rows.map (fun _ => true))
  writeParquet _ := .ok []
  isoDate _ := none

/-- A frame of one column with one cell. -/
def singleCell (cell : Cell) (type : ColumnType) : TypedFrame :=
  ⟨⟨["a".toList], [[cell]], by decide, by simp⟩, [("a".toList, type)], rfl⟩

/-- A file of one number. -/
def numberFile : List UInt8 := [97, 10, 49, 10]

/-- A file of one word. -/
def wordFile : List UInt8 := [97, 10, 120, 10]

/-- A library that reads these two files. -/
def columnPolars : Polars where
  readCsv bytes :=
    if bytes = numberFile then .ok (singleCell (.int 1) .int64)
    else if bytes = wordFile then .ok (singleCell (.string "x".toList) .string)
    else .error "unread".toList
  engine _ := columnEngine
  typeOf schema expr :=
    match expr with
    | .col name => schema.typeAt name
    | _ => .null
  Lazy := List TypedFrame
  concat frames := .ok frames
  collect
    | [] => .error "nothing".toList
    | first :: rest =>
      if same : ∀ part ∈ first :: rest, part.schema = first.schema then
        .ok (stackAll first (first :: rest) same)
      else .error "schema mismatch".toList
  stacked frames present same := by
    cases frames with
    | nil => exact absurd rfl present
    | cons first rest =>
      have equal : ∀ part ∈ first :: rest, part.schema = first.schema := fun part member =>
        same part member first List.mem_cons_self
      exact ⟨_, _, rfl, dif_pos equal, rfl, fun part member => (equal part member).symm⟩
  mismatch frames clash union unites := by
    obtain rfl := Except.ok.inj unites
    obtain ⟨left, isLeft, right, isRight, name, leftType, rightType, inLeft, inRight, different⟩ :=
      clash
    cases frames with
    | nil => exact absurd isLeft List.not_mem_nil
    | cons first rest =>
      refine ⟨_, dif_neg (fun equal => different ?_)⟩
      rw [equal left isLeft, ← equal right isRight] at inLeft
      have distinct : (right.schema.map Prod.fst).Nodup := by
        rw [right.named]
        exact right.frame.distinct
      rw [← typeAt_of_mem distinct inLeft, typeAt_of_mem distinct inRight]

/-- A configuration with one source and one mapping. -/
def plainConfig : PipelineConfig :=
  ⟨[plainSource], [], [plainMapping "t".toList], [plainTable "t".toList]⟩

/-- Each of the two files is ingested on its own. Together they yield nothing. -/
theorem mixed_types_abort :
    (∃ frame, ingestFile columnPolars (fun _ _ => .error []) ∅ plainConfig
      (plainMapping "t".toList) "in/1.csv".toList numberFile = .ok frame) ∧
    (∃ frame, ingestFile columnPolars (fun _ _ => .error []) ∅ plainConfig
      (plainMapping "t".toList) "in/2.csv".toList wordFile = .ok frame) ∧
    ¬ IsUnion columnPolars (fun _ _ => .error []) ∅ plainConfig (plainMapping "t".toList)
      [("in/1.csv".toList, numberFile), ("in/2.csv".toList, wordFile)] := by
  have number : ∃ frame, ingestFile columnPolars (fun _ _ => .error []) ∅ plainConfig
      (plainMapping "t".toList) "in/1.csv".toList numberFile = .ok frame := ⟨_, rfl⟩
  have word : ∃ frame, ingestFile columnPolars (fun _ _ => .error []) ∅ plainConfig
      (plainMapping "t".toList) "in/2.csv".toList wordFile = .ok frame := ⟨_, rfl⟩
  refine ⟨number, word, ?_⟩
  rintro (none | ⟨whole, collects, _⟩)
  · obtain ⟨frame, ofFile⟩ := number
    exact none _ List.mem_cons_self frame ofFile
  · exact nomatch collects

end KaretWorker
