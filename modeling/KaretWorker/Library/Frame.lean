import KaretWorker.Library.Text
import Mathlib.Data.List.Forall2
import Mathlib.Data.List.Nodup

/-!
# Data frames

A frame has named columns, no two of one name, and rows with a cell for each of them.
The operations are those of a data frame library: reading a column, selecting computed
columns, keeping the first row of each key tuple, splitting by key tuples in order of
first appearance, and dropping columns.

An operation that is given a name finds it or fails, and a selection fails if two of its
columns have one name. The lemmas below say exactly when.
-/
namespace Frames

open Texts

/-- What an operation on frames fails with. -/
inductive Fault (κ : Type) where
  | columnNotFound (name : κ)
  | duplicate (name : κ)
  | compute (message : Text)
  deriving DecidableEq, Repr

/-- Named columns over rows, each row as long as the names. -/
structure Frame (κ α : Type) where
  names : List κ
  rows : List (List α)
  distinct : names.Nodup
  even : ∀ row ∈ rows, row.length = names.length

variable {κ α ρ τ : Type} [DecidableEq κ] [DecidableEq τ]

/-- Rows as wide as a list of names. -/
abbrev RowsOf (α : Type) (width : Nat) : Type :=
  { rows : List (List α) // ∀ row ∈ rows, row.length = width }

/-- The cells of a row in the columns of given names. -/
def cells (names keys : List κ) (row : List α) : List (Option α) :=
  keys.map (fun key => row[names.idxOf key]?)

/-- The frame with some of its rows. -/
def Frame.withRows (frame : Frame κ α) (rows : List (List α)) (among : rows ⊆ frame.rows) :
    Frame κ α :=
  ⟨frame.names, rows, frame.distinct, fun row member => frame.even row (among member)⟩

/-! ## Reading a column -/

/-- Names that are all there are found. -/
theorem find_absent_none {names keys : List κ} :
    keys.find? (fun key => key ∉ names) = none ↔ ∀ key ∈ keys, key ∈ names := by
  simp only [List.find?_eq_none, decide_not, Bool.not_eq_true', decide_eq_false_iff_not, not_not]

/-- The cells of a column. -/
def Frame.column (frame : Frame κ α) (name : κ) : Except (Fault κ) (List α) :=
  if name ∈ frame.names then .ok (frame.rows.filterMap (fun row => row[frame.names.idxOf name]?))
  else .error (.columnNotFound name)

/-- A column of a name that is there is found. -/
theorem column_ok {frame : Frame κ α} {name : κ} (member : name ∈ frame.names) :
    ∃ column, frame.column name = .ok column := ⟨_, if_pos member⟩

/-- A column of any other name is not. -/
theorem column_missing {frame : Frame κ α} {name : κ} (absent : name ∉ frame.names) :
    frame.column name = .error (.columnNotFound name) := if_neg absent

/-- The first name that occurs again later. -/
def firstRepeated : List κ → Option κ
  | [] => none
  | name :: rest => if name ∈ rest then some name else firstRepeated rest

/-- No name is the first that repeats exactly if none repeats. -/
theorem firstRepeated_none {names : List κ} : firstRepeated names = none ↔ names.Nodup := by
  induction names with
  | nil => exact ⟨fun _ => List.nodup_nil, fun _ => rfl⟩
  | cons name rest inductionHypothesis =>
    rw [firstRepeated, List.nodup_cons]
    by_cases again : name ∈ rest
    · rw [if_pos again]
      exact ⟨fun impossible => (nomatch impossible), fun ⟨once, _⟩ => absurd again once⟩
    · rw [if_neg again, inductionHypothesis, and_iff_right again]

/-- Compute columns from a frame and give them names. Every column that is read must be
there, and the names must be distinct. -/
def Frame.select {ε : Type} (frame : Frame κ α) (reads : ε → List κ)
    (evaluate : (exprs : List ε) → Frame κ α → Except Text (RowsOf α exprs.length))
    (columns : List (κ × ε)) : Except (Fault κ) (Frame κ α) :=
  match (columns.flatMap (fun column => reads column.2)).find? (fun name => name ∉ frame.names) with
  | some name => .error (.columnNotFound name)
  | none =>
    match repeated : firstRepeated (columns.map Prod.fst) with
    | some name => .error (.duplicate name)
    | none =>
      match evaluate (columns.map Prod.snd) frame with
      | .error message => .error (.compute message)
      | .ok rows => .ok ⟨columns.map Prod.fst, rows.1, firstRepeated_none.mp repeated,
          fun row member => by simpa only [List.length_map] using rows.2 row member⟩

section Select

variable {ε : Type} {frame selected : Frame κ α} {reads : ε → List κ}
  {evaluate : (exprs : List ε) → Frame κ α → Except Text (RowsOf α exprs.length)}
  {columns : List (κ × ε)}

/-- A selection has the names it is given. -/
theorem select_names (selects : frame.select reads evaluate columns = .ok selected) :
    selected.names = columns.map Prod.fst := by
  unfold Frame.select at selects
  split at selects
  · exact nomatch selects
  split at selects
  · exact nomatch selects
  split at selects
  · exact nomatch selects
  · rw [← Except.ok.inj selects]

end Select

/-! ## Filtering rows -/

/-- Keep the rows for which a computed mask is true. -/
def Frame.filter (frame : Frame κ α) (reads : List κ) (mask : Frame κ α → Except Text (List Bool)) :
    Except (Fault κ) (Frame κ α) :=
  match reads.find? (fun name => name ∉ frame.names) with
  | some name => .error (.columnNotFound name)
  | none =>
    match mask frame with
    | .error message => .error (.compute message)
    | .ok flags => .ok (frame.withRows (((frame.rows.zip flags).filter Prod.snd).map Prod.fst) (by
        intro row member
        obtain ⟨flagged, isFlagged, rfl⟩ := List.mem_map.mp member
        exact (List.of_mem_zip (List.mem_of_mem_filter isFlagged)).1))

/-- A filter keeps the columns. -/
theorem filter_names {frame kept : Frame κ α} {reads : List κ}
    {mask : Frame κ α → Except Text (List Bool)} (keeps : frame.filter reads mask = .ok kept) :
    kept.names = frame.names := by
  unfold Frame.filter at keeps
  split at keeps
  · exact nomatch keeps
  split at keeps
  · exact nomatch keeps
  · rw [← Except.ok.inj keeps]
    rfl

/-! ## Keeping the first row of each key -/

/-- The first of the rows of each key, in order; keys in `seen` are taken. -/
def keepFirst (key : ρ → τ) : List τ → List ρ → List ρ
  | _, [] => []
  | seen, row :: rest =>
    if key row ∈ seen then keepFirst key seen rest else row :: keepFirst key (key row :: seen) rest

/-- Keeping the first of each key keeps rows in their order. -/
theorem keepFirst_sublist (key : ρ → τ) (seen : List τ) (rows : List ρ) :
    (keepFirst key seen rows).Sublist rows := by
  induction rows generalizing seen with
  | nil => exact List.Sublist.refl _
  | cons row rest inductionHypothesis =>
    rw [keepFirst]
    split
    · exact (inductionHypothesis _).cons row
    · exact (inductionHypothesis _).cons_cons row

/-- The rows that are kept have different keys, none of them taken. -/
theorem keepFirst_distinct (key : ρ → τ) (seen : List τ) (rows : List ρ) :
    ((keepFirst key seen rows).map key).Nodup ∧ ∀ row ∈ keepFirst key seen rows,
      key row ∉ seen := by
  induction rows generalizing seen with
  | nil => exact ⟨List.nodup_nil, fun _ impossible => nomatch impossible⟩
  | cons row rest inductionHypothesis =>
    rw [keepFirst]
    split
    · exact inductionHypothesis seen
    · next fresh =>
      obtain ⟨distinct, untaken⟩ := inductionHypothesis (key row :: seen)
      refine ⟨?_, List.forall_mem_cons.mpr ⟨fresh, fun other member taken =>
        untaken other member (List.mem_cons_of_mem _ taken)⟩⟩
      rw [List.map_cons, List.nodup_cons]
      refine ⟨fun again => ?_, distinct⟩
      obtain ⟨other, member, same⟩ := List.mem_map.mp again
      exact untaken other member (same ▸ List.mem_cons_self)

/-- Rows of different keys are all kept. -/
theorem keepFirst_self {key : ρ → τ} {seen : List τ} {rows : List ρ}
    (distinct : (rows.map key).Nodup)
    (untaken : ∀ row ∈ rows, key row ∉ seen) : keepFirst key seen rows = rows := by
  induction rows generalizing seen with
  | nil => rfl
  | cons row rest inductionHypothesis =>
    rw [List.map_cons, List.nodup_cons] at distinct
    rw [List.forall_mem_cons] at untaken
    rw [keepFirst, if_neg untaken.1, inductionHypothesis distinct.2 (fun other member taken => ?_)]
    rcases List.mem_cons.mp taken with same | before
    · exact distinct.1 (same ▸ List.mem_map_of_mem member)
    · exact untaken.2 other member before

/-- Every key is taken or kept. -/
theorem keepFirst_covers (key : ρ → τ) (seen : List τ) {rows : List ρ} {row : ρ}
    (member : row ∈ rows) :
    key row ∈ seen ∨ key row ∈ (keepFirst key seen rows).map key := by
  induction rows generalizing seen with
  | nil => exact absurd member List.not_mem_nil
  | cons first rest inductionHypothesis =>
    rw [keepFirst]
    rcases List.mem_cons.mp member with rfl | later
    · split
      · next taken => exact Or.inl taken
      · exact Or.inr List.mem_cons_self
    · split
      · exact inductionHypothesis seen later
      · rcases inductionHypothesis (key first :: seen) later with taken | kept
        · rcases List.mem_cons.mp taken with same | before
          · rw [List.map_cons, same]
            exact Or.inr List.mem_cons_self
          · exact Or.inl before
        · exact Or.inr (List.mem_cons_of_mem _ kept)

variable [DecidableEq α]

/-- Keep the first row of each tuple of the key columns. -/
def Frame.uniqueStable (frame : Frame κ α) (keys : List κ) : Except (Fault κ) (Frame κ α) :=
  match keys.find? (fun key => key ∉ frame.names) with
  | some key => .error (.columnNotFound key)
  | none => .ok (frame.withRows (keepFirst (cells frame.names keys) [] frame.rows)
      (keepFirst_sublist _ _ _).subset)

/-! ## Splitting by keys -/

/-- The rows of each key tuple, in order, one group after another by first appearance. -/
def Frame.partitionByStable (frame : Frame κ α) (keys : List κ) :
    Except (Fault κ) (List (Frame κ α)) :=
  match keys.find? (fun key => key ∉ frame.names) with
  | some key => .error (.columnNotFound key)
  | none => .ok ((keepFirst (cells frame.names keys) [] frame.rows).map (fun leader =>
      frame.withRows (frame.rows.filter (fun row =>
        cells frame.names keys row = cells frame.names keys leader)) (List.filter_subset_self _)))

/-- Rows that are kept differ in the key columns, and these exist. -/
theorem uniqueStable_distinct {frame kept : Frame κ α} {keys : List κ}
    (keeps : frame.uniqueStable keys = .ok kept) :
    (∀ key ∈ keys, key ∈ kept.names) ∧ (kept.rows.map (cells kept.names keys)).Nodup := by
  rw [Frame.uniqueStable] at keeps
  split at keeps
  · exact nomatch keeps
  · next found =>
    obtain rfl := Except.ok.inj keeps
    exact ⟨find_absent_none.mp found, (keepFirst_distinct _ _ _).1⟩

/-- A frame whose rows differ in the key columns is kept whole. -/
theorem uniqueStable_self {frame : Frame κ α} {keys : List κ}
    (found : ∀ key ∈ keys, key ∈ frame.names)
    (distinct : (frame.rows.map (cells frame.names keys)).Nodup) :
    frame.uniqueStable keys = .ok frame := by
  rw [Frame.uniqueStable, find_absent_none.mpr found]
  have whole := keepFirst_self distinct (fun _ _ => List.not_mem_nil)
  simp only [whole, Frame.withRows]

/-- The cells of a row outside the dropped columns. -/
def keptCells (names keys : List κ) (row : List α) : List α :=
  ((names.zip row).filter (fun cell => cell.1 ∉ keys)).map Prod.snd

/-- The frame without some columns. -/
def Frame.dropMany (frame : Frame κ α) (keys : List κ) : Frame κ α where
  names := frame.names.filter (fun name => name ∉ keys)
  rows := frame.rows.map (keptCells frame.names keys)
  distinct := frame.distinct.filter _
  even := by
    intro row member
    obtain ⟨whole, isRow, rfl⟩ := List.mem_map.mp member
    have firsts : (frame.names.zip whole).map Prod.fst = frame.names :=
      List.map_fst_zip (le_of_eq (frame.even whole isRow).symm)
    rw [keptCells, List.length_map]
    conv_rhs => rw [← firsts, List.filter_map, List.length_map]
    rfl

/-! ## Key tuples -/

omit [DecidableEq κ] [DecidableEq τ] [DecidableEq α] in
/-- Frames with the same columns and rows are equal. -/
theorem frame_ext {frame other : Frame κ α} (names : frame.names = other.names)
    (rows : frame.rows = other.rows) : frame = other := by
  cases frame
  cases other
  simp_all

/-- The cells of a row in key columns. -/
def tupleOf (names keys : List κ) (row : List α) : List α :=
  keys.filterMap (fun key => row[names.idxOf key]?)

section Tuples

variable {names keys : List κ} {row : List α}

omit [DecidableEq τ] [DecidableEq α]

/-- A row has a cell under every name. -/
theorem cell_of_declared {key : κ} (declared : key ∈ names) (even : row.length = names.length) :
    ∃ cell, row[names.idxOf key]? = some cell :=
  ⟨_, List.getElem?_eq_getElem (by rw [even]; exact List.idxOf_lt_length_of_mem declared)⟩

/-- A row has a cell in every key column. -/
theorem cells_eq_tuple (declared : ∀ key ∈ keys, key ∈ names) (even : row.length = names.length) :
    cells names keys row = (tupleOf names keys row).map some := by
  induction keys with
  | nil => rfl
  | cons key rest inductionHypothesis =>
    rw [List.forall_mem_cons] at declared
    obtain ⟨cell, isCell⟩ := cell_of_declared declared.1 even
    have others := inductionHypothesis declared.2
    rw [cells] at others ⊢
    have split : tupleOf names (key :: rest) row = cell :: tupleOf names rest row :=
      List.filterMap_cons_some isCell
    rw [List.map_cons, others, split, isCell, List.map_cons]

/-- A row's key has one cell for each key column. -/
theorem tupleOf_length (declared : ∀ key ∈ keys, key ∈ names) (even : row.length = names.length) :
    (tupleOf names keys row).length = keys.length := by
  have lengths := congrArg List.length (cells_eq_tuple declared even)
  rw [cells, List.length_map, List.length_map] at lengths
  exact lengths.symm

/-- Rows agree in their key cells exactly when their tuples are equal. -/
theorem cells_eq_iff {row' : List α} (declared : ∀ key ∈ keys, key ∈ names)
    (even : row.length = names.length) (even' : row'.length = names.length) :
    cells names keys row = cells names keys row' ↔
    tupleOf names keys row = tupleOf names keys row' := by
  rw [cells_eq_tuple declared even, cells_eq_tuple declared even']
  exact (List.map_injective_iff.mpr (fun _ _ => Option.some.inj)).eq_iff

/-- A tuple has the cells of the row in its key columns. -/
theorem mem_tupleOf {cell : α} :
    cell ∈ tupleOf names keys row ↔ ∃ key ∈ keys, tupleOf names [key] row = [cell] := by
  simp only [tupleOf, List.mem_filterMap]
  refine exists_congr (fun key => and_congr_right (fun _ => ?_))
  cases isCell : row[names.idxOf key]? with
  | none => simp [isCell]
  | some own => simp [isCell]

/-- A column has the cells of the rows under its name. -/
theorem mem_column {frame : Frame κ α} {name : κ} (declared : name ∈ frame.names) :
    ∃ column, frame.column name = .ok column ∧ ∀ cell, cell ∈ column ↔
      ∃ row ∈ frame.rows, tupleOf frame.names [name] row = [cell] := by
  refine ⟨_, if_pos declared, fun cell => ?_⟩
  rw [List.mem_filterMap]
  refine exists_congr (fun row => and_congr_right (fun _ => ?_))
  cases isCell : row[frame.names.idxOf name]? with
  | none => simp [tupleOf, isCell]
  | some own => simp [tupleOf, isCell]

/-- A column begins with the cell of the first row. -/
theorem column_first {frame : Frame κ α} {name : κ} {first : List α} {others : List (List α)}
    (rows : frame.rows = first :: others) (declared : name ∈ frame.names) :
    ∃ cell column, frame.column name = .ok (cell :: column) ∧
      ∀ keys, tupleOf frame.names (name :: keys) first = cell ::
        tupleOf frame.names keys first := by
  obtain ⟨cell, isCell⟩ := cell_of_declared declared (frame.even first (rows ▸ List.mem_cons_self))
  have isColumn : frame.column name = .ok (cell :: others.filterMap (fun row =>
      row[frame.names.idxOf name]?)) := by
    rw [Frame.column, if_pos declared, rows, List.filterMap_cons]
    simp only [isCell]
  exact ⟨cell, _, isColumn, fun keys => List.filterMap_cons_some isCell⟩

end Tuples

/-- The rows of a key tuple, without the key columns. -/
def Frame.part (frame : Frame κ α) (keys : List κ) (tuple : List α) : Frame κ α :=
  (frame.withRows (frame.rows.filter (fun row => tupleOf frame.names keys row = tuple))
    (List.filter_subset_self _)).dropMany keys

omit [DecidableEq τ] [DecidableEq α] in
/-- Without keys every cell is kept. -/
theorem keptCells_nil {frame : Frame κ α} {row : List α} (isRow : row ∈ frame.rows) :
    keptCells frame.names [] row = row := by
  rw [keptCells, List.filter_eq_self.mpr (by simp)]
  exact List.map_snd_zip (le_of_eq (frame.even row isRow))

/-- Without keys the part of the empty tuple is the whole frame. -/
theorem part_nil (frame : Frame κ α) : frame.part [] [] = frame := by
  have kept : ∀ row ∈ frame.rows, keptCells frame.names [] row = row := fun _ => keptCells_nil
  refine frame_ext ?_ ?_
  · exact List.filter_eq_self.mpr (by simp)
  · have whole : frame.rows.filter (fun row => tupleOf frame.names ([] : List κ) row = []) =
      frame.rows :=
      List.filter_eq_self.mpr (by simp [tupleOf])
    simp only [Frame.part, Frame.dropMany, Frame.withRows, whole]
    exact (List.map_congr_left kept).trans (List.map_id' _)

/-- A group of a tuple: it has a row, and its rows are those of the tuple. -/
structure IsGroup (frame : Frame κ α) (keys : List κ) (tuple : List α) (group : Frame κ α) : Prop where
  names : group.names = frame.names
  part : group.dropMany keys = frame.part keys tuple
  first : ∃ first others, group.rows = first :: others ∧ tupleOf frame.names keys first = tuple

/-- Splitting gives one group for each tuple of key cells. -/
theorem partitionByStable_tuples {frame : Frame κ α} {keys : List κ}
    (declared : ∀ key ∈ keys, key ∈ frame.names) :
    ∃ groups tuples, frame.partitionByStable keys = .ok groups ∧ tuples.Nodup ∧
      (∀ tuple, tuple ∈ tuples ↔ ∃ row ∈ frame.rows, tupleOf frame.names keys row = tuple) ∧
      List.Forall₂ (IsGroup frame keys) tuples groups := by
  obtain ⟨distinct, -⟩ := keepFirst_distinct (cells frame.names keys) [] frame.rows
  have leaderRow : ∀ leader ∈ keepFirst (cells frame.names keys) [] frame.rows,
    leader ∈ frame.rows :=
    (keepFirst_sublist _ _ _).subset
  refine ⟨_, (keepFirst (cells frame.names keys) [] frame.rows).map (tupleOf frame.names keys),
    by rw [Frame.partitionByStable, find_absent_none.mpr declared], ?_, ?_, ?_⟩
  · have sameCells : (keepFirst (cells frame.names keys) [] frame.rows).map
      (cells frame.names keys) =
        ((keepFirst (cells frame.names keys) [] frame.rows).map (tupleOf frame.names keys)).map
          (List.map some) := by
      rw [List.map_map]
      exact List.map_congr_left (fun leader isLeader =>
        cells_eq_tuple declared (frame.even leader (leaderRow leader isLeader)))
    rw [sameCells] at distinct
    exact distinct.of_map _
  · intro tuple
    rw [List.mem_map]
    constructor
    · rintro ⟨leader, isLeader, rfl⟩
      exact ⟨leader, leaderRow leader isLeader, rfl⟩
    · rintro ⟨row, isRow, rfl⟩
      have kept :=
        (keepFirst_covers (cells frame.names keys) [] isRow).resolve_left List.not_mem_nil
      obtain ⟨leader, isLeader, same⟩ := List.mem_map.mp kept
      exact ⟨leader, isLeader,
        (cells_eq_iff declared (frame.even leader (leaderRow leader isLeader))
        (frame.even row isRow)).mp same⟩
  · rw [List.forall₂_map_left_iff, List.forall₂_map_right_iff, List.forall₂_same]
    intro leader isLeader
    have isRow := leaderRow leader isLeader
    have sameRows : frame.rows.filter (fun row =>
          cells frame.names keys row = cells frame.names keys leader) =
        frame.rows.filter
          (fun row => tupleOf frame.names keys row = tupleOf frame.names keys leader) :=
      List.filter_congr (fun row member => decide_eq_decide.mpr
        (cells_eq_iff declared (frame.even row member) (frame.even leader isRow)))
    refine ⟨rfl, frame_ext rfl ?_, ?_⟩
    · simp only [Frame.part, Frame.dropMany, Frame.withRows, sameRows]
    · have member : leader ∈ frame.rows.filter (fun row =>
          cells frame.names keys row = cells frame.names keys leader) :=
        List.mem_filter.mpr ⟨isRow, decide_eq_true rfl⟩
      obtain ⟨first, others, isFirst⟩ := List.exists_cons_of_ne_nil (List.ne_nil_of_mem member)
      refine ⟨first, others, isFirst, ?_⟩
      have inGroup : first ∈ frame.rows.filter (fun row =>
          cells frame.names keys row = cells frame.names keys leader) :=
        isFirst ▸ List.mem_cons_self
      obtain ⟨firstRow, same⟩ := List.mem_filter.mp inGroup
      exact (cells_eq_iff declared (frame.even first firstRow) (frame.even leader isRow)).mp
        (of_decide_eq_true same)

/-! ## Putting key columns back -/

/-- A row of a part with its key columns put back in front, each cell as it is shown there. -/
def restored (shown : α → α) (names keys : List κ) (row : List α) : List α :=
  (tupleOf names keys row).map shown ++ keptCells names keys row

section Restored

variable {shown : α → α} {names keys : List κ} {row row' : List α}

omit [DecidableEq τ] [DecidableEq α]

/-- A tuple has the cell of each of its keys in that key's place. -/
theorem tupleOf_idxOf (declared : ∀ key ∈ keys, key ∈ names) (even : row.length = names.length)
    {key : κ} (isKey : key ∈ keys) :
    (tupleOf names keys row)[keys.idxOf key]? = row[names.idxOf key]? := by
  obtain ⟨cell, isCell⟩ := cell_of_declared (declared key isKey) even
  have place : keys[keys.idxOf key]? = some key := by
    rw [List.getElem?_eq_getElem (List.idxOf_lt_length_of_mem isKey), List.getElem_idxOf]
  have whole := congrArg (fun list => list[keys.idxOf key]?) (cells_eq_tuple declared even)
  simp only [cells, List.getElem?_map, place, Option.map_some, isCell] at whole
  obtain ⟨own, isOwn, same⟩ := Option.map_eq_some_iff.mp whole.symm
  rw [isOwn, isCell, same]

/-- A kept cell is under its name among the kept names. -/
theorem keptCells_idxOf (even : row.length = names.length) {key : κ} (isName : key ∈ names)
    (isKept : key ∉ keys) :
    (keptCells names keys row)[(names.filter (· ∉ keys)).idxOf key]? = row[names.idxOf key]? := by
  induction names generalizing row with
  | nil => exact absurd isName List.not_mem_nil
  | cons name rest inductionHypothesis =>
    cases row with
    | nil => exact nomatch even
    | cons cell others =>
      by_cases same : name = key
      · subst same
        simp [keptCells, isKept]
      · have later := inductionHypothesis (Nat.succ.inj even)
          ((List.mem_cons.mp isName).resolve_left (Ne.symm same))
        by_cases dropped : name ∈ keys
        · simpa [keptCells, dropped, same] using later
        · simpa [keptCells, dropped, same] using later

/-- With the key columns put back, each column shows the cell of the row. -/
theorem restored_idxOf (declared : ∀ key ∈ keys, key ∈ names) (even : row.length = names.length)
    {name : κ} (isName : name ∈ names) :
    (restored shown names keys row)[(keys ++ names.filter (· ∉ keys)).idxOf name]? =
      row[names.idxOf name]?.map (if name ∈ keys then shown else id) := by
  have width : ((tupleOf names keys row).map shown).length = keys.length := by
    rw [List.length_map, tupleOf_length declared even]
  by_cases isKey : name ∈ keys
  · rw [List.idxOf_append_of_mem isKey, restored, List.getElem?_append_left
      (by rw [width]; exact List.idxOf_lt_length_of_mem isKey), List.getElem?_map,
      tupleOf_idxOf declared even isKey, if_pos isKey]
  · rw [List.idxOf_append_of_notMem isKey, restored, List.getElem?_append_right (by omega), width,
      Nat.add_sub_cancel_left, keptCells_idxOf even isName isKey, if_neg isKey, Option.map_id_apply]

/-- What holds between two tuples of key cells holds between the cells of each key. -/
theorem tupleOf_forall₂ {related : α → α → Prop} {names keys : List κ} {row row' : List α}
    (declared : ∀ key ∈ keys, key ∈ names) (even : row.length = names.length)
    (even' : row'.length = names.length)
    (areRelated : List.Forall₂ related (tupleOf names keys row) (tupleOf names keys row'))
    {key : κ} (isKey : key ∈ keys) {cell cell' : α} (isCell : tupleOf names [key] row = [cell])
    (isCell' : tupleOf names [key] row' = [cell']) : related cell cell' := by
  have place : ∀ {row : List α} {cell : α}, row.length = names.length →
      tupleOf names [key] row = [cell] → (tupleOf names keys row)[keys.idxOf key]? = some cell := by
    intro row cell even isCell
    obtain ⟨own, isOwn⟩ := cell_of_declared (declared key isKey) even
    have single : tupleOf names [key] row = [own] := List.filterMap_cons_some isOwn
    rw [tupleOf_idxOf declared even isKey, isOwn,
      List.head_eq_of_cons_eq (single.symm.trans isCell)]
  obtain ⟨inside, isFirst⟩ := List.getElem?_eq_some_iff.mp (place even isCell)
  obtain ⟨inside', isSecond⟩ := List.getElem?_eq_some_iff.mp (place even' isCell')
  rw [← isFirst, ← isSecond]
  exact areRelated.get inside inside'

/-- Rows that show the same cells agree, if their key cells are told apart as shown. -/
theorem cells_of_restored {dedup : List κ} (declared : ∀ key ∈ keys, key ∈ names)
    (named : ∀ name ∈ dedup, name ∈ names)
    (even : row.length = names.length) (even' : row'.length = names.length)
    (told : ∀ key ∈ keys, ∀ cell cell', tupleOf names [key] row = [cell] →
      tupleOf names [key] row' = [cell'] → shown cell = shown cell' → cell = cell')
    (same : cells (keys ++ names.filter (· ∉ keys)) dedup (restored shown names keys row) =
      cells (keys ++ names.filter (· ∉ keys)) dedup (restored shown names keys row')) :
    cells names dedup row = cells names dedup row' := by
  refine List.map_congr_left (fun name isDedup => ?_)
  have isName := named name isDedup
  have sameShown := List.map_inj_left.mp same name isDedup
  rw [restored_idxOf declared even isName, restored_idxOf declared even' isName] at sameShown
  by_cases isKey : name ∈ keys
  · obtain ⟨cell, isCell⟩ := cell_of_declared isName even
    obtain ⟨cell', isCell'⟩ := cell_of_declared isName even'
    rw [if_pos isKey, isCell, isCell', Option.map_some, Option.map_some,
      Option.some.injEq] at sameShown
    rw [isCell, isCell', told name isKey cell cell' (List.filterMap_cons_some isCell)
      (List.filterMap_cons_some isCell') sameShown]
  · rwa [if_neg isKey, Option.map_id_apply, Option.map_id_apply] at sameShown

end Restored

/-- In parts of a frame whose rows differ in some columns, the rows as shown with their key
columns put back differ in them too. -/
theorem parts_distinct {frame : Frame κ α} {keys dedup : List κ} {shown : α → α}
    {tuples : List (List α)} (declared : ∀ key ∈ keys, key ∈ frame.names)
    (named : ∀ name ∈ dedup, name ∈ frame.names)
    (told : ∀ row ∈ frame.rows, ∀ row' ∈ frame.rows, ∀ key ∈ keys, ∀ cell cell',
      tupleOf frame.names [key] row = [cell] → tupleOf frame.names [key] row' = [cell'] →
        shown cell = shown cell' → cell = cell')
    (unique : (frame.rows.map (cells frame.names dedup)).Nodup) (distinct : tuples.Nodup) :
    (tuples.flatMap (fun tuple => (frame.part keys tuple).rows.map (fun kept =>
      cells (keys ++ (frame.part keys tuple).names) dedup (tuple.map shown ++ kept)))).Nodup := by
  have shownRows : ∀ tuple, (frame.part keys tuple).rows.map (fun kept =>
      cells (keys ++ (frame.part keys tuple).names) dedup (tuple.map shown ++ kept)) =
      (frame.rows.filter (fun row => tupleOf frame.names keys row = tuple)).map (fun row =>
        cells (keys ++ frame.names.filter (· ∉ keys)) dedup
          (restored shown frame.names keys row)) := by
    intro tuple
    simp only [Frame.part, Frame.dropMany, Frame.withRows, List.map_map]
    refine List.map_congr_left (fun row isRow => ?_)
    have isTuple := of_decide_eq_true (List.mem_filter.mp isRow).2
    rw [Function.comp_apply, restored, isTuple]
  have whole : (tuples.flatMap (fun tuple =>
      frame.rows.filter (fun row => tupleOf frame.names keys row = tuple))).Nodup := by
    refine List.nodup_flatMap.mpr ⟨fun tuple _ => (unique.of_map _).filter _, ?_⟩
    refine distinct.imp (fun differ row isRow isRow' => differ ?_)
    exact (of_decide_eq_true (List.mem_filter.mp isRow).2).symm.trans
      (of_decide_eq_true (List.mem_filter.mp isRow').2)
  have among : ∀ row ∈ tuples.flatMap (fun tuple =>
      frame.rows.filter (fun row => tupleOf frame.names keys row = tuple)), row ∈ frame.rows := by
    intro row isRow
    obtain ⟨tuple, _, kept⟩ := List.mem_flatMap.mp isRow
    exact List.mem_of_mem_filter kept
  simp only [shownRows, ← List.map_flatMap]
  refine whole.map_on (fun row isRow row' isRow' same => ?_)
  have isRow := among row isRow
  have isRow' := among row' isRow'
  exact List.inj_on_of_nodup_map unique isRow isRow' (cells_of_restored declared named
    (frame.even row isRow) (frame.even row' isRow') (told row isRow row' isRow') same)

omit [DecidableEq τ] [DecidableEq α] in
/-- What holds between the cells of two rows holds between those of two of their tuples. -/
theorem tupleOf_related {related : α → α → Prop} {names keys : List κ} {row row' : List α}
    (areRelated : List.Forall₂ related row row') :
    List.Forall₂ related (tupleOf names keys row) (tupleOf names keys row') := by
  induction keys with
  | nil => exact .nil
  | cons key rest inductionHypothesis =>
    have together : ∀ place : Nat, Option.Rel related row[place]? row'[place]? := by
      intro place
      by_cases inside : place < row.length
      · have inside' : place < row'.length := areRelated.length_eq ▸ inside
        rw [List.getElem?_eq_getElem inside, List.getElem?_eq_getElem inside']
        exact .some (areRelated.get inside inside')
      · rw [List.getElem?_eq_none (not_lt.mp inside),
          List.getElem?_eq_none (areRelated.length_eq ▸ not_lt.mp inside)]
        exact .none
    have first := together (names.idxOf key)
    unfold tupleOf at inductionHypothesis ⊢
    rw [List.filterMap_cons, List.filterMap_cons]
    cases isCell : row[names.idxOf key]? <;> cases isCell' : row'[names.idxOf key]? <;>
      rw [isCell, isCell'] at first
    · exact inductionHypothesis
    · exact nomatch first
    · exact nomatch first
    · cases first with
      | some isRelated => exact .cons isRelated inductionHypothesis

/-- The groups of some keys hold each row once, if every row has one of the keys. -/
theorem groups_perm {key : ρ → τ} {groups : List τ} (distinct : groups.Nodup) {rows : List ρ}
    (complete : ∀ row ∈ rows, key row ∈ groups) :
    (groups.flatMap (fun group => rows.filter (fun row => key row = group))).Perm rows := by
  induction groups generalizing rows with
  | nil =>
    cases rows with
    | nil => exact List.Perm.refl _
    | cons row _ => exact absurd (complete row List.mem_cons_self) List.not_mem_nil
  | cons group rest inductionHypothesis =>
    obtain ⟨fresh, distinct⟩ := List.nodup_cons.mp distinct
    have others : rest.flatMap (fun other => rows.filter (fun row => key row = other)) =
        rest.flatMap (fun other =>
          (rows.filter (fun row => ¬ key row = group)).filter (fun row => key row = other)) := by
      refine List.flatMap_congr (fun other isOther => ?_)
      rw [List.filter_filter]
      refine List.filter_congr (fun row _ => ?_)
      by_cases same : key row = other
      · have different : ¬ key row = group := fun again => fresh (again ▸ same ▸ isOther)
        simp [same, same ▸ different]
      · simp [same]
    have covered : ∀ row ∈ rows.filter (fun row => ¬ key row = group), key row ∈ rest := by
      intro row member
      obtain ⟨isRow, different⟩ := List.mem_filter.mp member
      exact (List.mem_cons.mp (complete row isRow)).resolve_left (of_decide_eq_true different)
    rw [List.flatMap_cons, others]
    refine ((inductionHypothesis distinct covered).append_left _).trans ?_
    simpa only [decide_not] using List.filter_append_perm (fun row => decide (key row = group)) rows

/-- The parts of a frame hold each of its rows once, with the cells of its tuple put back. -/
theorem parts_perm {frame : Frame κ α} {keys : List κ} {tuples : List (List α)}
    (distinct : tuples.Nodup)
    (complete : ∀ row ∈ frame.rows, tupleOf frame.names keys row ∈ tuples) :
    (tuples.flatMap
      (fun tuple => (frame.part keys tuple).rows.map (fun kept => tuple ++ kept))).Perm
      (frame.rows.map (restored id frame.names keys)) := by
  have shown : ∀ tuple, (frame.part keys tuple).rows.map (fun kept => tuple ++ kept) =
      (frame.rows.filter (fun row => tupleOf frame.names keys row = tuple)).map
        (restored id frame.names keys) := by
    intro tuple
    simp only [Frame.part, Frame.dropMany, Frame.withRows, List.map_map]
    refine List.map_congr_left (fun row isRow => ?_)
    have isTuple := of_decide_eq_true (List.mem_filter.mp isRow).2
    rw [Function.comp_apply, restored, isTuple, List.map_id]
  simp only [shown, ← List.map_flatMap]
  exact (groups_perm distinct complete).map _

end Frames
