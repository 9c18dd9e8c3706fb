import Mathlib.Logic.Relation

/-!
# Programs as trees of calls

A program either returns a value or issues one call and continues with the
reply. The tree fixes the order of calls and what the code does with every
reply; it says nothing of who answers. A call whose reply type is empty is a
stop: no continuation exists.

Four readings of one tree are used. `Calls` bounds the calls that occur anywhere
in it, and `Returns` the values. `Follows` relates it to an automaton that must allow every call
for every reply. `Completes` is one finished execution against a world, with
the trace of its calls and replies. All of them compose along `bind`, and a finished
execution splits there again, so a loop is treated once, by induction on the list
it walks.
-/
namespace Interaction

variable {Op : Type} {Reply : Op → Type} {α β : Type}

/-- Return a value, or issue a call and continue with its reply. -/
inductive Program (Op : Type) (Reply : Op → Type) (α : Type) : Type where
  | done (value : α)
  | call (op : Op) (next : Reply op → Program Op Reply α)

/-- One call together with the reply it received. -/
abbrev Event (Op : Type) (Reply : Op → Type) : Type := (op : Op) × Reply op

namespace Program

/-- Sequence two programs: the second starts from the first one's value. -/
def bind (program : Program Op Reply α) (next : α → Program Op Reply β) : Program Op Reply β :=
  match program with
  | .done value => next value
  | .call op rest => .call op (fun reply => (rest reply).bind next)

instance : Monad (Program Op Reply) where
  pure := .done
  bind := bind

/-- The program of a single call, whose value is the reply. -/
def perform (op : Op) : Program Op Reply (Reply op) := .call op .done

/-- The program that calls nothing is done. -/
@[simp] theorem pure_def (value : α) :
    (pure value : Program Op Reply α) = .done value := rfl

/-- What is done passes its value on. -/
@[simp] theorem done_bind (value : α) (next : α → Program Op Reply β) :
    (Program.done value >>= next) = next value := rfl

/-- A call comes first in what it is part of. -/
@[simp] theorem call_bind (op : Op) (rest : Reply op → Program Op Reply α)
    (next : α → Program Op Reply β) :
    (Program.call op rest >>= next) = .call op (fun reply => rest reply >>= next) := rfl

/-- A single operation hands its reply on. -/
@[simp] theorem perform_bind (op : Op) (next : Reply op → Program Op Reply β) :
    (perform op >>= next) = .call op next := rfl

/-! ## Calls that occur in a program -/

/-- Every call the program can issue, on any replies, is allowed. -/
def Calls (allowed : Op → Prop) : Program Op Reply α → Prop
  | .done _ => True
  | .call op next => allowed op ∧ ∀ reply, Calls allowed (next reply)

/-- A program allowed by one bound is allowed by a weaker one. -/
theorem calls_mono {allowed weaker : Op → Prop} {program : Program Op Reply α}
    (calls : Calls allowed program) (implies : ∀ op, allowed op → weaker op) :
    Calls weaker program := by
  induction program with
  | done value => trivial
  | call op next inductionHypothesis =>
    exact ⟨implies op calls.1, fun reply => inductionHypothesis reply (calls.2 reply)⟩

/-- Allowed parts make an allowed sequence. -/
theorem calls_bind {allowed : Op → Prop} {program : Program Op Reply α}
    {next : α → Program Op Reply β} (first : Calls allowed program)
    (rest : ∀ value, Calls allowed (next value)) : Calls allowed (program >>= next) := by
  induction program with
  | done value => exact rest value
  | call op continuation inductionHypothesis =>
    exact ⟨first.1, fun reply => inductionHypothesis reply (first.2 reply)⟩

/-- Bounds met one by one are met together. -/
theorem calls_forall {ι : Type} {allowed : ι → Op → Prop} {program : Program Op Reply α}
    (calls : ∀ index, Calls (allowed index) program) :
    Calls (fun op => ∀ index, allowed index op) program := by
  induction program with
  | done value => trivial
  | call op next inductionHypothesis =>
    exact ⟨fun index => (calls index).1,
      fun reply => inductionHypothesis reply (fun index => (calls index).2 reply)⟩

/-! ## Values a program can return -/

/-- Every value the program can return, on any replies, is admitted. -/
def Returns (post : α → Prop) : Program Op Reply α → Prop
  | .done value => post value
  | .call _ next => ∀ reply, Returns post (next reply)

/-- A weaker postcondition is met as well. -/
theorem returns_mono {post weaker : α → Prop} {program : Program Op Reply α}
    (returns : Returns post program) (implies : ∀ value, post value → weaker value) :
    Returns weaker program := by
  induction program with
  | done value => exact implies value returns
  | call op next inductionHypothesis => exact fun reply => inductionHypothesis reply (returns reply)

/-- Postconditions met one by one are met together. -/
theorem returns_forall {ι : Type} {post : ι → α → Prop} {program : Program Op Reply α}
    (returns : ∀ index, Returns (post index) program) :
    Returns (fun value => ∀ index, post index value) program := by
  induction program with
  | done value => exact returns
  | call op next inductionHypothesis =>
    exact fun reply => inductionHypothesis reply (fun index => returns index reply)

/-- A sequence returns what its second part returns. -/
theorem returns_bind {post : β → Prop} {program : Program Op Reply α}
    {next : α → Program Op Reply β}
    (returns : Returns (fun value => Returns post (next value)) program) :
    Returns post (program >>= next) := by
  induction program with
  | done value => exact returns
  | call op rest inductionHypothesis => exact fun reply => inductionHypothesis reply (returns reply)

/-- Allowed parts make an allowed sequence, and the second part may use what the first one
returns. -/
theorem calls_bind_returns {allowed : Op → Prop} {post : α → Prop} {program : Program Op Reply α}
    {next : α → Program Op Reply β} (first : Calls allowed program) (returns : Returns post program)
    (rest : ∀ value, post value → Calls allowed (next value)) :
    Calls allowed (program >>= next) := by
  induction program with
  | done value => exact rest value returns
  | call op continuation inductionHypothesis =>
    exact ⟨first.1, fun reply => inductionHypothesis reply (first.2 reply) (returns reply)⟩

/-- What any program returns meets the trivial postcondition. -/
theorem returns_trivial {post : α → Prop} (program : Program Op Reply α)
    (always : ∀ value, post value) : Returns post program := by
  induction program with
  | done value => exact always value
  | call op next inductionHypothesis => exact inductionHypothesis

/-! ## Following an automaton -/

variable {σ : Type}

/-- The automaton has a move for each call the program issues, whichever genuine
reply arrives, and the program goes on following it from there. A value is
returned only in a state its postcondition admits. -/
def Follows (genuine : (op : Op) → Reply op → Prop) (move : σ → (op : Op) → Reply op → σ → Prop)
    (post : α → σ → Prop) : Program Op Reply α → σ → Prop
  | .done value, state => post value state
  | .call op next, state => ∀ reply, genuine op reply →
      ∃ state', move state op reply state' ∧ Follows genuine move post (next reply) state'

section Follows

variable {genuine : (op : Op) → Reply op → Prop} {move : σ → (op : Op) → Reply op → σ → Prop}

/-- A weaker postcondition is followed as well. -/
theorem follows_mono {post weaker : α → σ → Prop} {program : Program Op Reply α} {state : σ}
    (follows : Follows genuine move post program state)
    (implies : ∀ value state, post value state → weaker value state) :
    Follows genuine move weaker program state := by
  induction program generalizing state with
  | done value => exact implies value state follows
  | call op next inductionHypothesis =>
    intro reply isGenuine
    obtain ⟨state', moved, rest⟩ := follows reply isGenuine
    exact ⟨state', moved, inductionHypothesis reply rest⟩

/-- A sequence follows when its first part ends only where its second part
follows from. -/
theorem follows_bind {post : β → σ → Prop} {program : Program Op Reply α}
    {next : α → Program Op Reply β} {state : σ}
    (follows : Follows genuine move (fun value => Follows genuine move post (next value))
      program state) :
    Follows genuine move post (program >>= next) state := by
  induction program generalizing state with
  | done value => exact follows
  | call op rest inductionHypothesis =>
    intro reply isGenuine
    obtain ⟨state', moved, further⟩ := follows reply isGenuine
    exact ⟨state', moved, inductionHypothesis reply further⟩

/-- What every value of a following program satisfies joins its postcondition. -/
theorem follows_and {post : α → σ → Prop} {always : α → Prop} {program : Program Op Reply α}
    {state : σ}
    (follows : Follows genuine move post program state) (returns : Returns always program) :
    Follows genuine move (fun value state => post value state ∧ always value) program state := by
  induction program generalizing state with
  | done value => exact ⟨follows, returns⟩
  | call op next inductionHypothesis =>
    intro reply isGenuine
    obtain ⟨state', moved, rest⟩ := follows reply isGenuine
    exact ⟨state', moved, inductionHypothesis reply rest (returns reply)⟩

/-- A program whose calls all leave the automaton where it is follows it from
any state and ends in that same state. -/
theorem follows_of_calls {allowed : Op → Prop} {program : Program Op Reply α}
    (calls : Calls allowed program) (state : σ)
    (still : ∀ op reply, allowed op → move state op reply state) :
    Follows genuine move (fun _ final => final = state) program state := by
  induction program with
  | done value => rfl
  | call op next inductionHypothesis =>
    intro reply _
    exact ⟨state, still op reply calls.1, inductionHypothesis reply (calls.2 reply)⟩

/-- A program that starts in a good state issues only calls that moves from good states
allow, if these moves lead to good states. -/
theorem calls_of_follows {post : α → σ → Prop} {allowed : Op → Prop} (good : σ → Prop)
    (replies : ∀ op, Nonempty (Reply op)) (every : ∀ op reply, genuine op reply)
    (always : ∀ state op reply state', good state → move state op reply state' →
      allowed op ∧ good state')
    {program : Program Op Reply α} {state : σ} (follows : Follows genuine move post program state)
    (isGood : good state) : Calls allowed program := by
  induction program generalizing state with
  | done value => trivial
  | call op next inductionHypothesis =>
    constructor
    · obtain ⟨reply⟩ := replies op
      obtain ⟨state', moved, _⟩ := follows reply (every op reply)
      exact (always state op reply state' isGood moved).1
    · intro reply
      obtain ⟨state', moved, rest⟩ := follows reply (every op reply)
      exact inductionHypothesis reply rest (always state op reply state' isGood moved).2

end Follows

/-! ## Finished executions -/

variable {World : Type}

/-- One execution that runs to its end: each call is answered by the world, and
the trace records the calls and replies in order. -/
inductive Completes (answers : World → (op : Op) → Reply op → World → Prop) :
    Program Op Reply α → World → List (Event Op Reply) → α → World → Prop
  | done (value : α) (world : World) : Completes answers (.done value) world [] value world
  | call {op : Op} {next : Reply op → Program Op Reply α} {world middle final : World}
      {reply : Reply op} {trace : List (Event Op Reply)} {value : α}
      (answered : answers world op reply middle)
      (rest : Completes answers (next reply) middle trace value final) :
      Completes answers (.call op next) world (⟨op, reply⟩ :: trace) value final

section Completes

variable {answers : World → (op : Op) → Reply op → World → Prop}

/-- A finished first part followed by a finished second part is a finished
sequence, with the traces joined. -/
theorem completes_bind {program : Program Op Reply α} {next : α → Program Op Reply β}
    {world middle final : World} {before after : List (Event Op Reply)} {value : α} {result : β}
    (first : Completes answers program world before value middle)
    (second : Completes answers (next value) middle after result final) :
    Completes answers (program >>= next) world (before ++ after) result final := by
  induction first with
  | done value world => exact second
  | call answered rest inductionHypothesis => exact .call answered (inductionHypothesis second)

/-- A finished execution whose first step is a call took that step. -/
theorem call_completes {op : Op} {next : Reply op → Program Op Reply α} {world final : World}
    {trace : List (Event Op Reply)} {result : α}
    (completed : Completes answers (.call op next) world trace result final) :
    ∃ reply middle after, answers world op reply middle ∧
      Completes answers (next reply) middle after result final ∧ trace = ⟨op, reply⟩ :: after := by
  cases completed with
  | call answered rest => exact ⟨_, _, _, answered, rest, rfl⟩

/-- A finished sequence splits at the value of its first part. -/
theorem bind_completes {program : Program Op Reply α} {next : α → Program Op Reply β}
    {world final : World} {trace : List (Event Op Reply)} {result : β}
    (completed : Completes answers (program >>= next) world trace result final) :
    ∃ before value middle after, Completes answers program world before value middle ∧
      Completes answers (next value) middle after result final ∧ trace = before ++ after := by
  induction program generalizing world trace with
  | done value => exact ⟨[], value, world, trace, .done value world, completed, rfl⟩
  | call op rest inductionHypothesis =>
    obtain ⟨reply, middle, further, answered, continues, rfl⟩ := call_completes completed
    obtain ⟨before, value, reached, after, first, second, rfl⟩ :=
      inductionHypothesis reply continues
    exact ⟨_ :: before, value, reached, after, .call answered first, second, rfl⟩

/-- An execution stays one when the world may answer in more ways. -/
theorem completes_mono {answers' : World → (op : Op) → Reply op → World → Prop}
    (implies : ∀ world op reply world', answers world op reply world' →
      answers' world op reply world')
    {program : Program Op Reply α} {world final : World} {trace : List (Event Op Reply)} {value : α}
    (completed : Completes answers program world trace value final) :
    Completes answers' program world trace value final := by
  induction completed with
  | done value world => exact .done value world
  | call answered rest inductionHypothesis =>
    exact .call (implies _ _ _ _ answered) inductionHypothesis

/-- Every call of a finished execution is one the program can issue. -/
theorem calls_completes {allowed : Op → Prop} {program : Program Op Reply α} {world final : World}
    {trace : List (Event Op Reply)} {value : α} (calls : Calls allowed program)
    (completed : Completes answers program world trace value final) :
    ∀ event ∈ trace, allowed event.1 := by
  induction completed with
  | done value world => simp
  | @call op next world middle final reply trace value answered rest inductionHypothesis =>
    intro event member
    cases member with
    | head => exact calls.1
    | tail _ later => exact inductionHypothesis (calls.2 reply) event later

/-- A finished execution ends with a value the program can return. -/
theorem returns_completes {post : α → Prop} {program : Program Op Reply α} {world final : World}
    {trace : List (Event Op Reply)} {value : α} (returns : Returns post program)
    (completed : Completes answers program world trace value final) : post value := by
  induction completed with
  | done value world => exact returns
  | @call op next world middle final reply trace value answered rest inductionHypothesis =>
    exact inductionHypothesis (returns reply)

/-- A finished execution whose calls all leave the world alone ends in it. -/
theorem unchanged_completes {allowed : Op → Prop} {program : Program Op Reply α}
    {world final : World} {trace : List (Event Op Reply)} {value : α}
    (calls : Calls allowed program)
    (still : ∀ world op reply world', allowed op → answers world op reply world' → world' = world)
    (completed : Completes answers program world trace value final) : final = world := by
  induction completed with
  | done value world => rfl
  | @call op next world middle final reply trace value answered rest inductionHypothesis =>
    rw [inductionHypothesis (calls.2 reply), still world op reply middle calls.1 answered]

/-- The automaton takes the events of a trace one after the other. -/
inductive Path (move : σ → (op : Op) → Reply op → σ → Prop) : σ → List (Event Op Reply) → σ → Prop
  | nil (state : σ) : Path move state [] state
  | cons {state middle final : σ} {op : Op} {reply : Reply op} {trace : List (Event Op Reply)}
      (moved : move state op reply middle) (rest : Path move middle trace final) :
      Path move state (⟨op, reply⟩ :: trace) final

/-- Along a path every event is a move. -/
theorem Path.moves {move : σ → (op : Op) → Reply op → σ → Prop} {state final : σ}
    {trace : List (Event Op Reply)} (path : Path move state trace final) :
    ∀ event ∈ trace, ∃ before after, move before event.1 event.2 after := by
  induction path with
  | nil state => exact fun _ impossible => nomatch impossible
  | cons moved rest inductionHypothesis =>
    exact List.forall_mem_cons.mpr ⟨⟨_, _, moved⟩, inductionHypothesis⟩

/-- A finished execution of a following program takes the automaton along its trace, to a
state that the postcondition admits for its value. -/
theorem follows_completes {genuine : (op : Op) → Reply op → Prop}
    {move : σ → (op : Op) → Reply op → σ → Prop} {post : α → σ → Prop}
    {program : Program Op Reply α}
    {state : σ} {world final : World} {trace : List (Event Op Reply)} {value : α}
    (follows : Follows genuine move post program state)
    (sound : ∀ world op reply world', answers world op reply world' → genuine op reply)
    (completed : Completes answers program world trace value final) :
    ∃ state', post value state' ∧ Path move state trace state' := by
  induction completed generalizing state with
  | done value world => exact ⟨state, follows, .nil state⟩
  | @call op next world middle final reply trace value answered rest inductionHypothesis =>
    obtain ⟨state', moved, further⟩ := follows reply (sound world op reply middle answered)
    obtain ⟨reached, admitted, path⟩ := inductionHypothesis further
    exact ⟨reached, admitted, .cons moved path⟩

/-- An invariant of automaton and world that every genuine move keeps holds at the
end of a finished execution, together with the postcondition. -/
theorem follows_invariant {genuine : (op : Op) → Reply op → Prop}
    {move : σ → (op : Op) → Reply op → σ → Prop} {post : α → σ → Prop}
    {program : Program Op Reply α}
    {state : σ} {world final : World} {trace : List (Event Op Reply)} {value : α}
    (invariant : σ → World → Prop) (follows : Follows genuine move post program state)
    (sound : ∀ world op reply world', answers world op reply world' → genuine op reply)
    (kept : ∀ state op reply state' world world', invariant state world →
      move state op reply state' → answers world op reply world' → invariant state' world')
    (completed : Completes answers program world trace value final)
    (start : invariant state world) :
    ∃ state', post value state' ∧ invariant state' final := by
  induction completed generalizing state with
  | done value world => exact ⟨state, follows, start⟩
  | @call op next world middle final reply trace value answered rest inductionHypothesis =>
    obtain ⟨state', moved, further⟩ := follows reply (sound world op reply middle answered)
    exact inductionHypothesis further (kept state op reply state' world middle start moved answered)

end Completes

/-! ## Executions to an end -/

/-- Some execution from the world ends with the value in the final world. -/
def Ends (answers : World → (op : Op) → Reply op → World → Prop) (program : Program Op Reply α)
    (world : World) (value : α) (final : World) : Prop :=
  ∃ trace, Completes answers program world trace value final

section Ends

variable {answers : World → (op : Op) → Reply op → World → Prop} {world middle final : World}

/-- A finished program ends at once, in the same world. -/
theorem ends_done (value : α) (world : World) :
    Ends answers (.done value : Program Op Reply α) world value world :=
  ⟨_, .done value world⟩

/-- The pending call is answered, and the rest ends. -/
theorem ends_call {op : Op} {next : Reply op → Program Op Reply α} {reply : Reply op} {value : α}
    (answered : answers world op reply middle)
    (rest : Ends answers (next reply) middle value final) :
    Ends answers (.call op next) world value final := by
  obtain ⟨trace, completes⟩ := rest
  exact ⟨_, .call answered completes⟩

/-- A part ends, and so does what follows it. -/
theorem ends_bind {program : Program Op Reply α} {next : α → Program Op Reply β} {value : α}
    {result : β} (first : Ends answers program world value middle)
    (rest : Ends answers (next value) middle result final) :
    Ends answers (program >>= next) world result final := by
  obtain ⟨before, completes⟩ := first
  obtain ⟨after, continues⟩ := rest
  exact ⟨_, completes_bind completes continues⟩

end Ends

end Program

end Interaction
