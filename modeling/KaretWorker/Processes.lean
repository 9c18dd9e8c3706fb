import KaretWorker.QueueRuns

/-!
# Worker processes

What `run` of `src/lib.rs` starts: consumer loops as many as its concurrency, the mover, the
reclaimer and the debounce scheduler of `src/queue.rs`. A loop takes one turn after another. In
a turn it looks whether the process shuts down, connects if it has to, and reads, reclaims or
moves; a stream entry that it was given it handles to the end before anything else. Processes
run side by side over one queue, shut down gracefully, or die at any time.

Every turn keeps to `LoopMove`: an entry that was given is handled before the next one is asked
for, and only consumers and the reclaimer ask. `serve_served` says once what serving a loop does,
and `answer_phase` what a step of its handler does.
-/
namespace KaretWorker

open Texts Interaction Indexing

/-! ## Loops -/

/-- The four loops of a process. -/
inductive LoopKind where
  | consumer | mover | reclaimer | scheduler
  deriving DecidableEq

/-- What a loop carries from one turn to the next. -/
inductive LoopState where
  | consumer (connected : Bool)
  | mover (connected : Bool)
  | reclaimer (connected : Bool) (tick : Nat)
  | claiming (tick : Nat)
  | scheduler (connected : Bool)

/-- The loop that a state belongs to; claiming is the reclaimer's. -/
def LoopState.kind : LoopState → LoopKind
  | .consumer _ => .consumer
  | .mover _ => .mover
  | .reclaimer _ _ | .claiming _ => .reclaimer
  | .scheduler _ => .scheduler

/-- What a loop waits for. -/
inductive LoopOp where
  | shutdown
  | pause
  | connect
  | ensureGroup
  | readGroup
  | autoClaim
  | handleClaimed (entry : Nat) (payload : Payload)
  | consumerOk (ok : Bool)
  | sweep
  | moveDue
  | fireDue

/-- What a loop is told by each operation. -/
abbrev LoopReply : LoopOp → Type
  | .shutdown => Bool
  | .pause | .consumerOk _ | .handleClaimed _ _ => Unit
  | .connect | .ensureGroup | .sweep | .fireDue => Except Text Unit
  | .readGroup | .autoClaim => Except Text (Option (Nat × Payload))
  | .moveDue => Except Text Nat

/-- Programs over these operations. -/
abbrev Looping (α : Type) : Type := Program LoopOp LoopReply α

/-- A single operation, whose value is its reply. -/
def loopOp (op : LoopOp) : Looping (LoopReply op) := Program.perform op

/-- Reuse the loop's connection or establish one. -/
def ensureConn (connected : Bool) : Looping Bool :=
  if connected then pure true
  else do
    match ← loopOp .connect with
    | .ok () => pure true
    | .error _ => pure false

/-- Read an entry and handle it. -/
def readAndHandle : Looping (Option LoopState) := do
  match ← loopOp .readGroup with
  | .ok read => do
    loopOp (.consumerOk true)
    match read with
    | some (entry, payload) => do
      loopOp (.handleClaimed entry payload)
      pure (some (.consumer true))
    | none => pure (some (.consumer true))
  | .error _ => do
    loopOp (.consumerOk false)
    loopOp .pause
    pure (some (.consumer false))

/-- One turn of the consumer loop. -/
def consumerTurn (connected : Bool) : Looping (Option LoopState) := do
  match ← loopOp .shutdown with
  | true => pure none
  | false =>
    if connected then readAndHandle
    else do
      match ← loopOp .connect with
      | .ok () => do
        let _ ← loopOp .ensureGroup
        readAndHandle
      | .error _ => do
        loopOp (.consumerOk false)
        loopOp .pause
        pure (some (.consumer false))

/-- A turn of a loop that works on a tick, once it is connected. -/
def tickTurn (connected : Bool) (work : Looping (Option LoopState)) (unconnected : LoopState) :
    Looping (Option LoopState) := do
  loopOp .pause
  match ← loopOp .shutdown with
  | true => pure none
  | false => do
    match ← ensureConn connected with
    | true => work
    | false => pure (some unconnected)

/-- One turn of the delayed mover loop. -/
def moverTurn (connected : Bool) : Looping (Option LoopState) :=
  tickTurn connected (do
    match ← loopOp .moveDue with
    | .ok _ => pure (some (.mover true))
    | .error _ => pure (some (.mover false))) (.mover false)

/-- One turn of the debounce scheduler loop. -/
def schedulerTurn (connected : Bool) : Looping (Option LoopState) :=
  tickTurn connected (do
    match ← loopOp .fireDue with
    | .ok () => pure (some (.scheduler true))
    | .error _ => pure (some (.scheduler false))) (.scheduler false)

/-- The reclaimer loop up to its first claim. -/
def reclaimerTurn (connected : Bool) (tick : Nat) : Looping (Option LoopState) :=
  tickTurn connected (pure (some (.claiming (tick + 1)))) (.reclaimer false (tick + 1))

/-- One claim of the reclaimer loop. After the last one of a pass comes the sweep, every tenth pass. -/
def claimTurn (tick : Nat) : Looping (Option LoopState) := do
  match ← loopOp .autoClaim with
  | .ok (some (entry, payload)) => do
    loopOp (.handleClaimed entry payload)
    pure (some (.claiming tick))
  | .ok none =>
    if tick % 10 = 1 then do
      match ← loopOp .sweep with
      | .ok () => pure (some (.reclaimer true tick))
      | .error _ => pure (some (.reclaimer false tick))
    else pure (some (.reclaimer true tick))
  | .error _ => pure (some (.reclaimer false tick))

/-- One turn of a loop; none comes after the last. -/
def LoopState.turn : LoopState → Looping (Option LoopState)
  | .consumer connected => consumerTurn connected
  | .mover connected => moverTurn connected
  | .reclaimer connected tick => reclaimerTurn connected tick
  | .claiming tick => claimTurn tick
  | .scheduler connected => schedulerTurn connected

/-! ## Processes -/

/-- A loop with the rest of its turn, the handler it waits for, whether that one is counted, and how
many entries it read since the process was told to shut down. -/
structure Loop where
  kind : LoopKind
  program : Option (Looping (Option LoopState))
  handling : Option Nat
  counted : Bool
  late : Nat

/-- A loop before its first turn. -/
def Loop.first (state : LoopState) : Loop := ⟨state.kind, some state.turn, none, false, 0⟩

/-- A process with its loops, the handlers it began, and those that came to their end. -/
structure Process where
  worker : Text
  concurrency : Nat
  shutdown : Bool
  consumerOk : Bool
  inFlight : Nat
  loops : List Loop
  begun : List Nat
  ended : List Nat

/-- The loops that `run` starts. -/
def firstLoops (concurrency : Nat) : List Loop :=
  List.replicate (max concurrency 1) (.first (.consumer false)) ++
    [.first (.mover false), .first (.reclaimer false 0), .first (.scheduler false)]

/-- A process with all its loops, none of which has taken a turn. -/
def Process.start (worker : Text) (concurrency : Nat) : Process :=
  ⟨worker, concurrency, false, true, 0, firstLoops concurrency, [], []⟩

/-- The processes over one queue, the next handler's number, and the processes that ended. -/
structure Fleet where
  queue : Queue
  processes : AList (fun _ : Nat => Process)
  nextHandler : Nat
  exited : List Process

/-- The rows, and no process yet. -/
def Fleet.initial (rows : AList (fun _ : Text => JobRow)) : Fleet := ⟨.initial rows, ∅, 0, []⟩

/-- How the surroundings answer a loop. -/
inductive LoopGiven where
  | performed
  | result (result : Except Text Unit)
  | read
  | readLost (error : Text)
  | claimed (entry : Nat)
  | moved (now : Int) (due : List JobMessage)
  | movedLost (now : Int) (due : List JobMessage) (error : Text)

/-- The handler of an entry begins. -/
def Process.begins (process : Process) (id : Nat) : Process := { process with begun := id :: process.begun }

/-- The loop waits for the handler. -/
def Loop.begins (loop : Loop) (id : Nat) : Loop := { loop with handling := some id }

/-- The loop read an entry. -/
def Loop.reads (loop : Loop) (shutdown : Bool) : Loop :=
  { loop with late := loop.late + shutdown.toNat }

/-- The loop after its turn or in it. -/
def Loop.goesOn (loop : Loop) : Looping (Option LoopState) → Loop
  | .done none => { loop with program := none }
  | .done (some state) => { loop with program := some state.turn }
  | .call op next => { loop with program := some (.call op next) }

/-- The reply to an operation of a handler says that it has the lock. -/
def Op.locks : (op : Op) → OpReply op → Bool
  | .command (.setLock _ _ _), .ok true => true
  | _, _ => false

/-- The handler learns by a response that it has the lock. -/
def Queue.locks (queue : Queue) (id : Nat) (response : Response) : Bool :=
  match queue.handlers.lookup id with
  | some handler =>
    match handler.program with
    | .call op _ =>
      match respond queue.services op response with
      | some (reply, _) => op.locks reply
      | none => false
    | .done _ => false
  | none => false

/-- The handlers of a process that dies. -/
def Queue.crashAll (queue : Queue) (ids : List Nat) : Queue :=
  { queue with handlers := ids.foldl (fun handlers id => handlers.erase id) queue.handlers }

/-- Not a step of a handler, nor of the mover, nor of who claims entries. -/
def QueueAction.outside : QueueAction → Bool
  | .enqueue _ | .poison _ | .beat _ _ | .progress _ | .trim | .expireLock _ | .expireLive _ | .sweep _
  | .answerSweep _ _ | .stopSweep _ => true
  | .deliver _ _ | .reclaim _ _ _ | .answer _ _ | .crash _ | .move _ _ => false

section System

variable (settings : QueueSettings)

/-- Perform what a loop waits for. An answer that does not fit it performs nothing. -/
def Queue.serve (queue : Queue) (next : Nat) (process : Process) (loop : Loop) :
    (op : LoopOp) → LoopGiven → Option (LoopReply op × Queue × Process × Loop)
  | .shutdown, .performed => some (process.shutdown, queue, process, loop)
  | .pause, .performed => some ((), queue, process, loop)
  | .consumerOk ok, .performed => some ((), queue, { process with consumerOk := ok }, loop)
  | .connect, .result result | .ensureGroup, .result result | .sweep, .result result
  | .fireDue, .result result => some (result, queue, process, loop)
  | .readGroup, .read =>
    match queue.services.redis.nextUnread, queue.step settings (.deliver next process.worker) with
    | some item, some after =>
      some (.ok (some item), after, process.begins next, (loop.reads process.shutdown).begins next)
    | _, _ => none
  | .readGroup, .readLost error =>
    match queue.step settings (.deliver next process.worker) with
    | some after => (after.step settings (.crash next)).map (fun after =>
        (.error error, after, process, loop.reads process.shutdown))
    | none => none
  | .autoClaim, .claimed entry =>
    match queue.services.redis.payloadAt entry, queue.step settings (.reclaim next process.worker entry) with
    | some payload, some after =>
      some (.ok (some (entry, payload)), after, process.begins next, loop.begins next)
    | _, _ => none
  | .readGroup, .result result | .autoClaim, .result result =>
    some (result.map (fun _ => none), queue, process, loop)
  | .moveDue, .moved now due =>
    (queue.step settings (.move now due)).map (fun after => (.ok due.length, after, process, loop))
  | .moveDue, .movedLost now due error =>
    (queue.step settings (.move now due)).map (fun after => (.error error, after, process, loop))
  | .moveDue, .result (.error error) => some (.error error, queue, process, loop)
  | .handleClaimed _ _, .performed =>
    match loop.handling with
    | some id =>
      if (queue.handlers.lookup id).isNone then some ((), queue, process, { loop with handling := none })
      else none
    | none => none
  | _, _ => none

/-- A handler's step, and what the process counts. -/
def Process.answered (process : Process) (index : Nat) (loop : Loop) (id : Nat) (locks ends : Bool) : Process :=
  { process with
    inFlight := process.inFlight + locks.toNat - (ends && (loop.counted || locks)).toNat
    loops := process.loops.set index { loop with counted := (loop.counted || locks) && !ends }
    ended := if ends then id :: process.ended else process.ended }

/-- Processes start, are told to shut down, exit and are killed; their loops and handlers take
steps, and the queue takes those that are nobody's. -/
inductive FleetAction where
  | start (pid : Nat) (worker : Text) (concurrency : Nat)
  | shutdown (pid : Nat)
  | loop (pid index : Nat) (given : LoopGiven)
  | answer (pid index : Nat) (response : Response)
  | queue (action : QueueAction)
  | exit (pid : Nat)
  | kill (pid : Nat)

/-- One action, if it is possible here. A killed process loses its handlers wherever they are. -/
def Fleet.step (fleet : Fleet) : FleetAction → Option Fleet
  | .start pid worker concurrency =>
    match fleet.processes.lookup pid with
    | none => some { fleet with processes := fleet.processes.insert pid (.start worker concurrency) }
    | some _ => none
  | .shutdown pid => (fleet.processes.lookup pid).map (fun process =>
      { fleet with processes := fleet.processes.insert pid { process with shutdown := true } })
  | .loop pid index given =>
    match fleet.processes.lookup pid with
    | some process =>
      match process.loops[index]? with
      | some loop =>
        match loop.program with
        | some (.call op next) =>
          match fleet.queue.serve settings fleet.nextHandler process loop op given with
          | some (reply, queue, process, loop) => some { fleet with
              queue := queue
              processes := fleet.processes.insert pid
                { process with loops := process.loops.set index (loop.goesOn (next reply)) }
              nextHandler := fleet.nextHandler + 1 }
          | none => none
        | _ => none
      | none => none
    | none => none
  | .answer pid index response =>
    match fleet.processes.lookup pid with
    | some process =>
      match process.loops[index]? with
      | some loop =>
        match loop.program, loop.handling with
        | some (.call (.handleClaimed _ _) _), some id =>
          (fleet.queue.step settings (.answer id response)).map (fun after => { fleet with
            queue := after
            processes := fleet.processes.insert pid (process.answered index loop id
              (fleet.queue.locks id response) (after.handlers.lookup id).isNone) })
        | _, _ => none
      | none => none
    | none => none
  | .queue action =>
    if action.outside then (fleet.queue.step settings action).map (fun after => { fleet with queue := after })
    else none
  | .exit pid =>
    match fleet.processes.lookup pid with
    | some process =>
      if process.shutdown && process.loops.all (fun loop => loop.program.isNone) then
        some { fleet with processes := fleet.processes.erase pid, exited := process :: fleet.exited }
      else none
    | none => none
  | .kill pid => (fleet.processes.lookup pid).map (fun process => { fleet with
      queue := fleet.queue.crashAll (process.loops.filterMap Loop.handling)
      processes := fleet.processes.erase pid })

end System

/-! ## What a turn does -/

/-- Whether a loop has to handle an entry it was given, and how often it may read before its next
look at the shutdown. -/
structure Dues where
  pending : Bool
  reads : Nat

/-- An entry was given. -/
def isGiven : Except Text (Option (Nat × Payload)) → Bool
  | .ok (some _) => true
  | _ => false

/-- Consumers read and reclaimers claim, once they have handled what they were given. -/
def LoopMove (kind : LoopKind) (dues : Dues) : (op : LoopOp) → LoopReply op → Dues → Prop
  | .readGroup, reply, dues' =>
    kind = .consumer ∧ dues.pending = false ∧ dues.reads = dues'.reads + 1 ∧ dues'.pending = isGiven reply
  | .autoClaim, reply, dues' => kind = .reclaimer ∧ dues.pending = false ∧ dues' = ⟨isGiven reply, dues.reads⟩
  | .handleClaimed _ _, _, dues' => dues.pending = true ∧ dues' = ⟨false, dues.reads⟩
  | _, _, dues' => dues' = dues

/-- A process that shuts down says so. -/
def Tells (stopping : Bool) : (op : LoopOp) → LoopReply op → Prop
  | .shutdown, reply => stopping = true → reply = true
  | _, _ => True

/-- The program keeps to what is due in its turn, and ends with nothing pending in a state of its
kind. -/
def LoopKeeps (kind : LoopKind) (stopping : Bool) (program : Looping (Option LoopState)) (dues : Dues) : Prop :=
  Program.Follows (Tells stopping) (LoopMove kind)
    (fun next dues => dues.pending = false ∧ ∀ state, next = some state → state.kind = kind) program dues

section Turns

variable {kind : LoopKind} {stopping : Bool} {program : Looping (Option LoopState)} {dues : Dues}

/-- A loop that keeps to its turn keeps to it when its process is told to shut down. -/
theorem LoopKeeps.stop (keeps : LoopKeeps kind false program dues) :
    LoopKeeps kind true program dues := by
  induction program generalizing dues with
  | done next => exact keeps
  | call op next inductionHypothesis =>
    intro reply _
    have told : Tells false op reply := by
      cases op with
      | shutdown =>
        intro impossible
        cases impossible
      | _ => trivial
    obtain ⟨dues', moved, rest⟩ := keeps reply told
    exact ⟨dues', moved, inductionHypothesis reply rest⟩

/-- The end of a turn of which nothing is due. -/
theorem turn_ends {reads : Nat} (state : LoopState) (isKind : state.kind = kind) :
    LoopKeeps kind stopping (.done (some state)) ⟨false, reads⟩ := by
  refine ⟨rfl, ?_⟩
  rintro _ ⟨⟩
  exact isKind

/-- A consumer reads once and handles what it was given. -/
theorem readAndHandle_keeps : LoopKeeps .consumer stopping readAndHandle ⟨false, 1⟩ := by
  simp only [readAndHandle, loopOp, Program.perform_bind]
  rintro (error | read) _
  · refine ⟨⟨false, 0⟩, ⟨rfl, rfl, rfl, rfl⟩, ?_⟩
    intro _ _
    refine ⟨_, rfl, ?_⟩
    intro _ _
    exact ⟨_, rfl, turn_ends _ rfl⟩
  · refine ⟨⟨isGiven (.ok read), 0⟩, ⟨rfl, rfl, rfl, rfl⟩, ?_⟩
    intro _ _
    refine ⟨_, rfl, ?_⟩
    cases read with
    | none => exact turn_ends _ rfl
    | some item =>
      intro _ _
      exact ⟨_, ⟨rfl, rfl⟩, turn_ends _ rfl⟩

/-- How often a loop may read in a turn. -/
def turnReads (stopping : Bool) : Nat := if stopping then 0 else 1

/-- A consumer's turn reads at most once, and not at all once it was told to stop. -/
theorem consumerTurn_keeps (connected : Bool) :
    LoopKeeps .consumer stopping (consumerTurn connected) ⟨false, turnReads stopping⟩ := by
  simp only [consumerTurn, loopOp, Program.perform_bind]
  rintro (_ | _) told
  · cases stopping with
    | true => cases told rfl
    | false =>
      refine ⟨_, rfl, ?_⟩
      cases connected with
      | true => exact readAndHandle_keeps
      | false =>
        rintro (error | ⟨⟩) _
        · refine ⟨_, rfl, ?_⟩
          intro _ _
          refine ⟨_, rfl, ?_⟩
          intro _ _
          exact ⟨_, rfl, turn_ends _ rfl⟩
        · refine ⟨_, rfl, ?_⟩
          intro _ _
          exact ⟨_, rfl, readAndHandle_keeps⟩
  · refine ⟨_, rfl, rfl, ?_⟩
    rintro _ ⟨⟩

/-- A turn on a tick keeps to what its work does. -/
theorem tickTurn_keeps (connected : Bool) {work : Looping (Option LoopState)}
    {unconnected : LoopState} {reads : Nat} (isKind : unconnected.kind = kind)
    (works : LoopKeeps kind stopping work ⟨false, reads⟩) :
    LoopKeeps kind stopping (tickTurn connected work unconnected) ⟨false, reads⟩ := by
  simp only [tickTurn, loopOp, Program.perform_bind]
  intro _ _
  refine ⟨_, rfl, ?_⟩
  rintro (_ | _) _
  · refine ⟨_, rfl, ?_⟩
    cases connected with
    | true => exact works
    | false =>
      rintro (error | ⟨⟩) _
      · exact ⟨_, rfl, turn_ends _ isKind⟩
      · exact ⟨_, rfl, works⟩
  · refine ⟨_, rfl, rfl, ?_⟩
    rintro _ ⟨⟩

/-- Every turn of every loop. -/
theorem turn_keeps (state : LoopState) (stopping : Bool) :
    LoopKeeps state.kind stopping state.turn ⟨false, turnReads stopping⟩ := by
  cases state with
  | consumer connected => exact consumerTurn_keeps connected
  | mover connected =>
    refine tickTurn_keeps connected rfl ?_
    rintro (error | moved) _
    · exact ⟨_, rfl, turn_ends _ rfl⟩
    · exact ⟨_, rfl, turn_ends _ rfl⟩
  | scheduler connected =>
    refine tickTurn_keeps connected rfl ?_
    rintro (error | ⟨⟩) _
    · exact ⟨_, rfl, turn_ends _ rfl⟩
    · exact ⟨_, rfl, turn_ends _ rfl⟩
  | reclaimer connected tick => exact tickTurn_keeps connected rfl (turn_ends _ rfl)
  | claiming tick =>
    simp only [LoopState.turn, claimTurn, loopOp, Program.perform_bind]
    rintro (error | _ | item) _
    · exact ⟨_, ⟨rfl, rfl, rfl⟩, turn_ends _ rfl⟩
    · refine ⟨_, ⟨rfl, rfl, rfl⟩, ?_⟩
      dsimp only
      split
      · rintro (error | ⟨⟩) _
        · exact ⟨_, rfl, turn_ends _ rfl⟩
        · exact ⟨_, rfl, turn_ends _ rfl⟩
      · exact turn_ends _ rfl
    · refine ⟨_, ⟨rfl, rfl, rfl⟩, ?_⟩
      intro _ _
      exact ⟨_, ⟨rfl, rfl⟩, turn_ends _ rfl⟩

end Turns

/-! ## Handlers and their locks -/

/-- The operation does not try a lock. -/
def Op.lockless (op : Op) : Prop := ∀ pipeline fence ttlMs, op ≠ .command (.setLock pipeline fence ttlMs)

/-- The program does not start its job before it has learnt that it has the lock, and tries no lock
after that. -/
def Unstarted : Handling Unit → Prop
  | .done _ => True
  | .call op next => (∀ pipeline fence, op ≠ .startJob pipeline fence) ∧
      ∀ reply, (op.locks reply = false → Unstarted (next reply)) ∧
        (op.locks reply = true → (next reply).Calls Op.lockless)

/-- Neither about to start its job nor in it. -/
def Stage.unstarted : Stage → Bool
  | .preparing _ | .executing _ => false
  | _ => true

/-- The lock may still be tried. -/
def Stage.mayLock : Stage → Bool
  | .arriving | .guarding | .counting | .locking _ => true
  | _ => false

section Unstarted

variable {settings : QueueSettings} {msg : JobMessage} {entry : Nat} {stage stage' : Stage}
  {op : Op}
  {reply : OpReply op}

/-- Whoever tries no lock does not learn that it has one. -/
theorem locks_lockless (lockless : op.lockless) : op.locks reply = false := by
  unfold Op.locks
  split
  · exact absurd rfl (lockless _ _ _)
  · rfl

/-- Idle operations try no lock. -/
theorem lockless_idle (isIdle : op.idle = true) : op.lockless := by
  rintro pipeline fence ttlMs rfl
  cases isIdle

/-- Operations that prepare a run try no lock. -/
theorem lockless_prepares (prepares : op.prepares msg = true) : op.lockless := by
  rintro pipeline fence ttlMs rfl
  cases prepares

/-- A handler starts no job before it has learnt that it has the lock, and tries none after that. -/
theorem Step.unstarted (step : Step settings msg entry stage op reply stage')
    (isUnstarted : stage.unstarted = true) :
    (∀ pipeline fence, op ≠ .startJob pipeline fence) ∧
    (op.locks reply = false → stage'.unstarted = true) ∧
      (op.locks reply = true → stage'.mayLock = false) := by
  cases step with
  | idle =>
    next isIdle =>
    refine ⟨?_, fun _ => isUnstarted, ?_⟩
    · rintro pipeline fence rfl
      cases isIdle
    · intro impossible
      rw [locks_lockless (lockless_idle isIdle)] at impossible
      cases impossible
  | locked attempt =>
    refine ⟨by simp, ?_, fun _ => rfl⟩
    intro impossible
    cases impossible
  | prepared | begun | ended => cases isUnstarted
  | _ =>
    refine ⟨by simp, fun _ => rfl, ?_⟩
    intro impossible
    cases impossible

/-- Past its lock a handler tries none again. -/
theorem Step.lockless (step : Step settings msg entry stage op reply stage')
    (isPast : stage.mayLock = false) :
    op.lockless ∧ stage'.mayLock = false := by
  cases step with
  | idle =>
    next isIdle => exact ⟨lockless_idle isIdle, isPast⟩
  | prepared =>
    next prepares => exact ⟨lockless_prepares prepares, rfl⟩
  | ended attempt outcome =>
    refine ⟨by simp [Op.lockless], ?_⟩
    rcases outcome with (error | error | errors | _ | error | _) | outcome <;> rfl
  | unconnected | rejected | accepted | seen | unseen | gaveUp | counted | unlocked | busy
  | locked => cases isPast
  | _ => exact ⟨by simp [Op.lockless], rfl⟩

/-- Every operation has some reply. -/
theorem opReply_inhabited (op : Op) : Nonempty (OpReply op) := by
  cases op with
  | command => exact ⟨.error []⟩
  | nowIso => exact ⟨[]⟩
  | nowMs => exact ⟨(0 : Int)⟩
  | scanLive => exact ⟨.error []⟩
  | startJob | abortHeartbeat => exact ⟨()⟩
  | awaitJob => exact ⟨.error .cancelled⟩

variable {post : Unit → Stage → Prop} {program : Handling Unit}

/-- A handler that keeps to the protocol past its lock tries none. -/
theorem lockless_of_keeps (keeps : HandlerKeeps settings msg entry post program stage)
    (isPast : stage.mayLock = false) : program.Calls Op.lockless :=
  Program.calls_of_follows (fun stage => stage.mayLock = false) opReply_inhabited
    (fun _ _ => trivial) (fun _ _ _ _ isPast step => step.lockless isPast) keeps isPast

/-- A handler that keeps to the protocol at an early stage has not started. -/
theorem unstarted_of_keeps (keeps : HandlerKeeps settings msg entry post program stage)
    (isUnstarted : stage.unstarted = true) : Unstarted program := by
  induction program generalizing stage with
  | done value => trivial
  | call op next inductionHypothesis =>
    constructor
    · obtain ⟨reply⟩ := opReply_inhabited op
      obtain ⟨stage', step, _⟩ := keeps reply trivial
      exact (step.unstarted isUnstarted).1
    · intro reply
      obtain ⟨stage', step, rest⟩ := keeps reply trivial
      obtain ⟨-, unlocked, locked⟩ := step.unstarted isUnstarted
      exact ⟨fun hasNone => inductionHypothesis reply rest (unlocked hasNone),
        fun hasOne => lockless_of_keeps rest (locked hasOne)⟩

/-- A new handler has not started. -/
theorem fresh_unstarted (worker : Text) (payload : Payload) :
    Unstarted (handleClaimed settings worker entry payload) := by
  cases payload with
  | message msg => exact unstarted_of_keeps (handleClaimed_keeps worker) rfl
  | malformed text =>
    refine ⟨by simp, ?_⟩
    rintro (error | ⟨⟩)
    · exact ⟨fun _ => trivial, fun _ => trivial⟩
    · constructor
      · intro _
        refine ⟨by simp, fun _ => ⟨fun _ => trivial, fun _ => trivial⟩⟩
      · intro impossible
        cases impossible

end Unstarted

/-! ## What steps do to handlers -/

/-- The program of a handler, and the lock that its heartbeat renews. -/
abbrev HandlerPhase : Type := Handling Unit × Option (Text × Text)

/-- The phase of a handler, if it is running. -/
def Queue.phase (queue : Queue) (id : Nat) : Option HandlerPhase :=
  (queue.handlers.lookup id).map (fun handler => (handler.program, handler.lock))

/-- A handler begins, and the others go on. -/
structure Begins (queue : Queue) (id : Nat) (after : Queue) : Prop where
  isNew : queue.phase id = none
  fresh : ∃ program, Unstarted program ∧ after.phase id = some (program, none)
  others : ∀ other, other ≠ id → after.phase other = queue.phase other

section Queues

variable {settings : QueueSettings} {queue after : Queue} {id : Nat}

/-- A handler that was inserted is in its phase. -/
theorem phase_insert (handlers : AList (fun _ : Nat => Handler)) (handler : Handler) :
    ((handlers.insert id handler).lookup id).map (fun handler => (handler.program, handler.lock)) =
      some (handler.program, handler.lock) := by
  rw [AList.lookup_insert]
  rfl

/-- Inserting a handler leaves the others in their phases. -/
theorem phase_insert_ne (handlers : AList (fun _ : Nat => Handler)) (handler : Handler)
    {other : Nat} (different : other ≠ id) :
    ((handlers.insert id handler).lookup other).map
      (fun handler => (handler.program, handler.lock)) =
      (handlers.lookup other).map (fun handler => (handler.program, handler.lock)) := by
  rw [AList.lookup_insert_ne different]

/-- A claimed entry begins a handler. -/
theorem claim_begins (worker : Text) (entry : Nat) (payload : Payload)
    (isNew : queue.handlers.lookup id = none) :
    Begins queue id (queue.claim settings id worker entry payload) := by
  constructor
  · simp [Queue.phase, isNew]
  · exact ⟨_, fresh_unstarted worker payload, phase_insert _ _⟩
  · intro other different
    exact phase_insert_ne _ _ different

/-- A delivered entry begins a handler. -/
theorem deliver_begins {worker : Text}
    (stepped : queue.step settings (.deliver id worker) = some after) :
    Begins queue id after := by
  simp only [Queue.step] at stepped
  split at stepped
  · next isNew isUnread =>
    obtain rfl := Option.some.inj stepped
    obtain ⟨isNew', fresh, others⟩ := claim_begins worker _ _ isNew
    exact ⟨isNew', fresh, others⟩
  · cases stepped

/-- An entry claimed back from another worker begins a handler. -/
theorem reclaim_begins {worker : Text} {entry : Nat}
    (stepped : queue.step settings (.reclaim id worker entry) = some after) :
    Begins queue id after := by
  simp only [Queue.step] at stepped
  split at stepped
  · next isNew isThere =>
    split at stepped
    · obtain rfl := Option.some.inj stepped
      exact claim_begins worker _ _ isNew
    · cases stepped
  · cases stepped

/-- Moving due jobs leaves every handler alone. -/
theorem move_phase {now : Int} {due : List JobMessage}
    (stepped : queue.step settings (.move now due) = some after) (id : Nat) :
    after.phase id = queue.phase id := by
  simp only [Queue.step] at stepped
  split at stepped
  · obtain rfl := Option.some.inj stepped
    rfl
  · cases stepped

/-- A crash ends that handler and leaves the others alone. -/
theorem crash_phase (stepped : queue.step settings (.crash id) = some after) :
    after.phase id = none ∧ ∀ other, other ≠ id → after.phase other = queue.phase other := by
  obtain rfl := Option.some.inj stepped
  constructor
  · simp [Queue.phase]
  · intro other different
    simp only [Queue.phase]
    rw [AList.lookup_erase_ne different]

/-- What happens outside leaves the handlers' programs and locks alone. -/
theorem outside_phase {action : QueueAction} (isOutside : action.outside = true)
    (stepped : queue.step settings action = some after) (id : Nat) :
    after.phase id = queue.phase id := by
  cases action with
  | deliver | reclaim | answer | crash | move => cases isOutside
  | enqueue | poison | trim | expireLock | expireLive | stopSweep =>
    obtain rfl := Option.some.inj stepped
    rfl
  | beat other fate =>
    simp only [Queue.step] at stepped
    split at stepped
    case h_2 => cases stepped
    next handler runs =>
    split at stepped
    case isTrue => cases stepped
    obtain ⟨lock, isLock, rfl⟩ := Option.map_eq_some_iff.mp stepped
    unfold Queue.beat
    split
    · by_cases same : id = other
      · subst same
        simp only [Queue.phase]
        rw [AList.lookup_insert, runs]
        rfl
      · exact phase_insert_ne _ _ same
    · rfl
    · rfl
  | progress other =>
    simp only [Queue.step] at stepped
    split at stepped
    case h_2 => cases stepped
    split at stepped
    case h_2 => cases stepped
    obtain rfl := Option.some.inj stepped
    rfl
  | sweep other =>
    simp only [Queue.step] at stepped
    split at stepped
    case h_2 => cases stepped
    obtain rfl := Option.some.inj stepped
    rfl
  | answerSweep other response =>
    simp only [Queue.step] at stepped
    split at stepped
    case h_2 => cases stepped
    split at stepped
    case h_2 => cases stepped
    split at stepped
    case h_2 => cases stepped
    obtain rfl := Option.some.inj stepped
    rfl

/-- Only starting a job gives the heartbeat a lock. -/
theorem advance_lock {handler : Handler} {op : Op} {reply : OpReply op} {rest : Handling Unit}
    (unstarted : ∀ pipeline fence, op ≠ .startJob pipeline fence) (unlocked : handler.lock = none) :
    (handler.advance op reply rest).lock = none := by
  unfold Handler.advance
  split
  · exact unlocked
  · exact unlocked
  · exact unlocked
  · exact absurd rfl (unstarted _ _)
  · rfl
  · exact unlocked

/-- A handler takes a step: it goes on with the reply or ends, and the others stay where they are. -/
theorem answer_phase {response : Response}
    (stepped : queue.step settings (.answer id response) = some after) :
    ∃ op next lock reply, queue.phase id = some (.call op next, lock) ∧
    queue.locks id response = op.locks reply ∧
      (∀ other, other ≠ id → after.phase other = queue.phase other) ∧
      ∀ program lock', after.phase id = some (program, lock') → program = next reply ∧
        ((∀ pipeline fence, op ≠ .startJob pipeline fence) → lock = none → lock' = none) := by
  simp only [Queue.step] at stepped
  split at stepped
  case h_2 => cases stepped
  next handler runs =>
  split at stepped
  case h_2 => cases stepped
  next op next isCall =>
  split at stepped
  case h_2 => cases stepped
  next reply services responded =>
  split at stepped
  case isFalse => cases stepped
  obtain rfl := Option.some.inj stepped
  have isProgram := (advance_payload handler op reply (next reply)).2.2
  refine ⟨op, next, handler.lock, reply, ?_, ?_, ?_, ?_⟩
  · simp [Queue.phase, runs, isCall]
  · simp [Queue.locks, runs, isCall, responded]
  · intro other different
    simp only [Queue.phase, keepRunning]
    split
    · rw [AList.lookup_erase_ne different]
    · rw [AList.lookup_insert_ne different]
  · intro program lock' isPhase
    simp only [Queue.phase, Option.map_eq_some_iff] at isPhase
    obtain ⟨kept, isKept, isPair⟩ := isPhase
    obtain ⟨rfl, rfl⟩ := Prod.mk.inj isPair
    rcases lookup_keepRunning isKept with ⟨_, rfl⟩ | ⟨different, _⟩
    · exact ⟨isProgram, fun unstarted unlocked => advance_lock unstarted unlocked⟩
    · exact absurd rfl different

/-- The handlers of a killed process are gone, the others go on. -/
theorem phase_crashAll (ids : List Nat) (queue : Queue) (other : Nat) :
    (queue.crashAll ids).phase other = if other ∈ ids then none else queue.phase other := by
  induction ids generalizing queue with
  | nil => simp [Queue.crashAll]
  | cons id rest inductionHypothesis =>
    have after := inductionHypothesis { queue with handlers := queue.handlers.erase id }
    have isCrash : queue.crashAll (id :: rest) =
        Queue.crashAll { queue with handlers := queue.handlers.erase id } rest := rfl
    rw [isCrash, after]
    by_cases same : other = id
    · subst same
      simp [Queue.phase]
    · simp only [List.mem_cons, same, false_or, Queue.phase]
      rw [AList.lookup_erase_ne same]

/-- To kill a process is to crash its handlers one after another. -/
theorem crashAll_reaches (ids : List Nat) (queue : Queue) :
    Runs.Reaches (Queue.step settings) (fun _ _ => True) queue (queue.crashAll ids) := by
  induction ids generalizing queue with
  | nil => exact .refl
  | cons id rest inductionHypothesis =>
    exact .head ⟨.crash id, trivial, rfl⟩
      (inductionHypothesis { queue with handlers := queue.handlers.erase id })

end Queues

/-! ## What serving a loop does -/

/-- A loop was served: it went on with its entry, was given a new one, or has handled the one it had. -/
structure Served (settings : QueueSettings) (queue : Queue) (next : Nat) (process : Process) (loop : Loop)
    (reads : Nat) (dues' : Dues) (after : Queue) (process' : Process) (loop' : Loop) : Prop where
  reaches : Runs.Reaches (Queue.step settings) (fun _ _ => True) queue after
  changes : ∃ ok begun, process' = { process with consumerOk := ok, begun := begun } ∧
    ∀ id ∈ begun, id ∈ process.begun ∨ loop'.handling = some id ∧ (after.phase id).isSome = true
  stays : ∃ late handling, loop' = { loop with late := late, handling := handling }
  pending : dues'.pending = loop'.handling.isSome
  late : loop'.late + dues'.reads ≤ loop.late + reads
  early : process.shutdown = false → loop'.late = loop.late
  claims : loop'.handling.isSome = true → loop.handling.isSome = true ∨ loop.kind = .consumer ∨ loop.kind = .reclaimer
  others : ∀ id, loop.handling ≠ some id → loop'.handling ≠ some id → after.phase id = queue.phase id
  mine : ∀ id, loop'.handling = some id → (loop.handling = some id ∧ after.phase id = queue.phase id) ∨
    (loop.handling = none ∧ id = next ∧ ∃ program, Unstarted program ∧ after.phase id = some (program, none))
  kept : ∀ id, loop.handling = some id → loop'.handling = some id ∨ (queue.phase id = none ∧ after.phase id = none)

section Serving

variable {settings : QueueSettings} {queue after : Queue} {next reads : Nat}
  {process process' : Process}
  {loop loop' : Loop} {dues' : Dues}

/-- The handlers are left alone, and so is the loop. -/
theorem served_still (ok : Bool)
    (reaches : Runs.Reaches (Queue.step settings) (fun _ _ => True) queue after)
    (phases : ∀ id, after.phase id = queue.phase id)
    (isDues : dues' = ⟨loop.handling.isSome, reads⟩) :
    Served settings queue next process loop reads dues' after { process with consumerOk := ok }
    loop := by
  subst isDues
  constructor
  · exact reaches
  · exact ⟨_, _, rfl, fun id isBegun => Or.inl isBegun⟩
  · exact ⟨_, _, rfl⟩
  · rfl
  · exact Nat.le_refl _
  · exact fun _ => rfl
  · exact Or.inl
  · exact fun id _ _ => phases id
  · exact fun id handles => Or.inl ⟨handles, phases id⟩
  · exact fun id handles => Or.inl handles

/-- A handler begins for a loop that had none. -/
theorem served_begins {late : Nat}
    (reaches : Runs.Reaches (Queue.step settings) (fun _ _ => True) queue after)
    (begins : Begins queue next after) (free : loop.handling = none)
    (isPending : dues'.pending = true) (isLate : late + dues'.reads ≤ loop.late + reads)
    (early : process.shutdown = false → late = loop.late)
    (claims : loop.kind = .consumer ∨ loop.kind = .reclaimer) :
    Served settings queue next process loop reads dues' after (process.begins next)
      { loop with late := late, handling := some next } := by
  obtain ⟨isNew, ⟨program, unstarted, isFresh⟩, others⟩ := begins
  constructor
  · exact reaches
  · refine ⟨_, _, rfl, ?_⟩
    intro id isBegun
    rcases List.mem_cons.mp isBegun with rfl | before
    · exact Or.inr ⟨rfl, by rw [isFresh]; rfl⟩
    · exact Or.inl before
  · exact ⟨_, _, rfl⟩
  · exact isPending
  · exact isLate
  · exact early
  · exact fun _ => Or.inr claims
  · intro id _ different
    apply others
    rintro rfl
    exact different rfl
  · rintro id ⟨⟩
    exact Or.inr ⟨free, rfl, program, unstarted, isFresh⟩
  · intro id handles
    rw [free] at handles
    cases handles

/-- Whatever a loop waits for. -/
theorem serve_served {op : LoopOp} {given : LoopGiven} {reply : LoopReply op}
    (served : queue.serve settings next process loop op given =
      some (reply, after, process', loop'))
    (moves : LoopMove loop.kind ⟨loop.handling.isSome, reads⟩ op reply dues') :
    Served settings queue next process loop reads dues' after process' loop' := by
  cases op with
  | shutdown | pause =>
    cases given <;>
      simp only [Queue.serve, Option.some.injEq, Prod.mk.injEq, reduceCtorEq] at served
    obtain ⟨-, rfl, rfl, rfl⟩ := served
    exact served_still _ .refl (fun _ => rfl) moves
  | connect | ensureGroup | sweep | fireDue =>
    cases given <;>
      simp only [Queue.serve, Option.some.injEq, Prod.mk.injEq, reduceCtorEq] at served
    obtain ⟨-, rfl, rfl, rfl⟩ := served
    exact served_still _ .refl (fun _ => rfl) moves
  | consumerOk ok =>
    cases given <;>
      simp only [Queue.serve, Option.some.injEq, Prod.mk.injEq, reduceCtorEq] at served
    obtain ⟨-, rfl, rfl, rfl⟩ := served
    exact served_still ok .refl (fun _ => rfl) moves
  | moveDue =>
    cases given with
    | moved now due | movedLost now due error =>
      simp only [Queue.serve] at served
      obtain ⟨moved, isStep, isServed⟩ := Option.map_eq_some_iff.mp served
      simp only [Prod.mk.injEq] at isServed
      obtain ⟨-, rfl, rfl, rfl⟩ := isServed
      exact served_still _ (.single ⟨.move now due, trivial, isStep⟩) (move_phase isStep) moves
    | result result =>
      cases result with
      | ok => cases served
      | error error =>
        simp only [Queue.serve, Option.some.injEq, Prod.mk.injEq] at served
        obtain ⟨-, rfl, rfl, rfl⟩ := served
        exact served_still _ .refl (fun _ => rfl) moves
    | performed | read | readLost | claimed => cases served
  | handleClaimed entry payload =>
    obtain ⟨-, rfl⟩ := moves
    cases given with
    | performed =>
      simp only [Queue.serve] at served
      split at served
      case h_2 => cases served
      next id handles =>
      split at served
      case isFalse => cases served
      next isOver =>
      simp only [Option.some.injEq, Prod.mk.injEq] at served
      obtain ⟨-, rfl, rfl, rfl⟩ := served
      have gone : queue.phase id = none := by
        simp only [Queue.phase, Option.isNone_iff_eq_none.mp isOver, Option.map_none]
      constructor
      · exact .refl
      · exact ⟨_, _, rfl, fun id isBegun => Or.inl isBegun⟩
      · exact ⟨_, _, rfl⟩
      · rfl
      · exact Nat.le_refl _
      · exact fun _ => rfl
      · rintro ⟨⟩
      · exact fun _ _ _ => rfl
      · rintro _ ⟨⟩
      · intro other isOther
        obtain rfl := Option.some.inj (handles.symm.trans isOther)
        exact Or.inr ⟨gone, gone⟩
    | result | read | readLost | claimed | moved | movedLost => cases served
  | readGroup =>
    obtain ⟨isConsumer, free, isReads, isPending⟩ := moves
    have isRead : reads = dues'.reads + 1 := isReads
    have isFree : loop.handling = none := Option.isNone_iff_eq_none.mp (by simpa using free)
    cases given with
    | read =>
      simp only [Queue.serve] at served
      split at served
      case h_2 => cases served
      next item delivered isUnread isStep =>
      simp only [Option.some.injEq, Prod.mk.injEq] at served
      obtain ⟨rfl, rfl, rfl, rfl⟩ := served
      refine served_begins (.single ⟨_, trivial, isStep⟩)
        (deliver_begins isStep) isFree isPending ?_ ?_
        (Or.inl isConsumer)
      · have atMost := Bool.toNat_le process.shutdown
        simp only [Loop.reads]
        omega
      · intro running
        simp [Loop.reads, running]
    | readLost error =>
      simp only [Queue.serve] at served
      split at served
      case h_2 => cases served
      next delivered isStep =>
      obtain ⟨crashed, isCrash, isServed⟩ := Option.map_eq_some_iff.mp served
      simp only [Prod.mk.injEq] at isServed
      obtain ⟨rfl, rfl, rfl, rfl⟩ := isServed
      obtain ⟨isNew, -, others⟩ := deliver_begins isStep
      obtain ⟨gone, others'⟩ := crash_phase isCrash
      have phases : ∀ id, crashed.phase id = queue.phase id := by
        intro id
        by_cases same : id = next
        · rw [same, gone, isNew]
        · rw [others' id same, others id same]
      constructor
      · exact .tail (.single ⟨_, trivial, isStep⟩) ⟨_, trivial, isCrash⟩
      · exact ⟨_, _, rfl, fun id isBegun => Or.inl isBegun⟩
      · exact ⟨_, _, rfl⟩
      · rw [isPending, Loop.reads, isFree]
        rfl
      · have atMost := Bool.toNat_le process.shutdown
        simp only [Loop.reads]
        omega
      · intro running
        simp [Loop.reads, running]
      · exact Or.inl
      · exact fun id _ _ => phases id
      · exact fun id handles => Or.inl ⟨handles, phases id⟩
      · exact fun id handles => Or.inl handles
    | result result =>
      simp only [Queue.serve, Option.some.injEq, Prod.mk.injEq] at served
      obtain ⟨rfl, rfl, rfl, rfl⟩ := served
      have nothing : dues'.pending = false := by
        rw [isPending]
        cases result <;> rfl
      constructor
      · exact .refl
      · exact ⟨_, _, rfl, fun id isBegun => Or.inl isBegun⟩
      · exact ⟨_, _, rfl⟩
      · rw [nothing, isFree]
        rfl
      · omega
      · exact fun _ => rfl
      · exact Or.inl
      · exact fun _ _ _ => rfl
      · exact fun id handles => Or.inl ⟨handles, rfl⟩
      · exact fun id handles => Or.inl handles
    | performed | claimed | moved | movedLost => cases served
  | autoClaim =>
    obtain ⟨isReclaimer, free, rfl⟩ := moves
    have isFree : loop.handling = none := Option.isNone_iff_eq_none.mp (by simpa using free)
    cases given with
    | claimed entry =>
      simp only [Queue.serve] at served
      split at served
      case h_2 => cases served
      next payload claimed isThere isStep =>
      simp only [Option.some.injEq, Prod.mk.injEq] at served
      obtain ⟨rfl, rfl, rfl, rfl⟩ := served
      exact served_begins (.single ⟨_, trivial, isStep⟩) (reclaim_begins isStep) isFree rfl
        (Nat.le_refl _)
        (fun _ => rfl) (Or.inr isReclaimer)
    | result result =>
      simp only [Queue.serve, Option.some.injEq, Prod.mk.injEq] at served
      obtain ⟨rfl, rfl, rfl, rfl⟩ := served
      refine served_still _ .refl (fun _ => rfl) ?_
      rw [isFree]
      cases result <;> rfl
    | performed | read | readLost | moved | movedLost => cases served

end Serving

end KaretWorker
