import KaretWorker.AttemptBound
import KaretWorker.Processes

/-!
# Runs of worker processes

The processes are a way to run the queue, and every handler belongs to one loop of one of them
(`fleet_keeps`). A process counts exactly its handlers that took a lock, which never are more
than its consumers and one. After it was told to shut down, a consumer takes one more entry at
most, and once the process has ended, every handler it began has come to its end.
-/
namespace KaretWorker

open Texts Interaction Indexing

/-! ## What holds throughout a run -/

/-- A loop keeps to its turn and to its one handler, which has not started its job unless it is counted. -/
structure Loop.Sound (queue : Queue) (stopping : Bool) (loop : Loop) : Prop where
  keeps : ∀ program, loop.program = some program → ∃ reads, loop.late + reads ≤ 1 ∧
    LoopKeeps loop.kind stopping program ⟨loop.handling.isSome, reads⟩
  late : loop.late ≤ 1
  early : stopping = false → loop.late = 0
  returned : loop.program = none → loop.handling = none
  claims : loop.handling.isSome = true → loop.kind = .consumer ∨ loop.kind = .reclaimer
  counted : loop.counted = true → ∃ id, loop.handling = some id ∧ (queue.phase id).isSome = true
  handler : ∀ id program lock, loop.handling = some id → queue.phase id = some (program, lock) →
    (loop.counted = false → Unstarted program ∧ lock = none) ∧ (loop.counted = true → program.Calls Op.lockless)

/-- A process counts its counted handlers, and has begun none that got lost. -/
structure Process.Sound (queue : Queue) (process : Process) : Prop where
  loops : ∀ loop ∈ process.loops, loop.Sound queue process.shutdown
  flight : process.inFlight = process.loops.countP Loop.counted
  kinds : process.loops.map Loop.kind = (firstLoops process.concurrency).map Loop.kind
  begun : ∀ id ∈ process.begun, id ∈ process.ended ∨
    ∃ loop ∈ process.loops, loop.handling = some id ∧ (queue.phase id).isSome = true

/-- The loop waits for the handler. -/
def Fleet.Attends (fleet : Fleet) (pid index id : Nat) : Prop :=
  ∃ process loop, fleet.processes.lookup pid = some process ∧ process.loops[index]? = some loop ∧
    loop.handling = some id

/-- Every process is sound, each handler is waited for by one loop, and the processes that exited
left nothing behind. -/
structure Fleet.Sound (fleet : Fleet) : Prop where
  processes : ∀ pid process, fleet.processes.lookup pid = some process → process.Sound fleet.queue
  fresh : ∀ pid index id, fleet.Attends pid index id → id < fleet.nextHandler
  unique : ∀ pid index pid' index' id, fleet.Attends pid index id → fleet.Attends pid' index' id →
    pid' = pid ∧ index' = index
  attended : ∀ id, (fleet.queue.phase id).isSome = true → ∃ pid index, fleet.Attends pid index id
  exited : ∀ process ∈ fleet.exited, process.inFlight = 0 ∧ ∀ id ∈ process.begun, id ∈ process.ended

section Keeping

variable {settings : QueueSettings} {queue after : Queue} {stopping : Bool} {loop loop' : Loop}
  {process process' : Process} {fleet fleet' : Fleet} {pid index id : Nat}

/-- A loop stays sound while its handler is left alone. -/
theorem Loop.Sound.mono (sound : loop.Sound queue stopping)
    (same : ∀ id, loop.handling = some id → after.phase id = queue.phase id) :
    loop.Sound after stopping := by
  obtain ⟨keeps, late, early, returned, claims, counted, handler⟩ := sound
  refine ⟨keeps, late, early, returned, claims, ?_, ?_⟩
  · intro isCounted
    obtain ⟨id, handles, isThere⟩ := counted isCounted
    exact ⟨id, handles, by rw [same id handles]; exact isThere⟩
  · intro id program lock handles isPhase
    rw [same id handles] at isPhase
    exact handler id program lock handles isPhase

/-- A process stays sound while its handlers are left alone. -/
theorem Process.Sound.mono (sound : process.Sound queue)
    (same : ∀ loop ∈ process.loops, ∀ id, loop.handling = some id →
      after.phase id = queue.phase id) :
    process.Sound after := by
  obtain ⟨loops, flight, kinds, begun⟩ := sound
  refine ⟨fun loop member => (loops loop member).mono (same loop member), flight, kinds, ?_⟩
  intro id isBegun
  rcases begun id isBegun with isEnded | ⟨loop, member, handles, isThere⟩
  · exact Or.inl isEnded
  · exact Or.inr ⟨loop, member, handles, by rw [same loop member id handles]; exact isThere⟩

/-- A loop of a process attends to what it handles. -/
theorem attends_of_mem (found : fleet.processes.lookup pid = some process)
    (member : loop ∈ process.loops)
    (handles : loop.handling = some id) : ∃ index, fleet.Attends pid index id := by
  obtain ⟨index, isLoop⟩ := List.mem_iff_getElem?.mp member
  exact ⟨index, process, loop, found, isLoop, handles⟩

/-- Nobody's handler changes hands. -/
theorem Fleet.Sound.same (sound : fleet.Sound)
    (attends : ∀ pid index id, fleet'.Attends pid index id ↔ fleet.Attends pid index id)
    (phases : ∀ id, fleet'.queue.phase id = fleet.queue.phase id)
    (next : fleet'.nextHandler = fleet.nextHandler)
    (processes : ∀ pid process, fleet'.processes.lookup pid = some process →
      process.Sound fleet.queue)
    (exited : ∀ process ∈ fleet'.exited, process.inFlight = 0 ∧ ∀ id ∈ process.begun,
      id ∈ process.ended) :
    fleet'.Sound := by
  constructor
  · exact fun pid process found => (processes pid process found).mono (fun _ _ id _ => phases id)
  · intro pid index id isAttended
    rw [next]
    exact sound.fresh pid index id ((attends pid index id).mp isAttended)
  · intro pid index pid' index' id first second
    exact sound.unique pid index pid' index' id ((attends _ _ _).mp first)
      ((attends _ _ _).mp second)
  · intro id isThere
    rw [phases] at isThere
    obtain ⟨pid, index, isAttended⟩ := sound.attended id isThere
    exact ⟨pid, index, (attends _ _ _).mpr isAttended⟩
  · exact exited

/-- Whom a loop attends to after one loop was replaced. -/
theorem attends_replace {next : Nat} (isLoop : process.loops[index]? = some loop)
    (found : fleet.processes.lookup pid = some process)
    (isLoops : process'.loops = process.loops.set index loop') (pid' index' id : Nat) :
    Fleet.Attends ⟨after, fleet.processes.insert pid process', next, fleet.exited⟩ pid' index' id ↔
      (pid' = pid ∧ index' = index ∧ loop'.handling = some id) ∨
        (¬ (pid' = pid ∧ index' = index) ∧ fleet.Attends pid' index' id) := by
  obtain ⟨isBound, _⟩ := List.getElem?_eq_some_iff.mp isLoop
  unfold Fleet.Attends
  by_cases same : pid' = pid
  · subst same
    simp only [AList.lookup_insert, Option.some.injEq, exists_and_left, exists_eq_left',
      isLoops, found]
    by_cases sameIndex : index' = index
    · subst sameIndex
      simp [List.getElem?_set_self isBound]
    · simp [List.getElem?_set_ne (Ne.symm sameIndex), sameIndex]
  · simp [AList.lookup_insert_ne same, same]

/-- One loop is served or its handler takes a step. -/
theorem Fleet.Sound.replace (sound : fleet.Sound) (loop' : Loop) {next : Nat}
    (found : fleet.processes.lookup pid = some process)
    (isLoop : process.loops[index]? = some loop)
    (isLoops : process'.loops = process.loops.set index loop')
    (others : ∀ id, loop.handling ≠ some id → loop'.handling ≠ some id →
      after.phase id = fleet.queue.phase id)
    (mine : ∀ id, loop'.handling = some id → loop.handling = some id ∨
      (id = fleet.nextHandler ∧ id < next))
    (grows : fleet.nextHandler ≤ next)
    (kept : ∀ id, loop.handling = some id → loop'.handling = some id ∨ after.phase id = none)
    (shutdown : process'.shutdown = process.shutdown)
    (concurrency : process'.concurrency = process.concurrency)
    (kind : loop'.kind = loop.kind) (isSound : loop'.Sound after process.shutdown)
    (flight : process'.inFlight = (process.loops.set index loop').countP Loop.counted)
    (begun : ∀ id ∈ process'.begun, id ∈ process.begun ∨ loop'.handling = some id ∧
      (after.phase id).isSome = true)
    (ended : ∀ id ∈ process.ended, id ∈ process'.ended)
    (finished : ∀ id, loop.handling = some id → (fleet.queue.phase id).isSome = true →
      (loop'.handling = some id ∧ (after.phase id).isSome = true) ∨ id ∈ process'.ended) :
    Fleet.Sound ⟨after, fleet.processes.insert pid process', next, fleet.exited⟩ := by
  obtain ⟨processes, fresh, unique, attended, exited⟩ := sound
  obtain ⟨isBound, isThis⟩ := List.getElem?_eq_some_iff.mp isLoop
  have attends : ∀ pid' index' id,
    Fleet.Attends ⟨after, fleet.processes.insert pid process', next, fleet.exited⟩
      pid' index' id ↔ (pid' = pid ∧ index' = index ∧ loop'.handling = some id) ∨
        (¬ (pid' = pid ∧ index' = index) ∧ fleet.Attends pid' index' id) :=
          attends_replace isLoop found isLoops
  have same : ∀ pid' index' id, ¬ (pid' = pid ∧ index' = index) → fleet.Attends pid' index' id →
      after.phase id = fleet.queue.phase id := by
    intro pid' index' id elsewhere isAttended
    have notMine : loop.handling ≠ some id := fun handles =>
      elsewhere (unique pid index pid' index' id ⟨process, loop, found, isLoop, handles⟩ isAttended)
    refine others id notMine ?_
    intro handles
    rcases mine id handles with before | ⟨rfl, _⟩
    · exact notMine before
    · exact absurd (fresh _ _ _ isAttended) (Nat.lt_irrefl _)
  obtain ⟨loops, _, kinds, begun'⟩ := processes pid process found
  constructor
  · intro pid' other lookup
    rcases lookup_of_insert lookup with ⟨rfl, rfl⟩ | ⟨different, before⟩
    · constructor
      · rw [isLoops, shutdown]
        intro loop'' member
        obtain ⟨index', isIndex⟩ := List.mem_iff_getElem?.mp member
        by_cases sameIndex : index' = index
        · subst sameIndex
          rw [List.getElem?_set_self isBound] at isIndex
          obtain rfl := Option.some.inj isIndex
          exact isSound
        · rw [List.getElem?_set_ne (Ne.symm sameIndex)] at isIndex
          exact (loops loop'' (List.mem_of_getElem? isIndex)).mono (fun id handles =>
            same pid' index' id (fun both => sameIndex both.2)
              ⟨process, loop'', found, isIndex, handles⟩)
      · rw [isLoops]
        exact flight
      · rw [isLoops, concurrency, ← kinds, List.map_set, kind]
        apply List.ext_getElem?
        intro index'
        by_cases sameIndex : index = index'
        · subst sameIndex
          simp [isBound, isThis]
        · rw [List.getElem?_set_ne sameIndex]
      · intro id isBegun
        have here : loop'.handling = some id ∧ (after.phase id).isSome = true → id ∈ other.ended ∨
            ∃ loop ∈ other.loops, loop.handling = some id ∧ (after.phase id).isSome = true := by
          intro isHere
          rw [isLoops]
          exact Or.inr ⟨loop', List.mem_set isBound loop', isHere⟩
        rcases begun id isBegun with before | isHere
        · rcases begun' id before with isEnded | ⟨loop'', member, handles, isThere⟩
          · exact Or.inl (ended id isEnded)
          · obtain ⟨index', isIndex⟩ := List.mem_iff_getElem?.mp member
            by_cases sameIndex : index' = index
            · subst sameIndex
              obtain rfl := Option.some.inj (isLoop.symm.trans isIndex)
              rcases finished id handles isThere with isHere | isEnded
              · exact here isHere
              · exact Or.inl isEnded
            · refine Or.inr ⟨loop'', ?_, handles, ?_⟩
              · rw [isLoops]
                exact List.mem_of_getElem?
                  ((List.getElem?_set_ne (Ne.symm sameIndex)).trans isIndex)
              · rw [same pid' index' id (fun both => sameIndex both.2)
                  ⟨process, loop'', found, isIndex, handles⟩]
                exact isThere
        · exact here isHere
    · refine (processes pid' other before).mono ?_
      intro loop'' member id handles
      obtain ⟨index', isAttended⟩ := attends_of_mem before member handles
      exact same pid' index' id (fun both => different both.1) isAttended
  · intro pid' index' id isAttended
    rcases (attends pid' index' id).mp isAttended with ⟨_, _, handles⟩ | ⟨_, before⟩
    · rcases mine id handles with before | ⟨_, isLess⟩
      · exact Nat.lt_of_lt_of_le (fresh pid index id ⟨process, loop, found, isLoop, before⟩) grows
      · exact isLess
    · exact Nat.lt_of_lt_of_le (fresh pid' index' id before) grows
  · have here : ∀ pid' index' id, loop'.handling = some id → ¬ (pid' = pid ∧ index' = index) →
        ¬ fleet.Attends pid' index' id := by
      intro pid' index' id handles elsewhere isAttended
      rcases mine id handles with before | ⟨rfl, _⟩
      · exact elsewhere
          (unique pid index pid' index' id ⟨process, loop, found, isLoop, before⟩ isAttended)
      · exact absurd (fresh _ _ _ isAttended) (Nat.lt_irrefl _)
    intro pid' index' pid'' index'' id first second
    rcases (attends pid' index' id).mp first with ⟨rfl, rfl, handles⟩ | ⟨elsewhere, before⟩
    · rcases (attends pid'' index'' id).mp second with ⟨rfl, rfl, _⟩ | ⟨elsewhere, before⟩
      · exact ⟨rfl, rfl⟩
      · exact absurd before (here _ _ _ handles elsewhere)
    · rcases (attends pid'' index'' id).mp second with ⟨rfl, rfl, handles⟩ | ⟨_, before'⟩
      · exact absurd before (here _ _ _ handles elsewhere)
      · exact unique pid' index' pid'' index'' id before before'
  · intro id isThere
    have isThere' : (after.phase id).isSome = true := isThere
    by_cases handles : loop'.handling = some id
    · exact ⟨pid, index, (attends pid index id).mpr (Or.inl ⟨rfl, rfl, handles⟩)⟩
    · have notMine : loop.handling ≠ some id := by
        intro before
        rcases kept id before with still | gone
        · exact handles still
        · rw [gone] at isThere'
          cases isThere'
      rw [others id notMine handles] at isThere'
      obtain ⟨pid', index', isAttended⟩ := attended id isThere'
      refine ⟨pid', index', (attends pid' index' id).mpr (Or.inr ⟨?_, isAttended⟩)⟩
      rintro ⟨rfl, rfl⟩
      obtain ⟨process', loop'', found', isLoop', before⟩ := isAttended
      obtain rfl := Option.some.inj (found.symm.trans found')
      obtain rfl := Option.some.inj (isLoop.symm.trans isLoop')
      exact notMine before
  · exact exited

/-- A turn leaves the loop of its kind. -/
@[simp] theorem goesOn_kind (loop : Loop) (rest : Looping (Option LoopState)) :
    (loop.goesOn rest).kind = loop.kind := by
  unfold Loop.goesOn
  split <;> rfl

/-- A turn leaves the handler it waits for. -/
@[simp] theorem goesOn_handling (loop : Loop) (rest : Looping (Option LoopState)) :
    (loop.goesOn rest).handling = loop.handling := by
  unfold Loop.goesOn
  split <;> rfl

/-- A turn leaves whether that one is counted. -/
@[simp] theorem goesOn_counted (loop : Loop) (rest : Looping (Option LoopState)) :
    (loop.goesOn rest).counted = loop.counted := by
  unfold Loop.goesOn
  split <;> rfl

/-- A turn leaves the number of late reads. -/
@[simp] theorem goesOn_late (loop : Loop) (rest : Looping (Option LoopState)) :
    (loop.goesOn rest).late = loop.late := by
  unfold Loop.goesOn
  split <;> rfl

/-- A loop that was served keeps the handler it has under way. -/
theorem Served.stands {next reads : Nat} {dues' : Dues}
    (served : Served settings queue next process loop reads dues' after process' loop')
    (handles : loop.handling = some id) (isThere : (queue.phase id).isSome = true) :
    loop'.handling = some id ∧ (after.phase id).isSome = true := by
  rcases served.kept id handles with still | ⟨gone, _⟩
  · refine ⟨still, ?_⟩
    rcases served.mine id still with ⟨_, same⟩ | ⟨free, _⟩
    · rw [same]
      exact isThere
    · rw [free] at handles
      cases handles
  · rw [gone] at isThere
    cases isThere

/-- A loop that was served goes on soundly, in its turn or in the next. -/
theorem Served.sound {next reads : Nat} {dues' : Dues} {rest : Looping (Option LoopState)}
    (served : Served settings queue next process loop reads dues' after process' loop')
    (isSound : loop.Sound queue process.shutdown) (bound : loop.late + reads ≤ 1)
    (keeps : LoopKeeps loop.kind process.shutdown rest dues') :
    (loop'.goesOn rest).Sound after process.shutdown := by
  obtain ⟨late, handling, isLoop⟩ := served.stays
  have isKind : loop'.kind = loop.kind := by rw [isLoop]
  have sameCount : loop'.counted = loop.counted := by rw [isLoop]
  have isLate := served.late
  have notYet : process.shutdown = false → loop'.late = 0 := fun running =>
    (served.early running).trans (isSound.early running)
  constructor
  · intro program isProgram
    rw [goesOn_late, goesOn_kind, goesOn_handling, isKind, ← served.pending]
    cases rest with
    | call op next =>
      obtain rfl := Option.some.inj isProgram
      exact ⟨dues'.reads, by omega, keeps⟩
    | done state =>
      obtain ⟨nothing, sameKind⟩ := keeps
      cases state with
      | none => cases isProgram
      | some state =>
        obtain rfl := Option.some.inj isProgram
        refine ⟨turnReads process.shutdown, ?_, ?_⟩
        · cases stops : process.shutdown with
          | true =>
            simp only [turnReads, ↓reduceIte]
            omega
          | false =>
            rw [notYet stops]
            exact Nat.le_refl _
        · rw [← sameKind state rfl, nothing]
          exact turn_keeps state process.shutdown
  · rw [goesOn_late]
    omega
  · rw [goesOn_late]
    exact notYet
  · intro isOver
    cases rest with
    | call op next => cases isOver
    | done state =>
      cases state with
      | some state => cases isOver
      | none =>
        rw [goesOn_handling]
        exact Option.isNone_iff_eq_none.mp (by simpa [keeps.1] using served.pending.symm)
  · rw [goesOn_handling, goesOn_kind, isKind]
    intro handles
    rcases served.claims handles with before | isClaimer
    · exact isSound.claims before
    · exact isClaimer
  · rw [goesOn_counted, goesOn_handling, sameCount]
    intro wasCounted
    obtain ⟨id, handles, isThere⟩ := isSound.counted wasCounted
    exact ⟨id, served.stands handles isThere⟩
  · intro id program lock
    rw [goesOn_handling, goesOn_counted, sameCount]
    intro handles isPhase
    rcases served.mine id handles with ⟨before, same⟩ | ⟨free, rfl, fresh, unstarted, isFresh⟩
    · rw [same] at isPhase
      exact isSound.handler id program lock before isPhase
    · rw [isFresh] at isPhase
      obtain ⟨rfl, rfl⟩ := Prod.mk.inj (Option.some.inj isPhase)
      refine ⟨fun _ => ⟨unstarted, rfl⟩, ?_⟩
      intro wasCounted
      obtain ⟨other, handles', -⟩ := isSound.counted wasCounted
      rw [free] at handles'
      cases handles'

/-- A loop that looks at the shutdown is told of it. -/
theorem serve_tells {next : Nat} {op : LoopOp} {given : LoopGiven} {reply : LoopReply op}
    (served : queue.serve settings next process loop op given =
      some (reply, after, process', loop')) :
    Tells process.shutdown op reply := by
  cases op with
  | shutdown =>
    cases given <;>
      simp only [Queue.serve, Option.some.injEq, Prod.mk.injEq, reduceCtorEq] at served
    obtain ⟨rfl, -⟩ := served
    exact id
  | _ => trivial

/-- What is counted after one loop was replaced. -/
theorem countP_replace (p : Loop → Bool) {loops : List Loop} (loop' : Loop)
    (isLoop : loops[index]? = some loop) :
    (loops.set index loop').countP p + (p loop).toNat = loops.countP p + (p loop').toNat := by
  obtain ⟨isBound, isThis⟩ := List.getElem?_eq_some_iff.mp isLoop
  have atLeast : (p loop).toNat ≤ loops.countP p := by
    cases counts : p loop with
    | false => exact Nat.zero_le _
    | true => exact List.countP_pos_iff.mpr ⟨loop, List.mem_of_getElem? isLoop, counts⟩
  rw [List.countP_set isBound, isThis]
  cases counts : p loop <;> cases counts' : p loop' <;> simp_all

/-- A loop is served. -/
theorem Fleet.Sound.serve (sound : fleet.Sound) {op : LoopOp}
    {next : LoopReply op → Looping (Option LoopState)}
    {given : LoopGiven} {reply : LoopReply op} (found : fleet.processes.lookup pid = some process)
    (isLoop : process.loops[index]? = some loop) (isProgram : loop.program = some (.call op next))
    (served : fleet.queue.serve settings fleet.nextHandler process loop op given =
      some (reply, after, process', loop')) :
    Fleet.Sound ⟨after, fleet.processes.insert pid { process' with
        loops := process'.loops.set index (loop'.goesOn (next reply)) }, fleet.nextHandler + 1,
          fleet.exited⟩ ∧
      Runs.Reaches (Queue.step settings) (fun _ _ => True) fleet.queue after := by
  have isSound := (sound.processes pid process found).loops loop (List.mem_of_getElem? isLoop)
  obtain ⟨reads, bound, keeps⟩ := isSound.keeps _ isProgram
  obtain ⟨dues', moves, rest⟩ := keeps reply (serve_tells served)
  have isServed := serve_served served moves
  obtain ⟨ok, begun, isProcess, areBegun⟩ := isServed.changes
  obtain ⟨late, handling, isAfter⟩ := isServed.stays
  have sameCount : loop'.counted = loop.counted := by rw [isAfter]
  have isKind : loop'.kind = loop.kind := by rw [isAfter]
  refine ⟨?_, isServed.reaches⟩
  subst isProcess
  refine sound.replace (loop'.goesOn (next reply)) found isLoop rfl ?_ ?_ (Nat.le_succ _) ?_ rfl rfl
    ?_ ?_ ?_ ?_ ?_ ?_
  · rw [goesOn_handling]
    exact isServed.others
  · rw [goesOn_handling]
    intro id handles
    rcases isServed.mine id handles with ⟨before, _⟩ | ⟨_, isNext, _⟩
    · exact Or.inl before
    · exact Or.inr ⟨isNext, by omega⟩
  · rw [goesOn_handling]
    intro id handles
    exact (isServed.kept id handles).imp_right And.right
  · rw [goesOn_kind, isKind]
  · exact isServed.sound isSound bound rest
  · have counts := countP_replace Loop.counted (loop'.goesOn (next reply)) isLoop
    rw [goesOn_counted, sameCount] at counts
    have flight := (sound.processes pid process found).flight
    show process.inFlight = _
    omega
  · rw [goesOn_handling]
    exact areBegun
  · exact fun _ => id
  · rw [goesOn_handling]
    intro id handles isThere
    exact Or.inl (isServed.stands handles isThere)

/-- A handler takes a step. -/
theorem Fleet.Sound.answer (sound : fleet.Sound) {response : Response}
    (found : fleet.processes.lookup pid = some process) (isLoop : process.loops[index]? = some loop)
    (handles : loop.handling = some id)
    (stepped : fleet.queue.step settings (.answer id response) = some after) :
    Fleet.Sound
      ⟨after, fleet.processes.insert pid
        (process.answered index loop id (fleet.queue.locks id response)
      (after.handlers.lookup id).isNone), fleet.nextHandler, fleet.exited⟩ := by
  obtain ⟨op, next, lock, reply, isPhase, isLock, others, goesOn⟩ := answer_phase stepped
  have isSound := (sound.processes pid process found).loops loop (List.mem_of_getElem? isLoop)
  obtain ⟨uncounted, counted⟩ := isSound.handler id _ lock handles isPhase
  have isEnd : (after.handlers.lookup id).isNone = !(after.phase id).isSome := by
    rw [Queue.phase, Option.isSome_map, Option.not_isSome]
  rw [isLock, isEnd]
  have once : loop.counted = true → op.locks reply = false :=
    fun wasCounted => locks_lockless (counted wasCounted).1
  have mine : ∀ other, loop.handling = some other → other = id := fun other isOther =>
    Option.some.inj (isOther.symm.trans handles)
  refine sound.replace { loop with
    counted := (loop.counted || op.locks reply) && !!(after.phase id).isSome } found isLoop rfl ?_
      ?_ (Nat.le_refl _)
    ?_ rfl rfl rfl ?_ ?_ ?_ ?_ ?_
  · intro other different _
    apply others
    rintro rfl
    exact different handles
  · exact fun other isOther => Or.inl isOther
  · exact fun other isOther => Or.inl isOther
  · constructor
    · exact isSound.keeps
    · exact isSound.late
    · exact isSound.early
    · exact isSound.returned
    · exact isSound.claims
    · intro isCounted
      simp only [Bool.not_not, Bool.and_eq_true] at isCounted
      exact ⟨id, handles, isCounted.2⟩
    · intro other program lock' isOther isPhase'
      obtain rfl := mine other isOther
      obtain ⟨rfl, sameLock⟩ := goesOn program lock' isPhase'
      simp only [isPhase', Option.isSome_some, Bool.not_true, Bool.not_false, Bool.and_true,
        Bool.or_eq_false_iff,
        Bool.or_eq_true]
      constructor
      · rintro ⟨wasUncounted, unlocked⟩
        obtain ⟨⟨unstarted, continues⟩, hadNone⟩ := uncounted wasUncounted
        exact ⟨(continues reply).1 unlocked, sameLock unstarted hadNone⟩
      · rintro (wasCounted | locked)
        · exact (counted wasCounted).2 reply
        · cases was : loop.counted with
          | true =>
            rw [once was] at locked
            cases locked
          | false => exact ((uncounted was).1.2 reply).2 locked
  · have counts := countP_replace Loop.counted { loop with
      counted := (loop.counted || op.locks reply) && !!(after.phase id).isSome } isLoop
    have flight := (sound.processes pid process found).flight
    have atLeast : loop.counted.toNat ≤ process.loops.countP Loop.counted := by
      cases was : loop.counted with
      | false => exact Nat.zero_le _
      | true => exact List.countP_pos_iff.mpr ⟨loop, List.mem_of_getElem? isLoop, was⟩
    show process.inFlight + (op.locks reply).toNat -
      (!(after.phase id).isSome && (loop.counted || op.locks reply)).toNat = _
    cases was : loop.counted with
    | true =>
      rw [once was]
      rw [was, once was] at counts
      rw [was] at atLeast
      cases ends : (after.phase id).isSome <;> simp [ends] at counts atLeast ⊢ <;> omega
    | false =>
      rw [was] at counts
      cases locks : op.locks reply <;> cases ends : (after.phase id).isSome <;>
        simp [ends, locks] at counts ⊢ <;> omega
  · exact fun other isBegun => Or.inl isBegun
  · intro other isEnded
    simp only [Process.answered]
    split
    · exact List.mem_cons_of_mem _ isEnded
    · exact isEnded
  · intro other isOther _
    obtain rfl := mine other isOther
    cases ends : (after.phase other).isSome with
    | true => exact Or.inl ⟨handles, rfl⟩
    | false => exact Or.inr List.mem_cons_self

/-- Loops start sound, with no handler. -/
theorem firstLoops_sound {concurrency : Nat} {loop : Loop} (member : loop ∈ firstLoops concurrency)
    (queue : Queue) :
    loop.handling = none ∧ loop.counted = false ∧ loop.Sound queue false := by
  have isFirst : ∃ state, loop = .first state := by
    rcases List.mem_append.mp member with isConsumer | isOther
    · exact ⟨_, List.eq_of_mem_replicate isConsumer⟩
    · simp only [List.mem_cons, List.not_mem_nil, or_false] at isOther
      rcases isOther with rfl | rfl | rfl <;> exact ⟨_, rfl⟩
  obtain ⟨state, rfl⟩ := isFirst
  refine ⟨rfl, rfl, ?_⟩
  constructor
  · rintro _ ⟨⟩
    exact ⟨1, Nat.le_refl _, turn_keeps state false⟩
  · exact Nat.zero_le _
  · exact fun _ => rfl
  · rintro ⟨⟩
  · rintro ⟨⟩
  · rintro ⟨⟩
  · rintro _ _ _ ⟨⟩

/-- A process that starts. -/
theorem Fleet.Sound.start (sound : fleet.Sound) (worker : Text) (concurrency : Nat)
    (isNew : fleet.processes.lookup pid = none) :
    Fleet.Sound
      { fleet with processes := fleet.processes.insert pid (.start worker concurrency) } := by
  refine sound.same ?_ (fun _ => rfl) rfl ?_ sound.exited
  · intro pid' index id
    unfold Fleet.Attends
    by_cases same : pid' = pid
    · subst same
      simp only [AList.lookup_insert, Option.some.injEq, exists_and_left, exists_eq_left', isNew,
        reduceCtorEq,
        false_and, exists_false, iff_false]
      rintro ⟨loop, isLoop, handles⟩
      rw [(firstLoops_sound (List.mem_of_getElem? isLoop) fleet.queue).1] at handles
      cases handles
    · simp only [AList.lookup_insert_ne same]
  · intro pid' process lookup
    rcases lookup_of_insert lookup with ⟨_, rfl⟩ | ⟨_, before⟩
    · constructor
      · exact fun loop member => (firstLoops_sound member fleet.queue).2.2
      · exact (List.countP_eq_zero.mpr (fun loop member => by
          simp [(firstLoops_sound member fleet.queue).2.1])).symm
      · rfl
      · intro id isBegun
        cases isBegun
    · exact sound.processes pid' process before

/-- A process that is told to shut down. -/
theorem Fleet.Sound.stop (sound : fleet.Sound) (found : fleet.processes.lookup pid = some process) :
    Fleet.Sound
      { fleet with processes := fleet.processes.insert pid { process with shutdown := true } } := by
  refine sound.same ?_ (fun _ => rfl) rfl ?_ sound.exited
  · intro pid' index id
    unfold Fleet.Attends
    by_cases same : pid' = pid
    · subst same
      simp [AList.lookup_insert, found]
    · simp only [AList.lookup_insert_ne same]
  · intro pid' process' lookup
    rcases lookup_of_insert lookup with ⟨_, rfl⟩ | ⟨_, before⟩
    · obtain ⟨loops, flight, kinds, begun⟩ := sound.processes pid process found
      refine ⟨fun loop member => ?_, flight, kinds, begun⟩
      obtain ⟨keeps, late, early, returned, claims, counted, handler⟩ := loops loop member
      refine ⟨fun program isProgram => ?_, late, ?_, returned, claims, counted, handler⟩
      · obtain ⟨reads, bound, keeps⟩ := keeps program isProgram
        refine ⟨reads, bound, ?_⟩
        cases stops : process.shutdown with
        | true =>
          rw [stops] at keeps
          exact keeps
        | false =>
          rw [stops] at keeps
          exact keeps.stop
      · rintro ⟨⟩
    · exact sound.processes pid' process' before

/-- A process whose loops have returned ends. -/
theorem Fleet.Sound.exit (sound : fleet.Sound) (found : fleet.processes.lookup pid = some process)
    (returned : ∀ loop ∈ process.loops, loop.program = none) :
    Fleet.Sound
      { fleet with processes := fleet.processes.erase pid, exited := process :: fleet.exited } := by
  obtain ⟨loops, flight, kinds, begun⟩ := sound.processes pid process found
  have idle : ∀ loop ∈ process.loops, loop.handling = none := fun loop member =>
    (loops loop member).returned (returned loop member)
  refine sound.same ?_ (fun _ => rfl) rfl ?_ ?_
  · intro pid' index id
    unfold Fleet.Attends
    by_cases same : pid' = pid
    · subst same
      simp only [AList.lookup_erase, reduceCtorEq, false_and, exists_false, false_iff]
      rintro ⟨process', loop, found', isLoop, handles⟩
      obtain rfl := Option.some.inj (found.symm.trans found')
      rw [idle loop (List.mem_of_getElem? isLoop)] at handles
      cases handles
    · simp only [AList.lookup_erase_ne same]
  · exact fun pid' process' lookup => sound.processes pid' process' (lookup_of_erase lookup).2
  · refine List.forall_mem_cons.mpr ⟨⟨?_, ?_⟩, sound.exited⟩
    · rw [flight, List.countP_eq_zero]
      intro loop member isCounted
      obtain ⟨id, handles, -⟩ := (loops loop member).counted isCounted
      rw [idle loop member] at handles
      cases handles
    · intro id isBegun
      rcases begun id isBegun with isEnded | ⟨loop, member, handles, -⟩
      · exact isEnded
      · rw [idle loop member] at handles
        cases handles

/-- A process that dies, with its handlers. -/
theorem Fleet.Sound.kill (sound : fleet.Sound) (found : fleet.processes.lookup pid = some process) :
    Fleet.Sound { fleet with
      queue := fleet.queue.crashAll (process.loops.filterMap Loop.handling)
      processes := fleet.processes.erase pid } := by
  obtain ⟨processes, fresh, unique, attended, exited⟩ := sound
  have attends : ∀ pid' index id, Fleet.Attends { fleet with
      queue := fleet.queue.crashAll (process.loops.filterMap Loop.handling)
      processes := fleet.processes.erase pid } pid' index id → pid' ≠ pid ∧
        fleet.Attends pid' index id := by
    rintro pid' index id ⟨process', loop, lookup, isLoop, handles⟩
    obtain ⟨different, before⟩ := lookup_of_erase lookup
    exact ⟨different, process', loop, before, isLoop, handles⟩
  have spared : ∀ pid' index id, pid' ≠ pid → fleet.Attends pid' index id →
      id ∉ process.loops.filterMap Loop.handling := by
    intro pid' index id different isAttended taken
    obtain ⟨loop, member, handles⟩ := List.mem_filterMap.mp taken
    obtain ⟨index', isMine⟩ := attends_of_mem found member handles
    exact different (unique pid index' pid' index id isMine isAttended).1
  constructor
  · intro pid' process' lookup
    obtain ⟨different, before⟩ := lookup_of_erase lookup
    refine (processes pid' process' before).mono ?_
    intro loop member id handles
    obtain ⟨index, isAttended⟩ := attends_of_mem before member handles
    rw [phase_crashAll, if_neg (spared pid' index id different isAttended)]
  · exact fun pid' index id isAttended => fresh pid' index id (attends pid' index id isAttended).2
  · exact fun pid' index pid'' index' id first second =>
      unique pid' index pid'' index' id (attends _ _ _ first).2 (attends _ _ _ second).2
  · intro id isThere
    rw [phase_crashAll] at isThere
    split at isThere
    · cases isThere
    · next isSpared =>
      obtain ⟨pid', index, process', loop, before, isLoop, handles⟩ := attended id isThere
      have different : pid' ≠ pid := by
        rintro rfl
        obtain rfl := Option.some.inj (found.symm.trans before)
        exact isSpared (List.mem_filterMap.mpr ⟨loop, List.mem_of_getElem? isLoop, handles⟩)
      exact ⟨pid', index, process', loop, (AList.lookup_erase_ne different).trans before,
        isLoop, handles⟩
  · exact exited

/-- One step keeps it, and is taken by steps of the queue. -/
theorem Fleet.Sound.step (sound : fleet.Sound) {action : FleetAction}
    (stepped : fleet.step settings action = some fleet') :
    fleet'.Sound ∧ Runs.Reaches (Queue.step settings)
    (fun _ _ => True) fleet.queue fleet'.queue := by
  cases action with
  | start pid worker concurrency =>
    simp only [Fleet.step] at stepped
    split at stepped
    case h_2 => cases stepped
    next isNew =>
    obtain rfl := Option.some.inj stepped
    exact ⟨sound.start worker concurrency isNew, .refl⟩
  | shutdown pid =>
    obtain ⟨process, found, rfl⟩ := Option.map_eq_some_iff.mp stepped
    exact ⟨sound.stop found, .refl⟩
  | loop pid index given =>
    simp only [Fleet.step] at stepped
    split at stepped
    case h_2 => cases stepped
    next process found =>
    split at stepped
    case h_2 => cases stepped
    next loop isLoop =>
    split at stepped
    case h_2 => cases stepped
    next op next isProgram =>
    split at stepped
    case h_2 => cases stepped
    next reply after process' loop' served =>
    obtain rfl := Option.some.inj stepped
    exact sound.serve found isLoop isProgram served
  | answer pid index response =>
    simp only [Fleet.step] at stepped
    split at stepped
    case h_2 => cases stepped
    next process found =>
    split at stepped
    case h_2 => cases stepped
    next loop isLoop =>
    split at stepped
    case h_2 => cases stepped
    next id isProgram handles =>
    obtain ⟨after, isStep, rfl⟩ := Option.map_eq_some_iff.mp stepped
    exact ⟨sound.answer found isLoop handles isStep, .single ⟨_, trivial, isStep⟩⟩
  | queue action =>
    simp only [Fleet.step] at stepped
    split at stepped
    case isFalse => cases stepped
    next isOutside =>
    obtain ⟨after, isStep, rfl⟩ := Option.map_eq_some_iff.mp stepped
    refine ⟨sound.same (fun _ _ _ => Iff.rfl) (outside_phase isOutside isStep) rfl sound.processes
      sound.exited, ?_⟩
    exact .single ⟨action, trivial, isStep⟩
  | exit pid =>
    simp only [Fleet.step] at stepped
    split at stepped
    case h_2 => cases stepped
    next process found =>
    split at stepped
    case isFalse => cases stepped
    next isOver =>
    obtain rfl := Option.some.inj stepped
    simp only [Bool.and_eq_true, List.all_eq_true, Option.isNone_iff_eq_none] at isOver
    exact ⟨sound.exit found isOver.2, .refl⟩
  | kill pid =>
    obtain ⟨process, found, rfl⟩ := Option.map_eq_some_iff.mp stepped
    exact ⟨sound.kill found, crashAll_reaches _ _⟩

/-- Only consumers and the reclaimer have handlers. -/
theorem Process.Sound.bounded (sound : process.Sound queue) :
    process.inFlight ≤ max process.concurrency 1 + 1 := by
  have claimers : (process.loops.map Loop.kind).countP
    (fun kind => kind = .consumer ∨ kind = .reclaimer) =
      max process.concurrency 1 + 1 := by
    rw [sound.kinds]
    simp [firstLoops, Loop.first, LoopState.kind, List.countP_append, List.countP_replicate,
      List.map_replicate]
  rw [sound.flight, ← claimers, List.countP_map]
  apply List.countP_mono_left
  intro loop member isCounted
  obtain ⟨id, handles, -⟩ := (sound.loops loop member).counted isCounted
  simpa using (sound.loops loop member).claims (by rw [handles]; rfl)

/-- What is said of a process under way. -/
structure Process.Steady (queue : Queue) (process : Process) : Prop where
  flight : process.inFlight = process.loops.countP Loop.counted
  bounded : process.inFlight ≤ max process.concurrency 1 + 1
  counts : ∀ loop ∈ process.loops, ∀ id handler, loop.handling = some id →
    queue.handlers.lookup id = some handler → handler.lock.isSome = true → loop.counted = true
  late : ∀ loop ∈ process.loops, loop.late ≤ 1

/-- A sound process counts, bounds its count, and reads at most once late. -/
theorem Process.Sound.steady (sound : process.Sound queue) : process.Steady queue := by
  refine ⟨sound.flight, sound.bounded, ?_, fun loop member => (sound.loops loop member).late⟩
  intro loop member id handler handles runs locked
  cases isCounted : loop.counted with
  | true => rfl
  | false =>
    have isPhase : queue.phase id = some (handler.program, handler.lock) := by
      rw [Queue.phase, runs]
      rfl
    obtain ⟨-, unlocked⟩ := ((sound.loops loop member).handler id _ _ handles isPhase).1 isCounted
    rw [unlocked] at locked
    cases locked

/-- In every run of any processes over one queue, the queue takes a run of its own, each of its
handlers belongs to exactly one loop of one process, a process under way is steady, and one that
has ended counts none and has seen every handler it began to its end. -/
theorem fleet_keeps (settings : QueueSettings) (rows : AList (fun _ : Text => JobRow)) {fleet : Fleet}
    (reached : Runs.Reaches (Fleet.step settings) (fun _ _ => True) (Fleet.initial rows) fleet) :
    Runs.Reaches (Queue.step settings) (fun _ _ => True) (Queue.initial rows) fleet.queue ∧
    (∀ id handler, fleet.queue.handlers.lookup id = some handler →
      ∃! place : Nat × Nat, fleet.Attends place.1 place.2 id) ∧
    (∀ pid process, fleet.processes.lookup pid = some process → process.Steady fleet.queue) ∧
    ∀ process ∈ fleet.exited, process.inFlight = 0 ∧ ∀ id ∈ process.begun, id ∈ process.ended := by
  have keeps : fleet.Sound ∧
      Runs.Reaches (Queue.step settings) (fun _ _ => True) (Queue.initial rows) fleet.queue := by
    refine reached.invariant (fun fleet => fleet.Sound ∧
      Runs.Reaches (Queue.step settings) (fun _ _ => True) (Queue.initial rows) fleet.queue) ?_ ?_
    · refine ⟨?_, .refl⟩
      constructor <;> simp [Fleet.initial, Fleet.Attends, Queue.initial, Queue.phase]
    · rintro before action after ⟨sound, reaches⟩ _ stepped
      obtain ⟨sound', further⟩ := sound.step stepped
      exact ⟨sound', reaches.trans further⟩
  obtain ⟨sound, reaches⟩ := keeps
  refine ⟨reaches, ?_, fun pid process found => (sound.processes pid process found).steady,
    sound.exited⟩
  intro id handler runs
  have isThere : (fleet.queue.phase id).isSome = true := by
    rw [Queue.phase, runs]
    rfl
  obtain ⟨pid, index, isAttended⟩ := sound.attended id isThere
  refine ⟨(pid, index), isAttended, ?_⟩
  rintro ⟨pid', index'⟩ isOther
  obtain ⟨rfl, rfl⟩ := sound.unique pid index pid' index' id isAttended isOther
  rfl

end Keeping

/-! ## Two workers -/

/-- A worker connects, makes sure of its group, and reads an entry. -/
def toEntry (pid : Nat) : List FleetAction :=
  [.loop pid 0 .performed, .loop pid 0 (.result (.ok ())), .loop pid 0 (.result (.ok ())), .loop pid 0 .read,
    .loop pid 0 .performed]

/-- The handler of its consumer is answered. -/
def answered (pid : Nat) (responses : List Response) : List FleetAction := responses.map (.answer pid 0)

/-- The loops of a worker that shuts down end, the consumer after its handler. -/
def toExit (pid : Nat) : List FleetAction :=
  [.loop pid 0 .performed, .loop pid 0 .performed, .loop pid 1 .performed, .loop pid 1 .performed,
    .loop pid 2 .performed, .loop pid 2 .performed, .loop pid 3 .performed, .loop pid 3 .performed, .exit pid]

/-- One worker runs a job when another one finds the lock busy and defers its own. -/
def twoWorkers : List FleetAction :=
  [.start 0 "w".toList 1, .start 1 "v".toList 1, .queue (.enqueue smallJob), .queue (.enqueue otherJob)] ++
    toEntry 0 ++ answered 0 (toLock ++ toRun) ++ toEntry 1 ++ answered 1 (toLock ++ serve 1 ++ [.ms 0])

/-- Both are told to shut down, and go on to the end of their handlers. -/
def bothDrained : List FleetAction :=
  [.shutdown 0, .shutdown 1] ++ answered 1 (serve 1) ++ toExit 1 ++
    answered 0 (toLook ++ toFinish ++ serve 2) ++ toExit 0

/-- The one that runs the job counts it and the other one counts nothing; in the end neither counts
anything, and each has seen its handler to the end. -/
theorem fleet_keeps_drained : ∃ working drained : Fleet,
    (∃ runs waits, working.processes.lookup 0 = some runs ∧ working.processes.lookup 1 = some waits ∧
      runs.inFlight = 1 ∧ waits.inFlight = 0 ∧ runs.Steady working.queue ∧ waits.Steady working.queue) ∧
    drained.exited.map Process.begun = [[3], [8]] ∧
      ∀ process ∈ drained.exited, process.inFlight = 0 ∧ ∀ id ∈ process.begun, id ∈ process.ended := by
  obtain ⟨working, isWorking, first, second⟩ :=
    Runs.reaches_of_check (Fleet.step .default) (fun _ _ => True)
    (Fleet.initial ∅) twoWorkers
    (fun fleet => (fleet.processes.lookup 0).map Process.inFlight = some 1 ∧
      (fleet.processes.lookup 1).map Process.inFlight = some 0) (by decide +kernel)
  obtain ⟨drained, isDrained, areBegun⟩ :=
    Runs.reaches_of_check (Fleet.step .default) (fun _ _ => True)
    (Fleet.initial ∅) (twoWorkers ++ bothDrained)
    (fun fleet => fleet.exited.map Process.begun = [[3], [8]]) (by decide +kernel)
  obtain ⟨runs, isFirst, counts⟩ := Option.map_eq_some_iff.mp first
  obtain ⟨waits, isSecond, countsNone⟩ := Option.map_eq_some_iff.mp second
  obtain ⟨-, -, steady, -⟩ := fleet_keeps .default ∅ isWorking
  obtain ⟨-, -, -, exited⟩ := fleet_keeps .default ∅ isDrained
  exact ⟨working, drained,
    ⟨runs, waits, isFirst, isSecond, counts, countsNone, steady 0 runs isFirst,
    steady 1 waits isSecond⟩, areBegun, exited⟩

end KaretWorker
