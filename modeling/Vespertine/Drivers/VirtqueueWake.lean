import Vespertine.Drivers.VirtqueueOwnership

/-!
# Waking the task of a finished transfer

`poll` reads the status byte, and only then registers its waker.  When the poll thread takes the
waker slot of the request in between, it finds nothing to wake, and the future is left `Pending`
with a waker that nobody will take.  Wherever this does not happen, every consumed used element
wakes its task: what a future has registered stays in the slot of its chain until the poll thread
takes it.
-/

namespace Vespertine.Virtio

variable {size : Nat} [NeZero size] {τ ω : Type} [DecidableEq τ] [DecidableEq ω]

/-- The driver and the device, with a record of wakers and used elements. -/
structure Watched (size : Nat) (τ ω : Type) where
  sys : System size τ ω
  /-- The waker of the last poll that found the transfer unfinished, unless it was invoked since
  that poll began. -/
  unwoken : τ → Option ω
  /-- Requests whose used element the poll thread has consumed. -/
  consumed : List τ

namespace Watched

/-- A poll has read the status byte. -/
def beginPoll (watched : Watched size τ ω) (task : τ) (waker : ω) : Phase ω → τ → Option ω
  | .checked _ status _ =>
      if status = 0xFF then Function.update watched.unwoken task (some waker) else watched.unwoken
  | _ => watched.unwoken

/-- A poll has returned. -/
def endPoll (watched : Watched size τ ω) (task : τ) : Phase ω → τ → Option ω
  | .freed _ _ => Function.update watched.unwoken task none
  | _ => watched.unwoken

/-- A waker was invoked. -/
def wake (watched : Watched size τ ω) (waker : Option ω) : τ → Option ω := fun task =>
  if watched.unwoken task = waker then none else watched.unwoken task

/-- Record what an event has done. -/
def observe (watched : Watched size τ ω) (event : Event τ ω) (next : System size τ ω) :
    Watched size τ ω :=
  match event with
  | .check task waker =>
      { watched with sys := next, unwoken := watched.beginPoll task waker (next.tasks task) }
  | .settle task => { watched with sys := next, unwoken := watched.endPoll task (next.tasks task) }
  | .thread =>
      match watched.sys.thread with
      | .taken _ _ entry waker =>
          { sys := next
            unwoken := watched.wake waker
            consumed := entry.request.toList ++ watched.consumed }
      | _ => { watched with sys := next }
  | _ => { watched with sys := next }

/-- One step, recorded. -/
def step (watched : Watched size τ ω) (event : Event τ ω) : Except Fault (Watched size τ ω) :=
  (Virtio.step watched.sys event).map (watched.observe event)

end Watched

/-- When the poll thread takes the slot of a request whose poll has read `0xFF` and not yet
registered, it finds the waker of that poll there from an earlier one, or that waker was already
invoked since the poll began. -/
def OutsideWindow (watched : Watched size τ ω) : Event τ ω → Prop
  | .thread => ∀ lastSeen currentUsed entry task future waker,
      watched.sys.thread = .read lastSeen currentUsed entry → entry.request = some task →
      watched.sys.tasks task = .checked future 0xFF waker → watched.unwoken task = some waker →
      watched.sys.vq.wakers future.d0 = some waker
  | _ => True

/-- The recorded system, with every use of the window. -/
def watchedMachine : Machine (Watched size τ ω) (Event τ ω) Fault where
  step := Watched.step
  permitted watched event := FreshPage watched.sys event

/-- The recorded system in runs that avoid the window. -/
def orderlyMachine : Machine (Watched size τ ω) (Event τ ω) Fault where
  step := Watched.step
  permitted watched event := FreshPage watched.sys event ∧ OutsideWindow watched event

/-- Every consumed used element has woken its task. -/
def NoLostTransfer (watched : Watched size τ ω) : Prop :=
  ∀ task ∈ watched.consumed, watched.unwoken task = none

/-! ## Finished requests -/

/-- The future of a request that is available to the device. -/
def Phase.polled : Phase ω → Option BlockTransferFuture
  | .waiting future => some future
  | .checked future _ _ => some future
  | _ => none

/-- The future has seen the end of the transfer. -/
def Phase.past : Phase ω → Prop
  | .freed _ _ => True
  | .ready _ => True
  | _ => False

/-- The device has written the status byte of a request with this first descriptor. -/
def Finished (sys : System size τ ω) (task : τ) (id : Nat) : Prop :=
  (sys.tasks task).past ∨ ∃ future, (sys.tasks task).polled = some future ∧ future.d0 = id ∧
    sys.bytes (future.pagePhys + 512) ≠ 0xFF

/-- What a step does to requests that are available to the device. -/
structure Moves (sys next : System size τ ω) : Prop where
  past : ∀ task, (sys.tasks task).past → (next.tasks task).past
  polled : ∀ task future, (sys.tasks task).polled = some future →
    (next.tasks task).past ∨ (next.tasks task).polled = some future
  byte : ∀ task future, (sys.tasks task).polled = some future →
    next.bytes (future.pagePhys + 512) = sys.bytes (future.pagePhys + 512) ∨
      next.bytes (future.pagePhys + 512) ≠ 0xFF

omit [NeZero size] [DecidableEq τ] [DecidableEq ω] in
/-- A finished request stays finished. -/
theorem Finished.moves {sys next : System size τ ω} {task : τ} {id : Nat}
    (finished : Finished sys task id) (moves : Moves sys next) : Finished next task id := by
  rcases finished with past | ⟨future, polled, id_eq, written⟩
  · exact .inl (moves.past task past)
  · rcases moves.polled task future polled with past | kept
    · exact .inl past
    · refine .inr ⟨future, kept, id_eq, ?_⟩
      rcases moves.byte task future polled with same | other
      · rwa [same]
      · exact other

omit [NeZero size] [DecidableEq τ] [DecidableEq ω] in
/-- Steps that touch neither requests nor status bytes. -/
theorem Moves.of_eq {sys next : System size τ ω} (tasks_eq : next.tasks = sys.tasks)
    (bytes_eq : next.bytes = sys.bytes) : Moves sys next := by
  refine ⟨fun task past => ?_, fun task future polled => ?_, fun task future _ => ?_⟩
  · rwa [tasks_eq]
  · rw [tasks_eq]
    exact .inr polled
  · exact .inl (by rw [bytes_eq])

omit [NeZero size] [DecidableEq ω] in
/-- Steps of one request. -/
theorem Moves.setTask {sys next : System size τ ω} {task : τ} {phase : Phase ω}
    (tasks_eq : next.tasks = Function.update sys.tasks task phase)
    (bytes_eq : next.bytes = sys.bytes)
    (past : (sys.tasks task).past → phase.past)
    (polled : ∀ future, (sys.tasks task).polled = some future →
      phase.past ∨ phase.polled = some future) : Moves sys next := by
  refine ⟨fun other other_past => ?_, fun other future other_polled => ?_, fun other future _ => ?_⟩
  · rw [tasks_eq]
    by_cases same : other = task
    · subst same
      rw [Function.update_self]
      exact past other_past
    · rwa [Function.update_of_ne same]
  · rw [tasks_eq]
    by_cases same : other = task
    · subst same
      rw [Function.update_self]
      exact polled future other_polled
    · rw [Function.update_of_ne same]
      exact .inr other_polled
  · exact .inl (by rw [bytes_eq])

theorem DeviceStatus.code_ne (status : DeviceStatus) : status.code ≠ 0xFF := by
  cases status <;> decide

omit [DecidableEq ω] in
theorem Phase.page_of_polled {phase : Phase ω} {future : BlockTransferFuture}
    (polled : phase.polled = some future) :
    phase.chain? = some future ∧ phase.page? = some future.pagePhys := by
  cases phase with
  | waiting other => cases polled; exact ⟨rfl, rfl⟩
  | checked other status waker => cases polled; exact ⟨rfl, rfl⟩
  | _ => cases polled

omit [NeZero size] [DecidableEq ω] in
/-- The device writes status bytes only. -/
theorem Moves.complete {sys next : System size τ ω} {entry : Entry τ} {status : DeviceStatus}
    (complete_eq : sys.complete entry status = .ok next) : Moves sys next := by
  rw [System.complete] at complete_eq
  split at complete_eq
  next last _ =>
    obtain ⟨-, done⟩ := guard_eq_ok.mp complete_eq
    cases done
    refine ⟨fun task past => past, fun task future polled => .inr polled,
      fun task future polled => ?_⟩
    simp only
    by_cases same : future.pagePhys + 512 = (sys.vq.desc last).addr
    · rw [same, Function.update_self]
      exact .inr status.code_ne
    · exact .inl (Function.update_of_ne same ..)
  next => cases complete_eq

omit [NeZero size] [DecidableEq τ] [DecidableEq ω] in
/-- Taking a waker slot moves no request. -/
theorem takeWaker_frame (sys : System size τ ω) (entry : Entry τ) :
    (sys.takeWaker entry).2.tasks = sys.tasks ∧ (sys.takeWaker entry).2.bytes = sys.bytes ∧
      (sys.takeWaker entry).2.device = sys.device ∧
      (sys.takeWaker entry).2.vq.usedRing = sys.vq.usedRing := by
  rw [System.takeWaker]
  split <;> exact ⟨rfl, rfl, rfl, rfl⟩

/-! ## The invariant -/

/-- A used element that the poll thread has consumed, or may yet consume. -/
def Used (sys : System size τ ω) (entry : Entry τ) : Prop :=
  entry ∈ sys.device.finished ∨ (∃ slot, sys.vq.usedRing slot = entry) ∨
    sys.thread.entry? = some entry

/-- The used elements belong to finished requests. -/
def AllFinished (sys : System size τ ω) : Prop :=
  ∀ entry, Used sys entry → ∀ task, entry.request = some task → Finished sys task entry.id

/-- A waker is in its slot or in the hands of the poll thread. -/
def Registered (sys : System size τ ω) (idx : Nat) (waker : ω) : Prop :=
  sys.vq.wakers idx = some waker ∨
    ∃ lastSeen currentUsed entry, sys.thread = .taken lastSeen currentUsed entry (some waker)

/-- A poll with this waker has read `0xFF` and not yet returned, or has registered the waker. -/
def Waits (sys : System size τ ω) (task : τ) (waker : ω) : Prop :=
  ∃ future, sys.tasks task = .checked future 0xFF waker ∨
    (sys.tasks task = .waiting future ∨
      ∃ status other, status ≠ 0xFF ∧ sys.tasks task = .checked future status other) ∧
      Registered sys future.d0 waker

/-- Every state of the recorded system in a run that avoids the window. -/
structure Awake (watched : Watched size τ ω) : Prop where
  sound : Sound watched.sys
  done : AllFinished watched.sys
  waits : ∀ task waker, watched.unwoken task = some waker → Waits watched.sys task waker
  inHand : ∀ lastSeen currentUsed entry waker task,
    watched.sys.thread = .taken lastSeen currentUsed entry waker → entry.request = some task →
      watched.unwoken task = none ∨ watched.unwoken task = waker
  consumed : ∀ task ∈ watched.consumed,
    (∃ id, Finished watched.sys task id) ∧ watched.unwoken task = none

section Polled

omit [NeZero size] [DecidableEq τ] [DecidableEq ω]

theorem Waits.polled {sys : System size τ ω} {task : τ} {waker : ω} (waits : Waits sys task waker) :
    ∃ future, (sys.tasks task).polled = some future := by
  obtain ⟨future, checked | ⟨waiting | ⟨status, other, -, checked⟩, -⟩⟩ := waits
  · exact ⟨future, by rw [checked]; rfl⟩
  · exact ⟨future, by rw [waiting]; rfl⟩
  · exact ⟨future, by rw [checked]; rfl⟩

/-- A poll that goes on waiting sees neither the requests nor the wakers of others. -/
theorem Waits.congr {sys next : System size τ ω} {task : τ} {waker : ω}
    (waits : Waits sys task waker) (task_eq : next.tasks task = sys.tasks task)
    (registered : ∀ future, (sys.tasks task).polled = some future →
      Registered sys future.d0 waker → Registered next future.d0 waker) :
    Waits next task waker := by
  obtain ⟨future, checked | ⟨waiting | ⟨status, other, ne, checked⟩, in_slot⟩⟩ := waits
  · exact ⟨future, .inl (task_eq.trans checked)⟩
  · refine ⟨future, .inr ⟨.inl (task_eq.trans waiting), registered future ?_ in_slot⟩⟩
    rw [waiting]
    rfl
  · refine ⟨future, .inr ⟨.inr ⟨status, other, ne, task_eq.trans checked⟩,
      registered future ?_ in_slot⟩⟩
    rw [checked]
    rfl

/-- A finished request is not waiting for the device. -/
theorem Finished.not_checked {sys : System size τ ω} {task : τ} {id : Nat}
    (finished : Finished sys task id) {future : BlockTransferFuture}
    (waiting : sys.tasks task = .waiting future) : sys.bytes (future.pagePhys + 512) ≠ 0xFF := by
  rcases finished with past | ⟨second, polled, -, written⟩
  · rw [waiting] at past
    exact past.elim
  · rw [waiting] at polled
    cases polled
    exact written

/-- The first descriptor of a finished request that is still being polled. -/
theorem Finished.id_eq {sys : System size τ ω} {task : τ} {id : Nat}
    (finished : Finished sys task id) {future : BlockTransferFuture}
    (polled : (sys.tasks task).polled = some future) : future.d0 = id := by
  rcases finished with past | ⟨second, second_polled, id_eq, -⟩
  · cases phase_eq : sys.tasks task with
    | freed other status => rw [phase_eq] at polled; cases polled
    | ready ok => rw [phase_eq] at polled; cases polled
    | _ => rw [phase_eq] at past; exact past.elim
  · cases polled.symm.trans second_polled
    exact id_eq

end Polled

namespace Awake

variable {watched : Watched size τ ω} {next : System size τ ω} {task : τ}

omit [DecidableEq τ] [DecidableEq ω] in
/-- Events of the driver and the device expose no finished request. -/
theorem evolve (awake : Awake watched) (sound : Sound next) (moves : Moves watched.sys next)
    (thread_eq : next.thread = watched.sys.thread)
    (used : ∀ entry, Used next entry → Used watched.sys entry ∨
      ∀ task, entry.request = some task → Finished next task entry.id)
    {unwoken : τ → Option ω}
    (waits : ∀ task waker, unwoken task = some waker → Waits next task waker)
    (fewer : ∀ task id, Finished watched.sys task id →
      unwoken task = none ∨ unwoken task = watched.unwoken task) :
    Awake { watched with sys := next, unwoken := unwoken } := by
  refine ⟨sound, fun entry entry_used task label => ?_, waits,
    fun lastSeen currentUsed entry waker task thread_at label => ?_, fun task mem => ?_⟩
  · rcases used entry entry_used with old | new
    · exact (awake.done entry old task label).moves moves
    · exact new task label
  · rw [thread_eq] at thread_at
    have at_entry : Used watched.sys entry := .inr (.inr (by rw [thread_at]; rfl))
    rcases fewer task entry.id (awake.done entry at_entry task label) with woken | same
    · exact .inl woken
    · simp only [same]
      exact awake.inHand lastSeen currentUsed entry waker task thread_at label
  · obtain ⟨⟨id, finished⟩, woken⟩ := awake.consumed task mem
    refine ⟨⟨id, finished.moves moves⟩, ?_⟩
    rcases fewer task id finished with gone | same
    · exact gone
    · exact same.trans woken

omit [DecidableEq τ] [DecidableEq ω] in
/-- Events that begin or end no poll. -/
theorem quiet (awake : Awake watched) (sound : Sound next) (moves : Moves watched.sys next)
    (thread_eq : next.thread = watched.sys.thread)
    (wakers_eq : next.vq.wakers = watched.sys.vq.wakers)
    (kept : ∀ task future, (watched.sys.tasks task).polled = some future →
      next.tasks task = watched.sys.tasks task)
    (used : ∀ entry, Used next entry → Used watched.sys entry ∨
      ∀ task, entry.request = some task → Finished next task entry.id) :
    Awake { watched with sys := next } := by
  refine awake.evolve sound moves thread_eq used (fun task waker unwoken => ?_)
    fun _ _ _ => .inr rfl
  have waits := awake.waits task waker unwoken
  obtain ⟨future, polled⟩ := waits.polled
  refine waits.congr (kept task future polled) fun _ _ registered => ?_
  simp only [Registered, thread_eq, wakers_eq]
  exact registered

/-- `poll` begins: it exposes the request only if the transfer is unfinished. -/
theorem check (awake : Awake watched) {future : BlockTransferFuture} (waker : ω)
    (waiting : watched.sys.tasks task = .waiting future) :
    Awake (watched.observe (.check task waker) (watched.sys.setTask task
      (.checked future (watched.sys.bytes (future.pagePhys + 512)) waker))) := by
  have moves : Moves watched.sys (watched.sys.setTask task
      (.checked future (watched.sys.bytes (future.pagePhys + 512)) waker)) := by
    refine Moves.setTask rfl rfl (fun past => ?_) fun second polled => ?_
    · rw [waiting] at past
      exact past
    · rw [waiting] at polled
      exact .inr polled
  refine awake.evolve (awake.sound.check waker waiting) moves rfl (fun _ old => .inl old)
    (fun other second unwoken => ?_) fun other id finished => ?_
  · simp only [Watched.beginPoll, System.setTask_self] at unwoken
    by_cases same : other = task
    · subst same
      split at unwoken
      next unfinished =>
        rw [Function.update_self] at unwoken
        cases unwoken
        exact ⟨future, .inl (System.setTask_self.trans (by rw [unfinished]))⟩
      next written =>
        obtain ⟨second, checked | ⟨again | ⟨status, waker, -, checked⟩, registered⟩⟩ :=
          awake.waits other second unwoken
        · cases waiting.symm.trans checked
        · cases waiting.symm.trans again
          exact ⟨future, .inr ⟨.inr ⟨_, _, written, System.setTask_self⟩, registered⟩⟩
        · cases waiting.symm.trans checked
    · have old : watched.unwoken other = some second := by
        split at unwoken
        next => rwa [Function.update_of_ne same] at unwoken
        next => exact unwoken
      exact (awake.waits other second old).congr (System.setTask_of_ne same) fun _ _ held => held
  · simp only [Watched.beginPoll, System.setTask_self]
    split
    next unfinished =>
      have ne : other ≠ task := by
        rintro rfl
        exact finished.not_checked waiting unfinished
      exact .inr (Function.update_of_ne ne ..)
    next => exact .inr rfl

omit [DecidableEq ω] [DecidableEq τ] in
/-- Requests that are polled have different waker slots. -/
theorem slot_ne (awake : Awake watched) {other : τ} {future second : BlockTransferFuture}
    (polled : (watched.sys.tasks task).polled = some future)
    (other_polled : (watched.sys.tasks other).polled = some second) (ne : other ≠ task) :
    second.d0 ≠ future.d0 := by
  obtain ⟨free, owners⟩ := awake.sound.owners
  intro same
  refine ne (owners.apart other task second future (Phase.page_of_polled other_polled).1
    (Phase.page_of_polled polled).1 second.d0 ?_ ?_)
  · simp [BlockTransferFuture.descs]
  · simp [BlockTransferFuture.descs, same]

/-- `poll` ends: it frees the chain, or registers its waker. -/
theorem settle (awake : Awake watched) (size_le : size ≤ NO_DESC) {future : BlockTransferFuture}
    {status : Nat} {waker : ω} (checked : watched.sys.tasks task = .checked future status waker)
    (settle_eq : watched.sys.settle task future status waker = .ok next) :
    Awake (watched.observe (.settle task) next) := by
  have sound := awake.sound.settle size_le checked settle_eq
  rw [System.settle] at settle_eq
  split at settle_eq
  next written =>
    cases settle_eq
    refine awake.evolve sound (Moves.setTask rfl rfl (fun _ => trivial) fun _ _ => .inl trivial) rfl
      (fun _ old => .inl old) (fun other second unwoken => ?_) fun other id _ => ?_
    · simp only [Watched.endPoll, System.setTask_self] at unwoken
      by_cases same : other = task
      · rw [same, Function.update_self] at unwoken
        cases unwoken
      · rw [Function.update_of_ne same] at unwoken
        exact (awake.waits other second unwoken).congr (System.setTask_of_ne same)
          fun _ _ held => held
    · simp only [Watched.endPoll, System.setTask_self]
      by_cases same : other = task
      · exact .inl (by rw [same, Function.update_self])
      · exact .inr (Function.update_of_ne same ..)
  next pending =>
    obtain rfl := not_not.mp pending
    obtain ⟨-, done⟩ := guard_eq_ok.mp settle_eq
    cases done
    have polled : (watched.sys.tasks task).polled = some future := by rw [checked]; rfl
    refine awake.evolve sound (Moves.setTask rfl rfl (fun past => ?_) fun second again => ?_) rfl
      (fun _ old => .inl old) (fun other second unwoken => ?_) fun other id _ => ?_
    · rw [checked] at past
      exact past
    · exact .inr (polled.symm.trans again)
    · simp only [Watched.endPoll, System.setTask_self] at unwoken
      have waits := awake.waits other second unwoken
      by_cases same : other = task
      · subst same
        obtain ⟨third, again | ⟨waiting | ⟨status, waker, ne, again⟩, -⟩⟩ := waits
        · cases checked.symm.trans again
          exact ⟨future, .inr ⟨.inl System.setTask_self, .inl (Function.update_self ..)⟩⟩
        · cases checked.symm.trans waiting
        · cases checked.symm.trans again
          exact absurd rfl ne
      · refine waits.congr (System.setTask_of_ne same) fun third other_polled registered => ?_
        refine registered.imp_left fun in_slot => ?_
        have slot_ne := awake.slot_ne polled other_polled same
        exact (Function.update_of_ne slot_ne ..).trans in_slot
    · exact .inr (by simp only [Watched.endPoll, System.setTask_self])

omit [DecidableEq τ] [DecidableEq ω] in
/-- The poll thread goes round a loop, or reads a used element. -/
theorem turn (awake : Awake watched) (sound : Sound next)
    (tasks_eq : next.tasks = watched.sys.tasks) (bytes_eq : next.bytes = watched.sys.bytes)
    (device_eq : next.device = watched.sys.device)
    (used_eq : next.vq.usedRing = watched.sys.vq.usedRing)
    (wakers_eq : next.vq.wakers = watched.sys.vq.wakers)
    (was : watched.sys.thread.entry? = none)
    (empty : ∀ lastSeen currentUsed entry waker,
      next.thread ≠ .taken lastSeen currentUsed entry waker)
    (at_entry : ∀ entry, next.thread.entry? = some entry →
      ∃ slot, watched.sys.vq.usedRing slot = entry) :
    Awake { watched with sys := next } := by
  have moves : Moves watched.sys next := Moves.of_eq tasks_eq bytes_eq
  refine ⟨sound, fun entry used task label => ?_, fun task waker unwoken => ?_,
    fun lastSeen currentUsed entry waker task thread_at =>
      absurd thread_at (empty lastSeen currentUsed entry waker), fun task mem => ?_⟩
  · refine Finished.moves (awake.done entry ?_ task label) moves
    rcases used with finished | ⟨slot, slot_eq⟩ | reading
    · exact .inl (device_eq ▸ finished)
    · exact .inr (.inl ⟨slot, used_eq ▸ slot_eq⟩)
    · exact .inr (.inl (at_entry entry reading))
  · refine (awake.waits task waker unwoken).congr (by rw [tasks_eq]) fun future _ registered => ?_
    rcases registered with in_slot | ⟨lastSeen, currentUsed, entry, thread_at⟩
    · exact .inl (wakers_eq ▸ in_slot)
    · rw [thread_at] at was
      cases was
  · obtain ⟨⟨id, finished⟩, woken⟩ := awake.consumed task mem
    exact ⟨⟨id, finished.moves moves⟩, woken⟩

omit [DecidableEq τ] [DecidableEq ω] in
/-- The poll thread takes the waker of a finished request that waits for it. -/
theorem take (awake : Awake watched) {lastSeen currentUsed : Nat} {entry : Entry τ}
    (reading : watched.sys.thread = .read lastSeen currentUsed entry)
    (outside : OutsideWindow watched .thread)
    (sound : Sound { (watched.sys.takeWaker entry).2 with
      thread := .taken lastSeen currentUsed entry (watched.sys.takeWaker entry).1 }) :
    Awake { watched with
      sys := { (watched.sys.takeWaker entry).2 with
        thread := .taken lastSeen currentUsed entry (watched.sys.takeWaker entry).1 } } := by
  obtain ⟨tasks_eq, bytes_eq, device_eq, used_eq⟩ := takeWaker_frame watched.sys entry
  obtain ⟨free, owners⟩ := awake.sound.owners
  have moves : Moves watched.sys { (watched.sys.takeWaker entry).2 with
      thread := .taken lastSeen currentUsed entry (watched.sys.takeWaker entry).1 } :=
    Moves.of_eq tasks_eq bytes_eq
  have at_entry : Used watched.sys entry := .inr (.inr (by rw [reading]; rfl))
  -- what is in the slot of the element comes into the thread's hands
  have taken : ∀ task future waker, (watched.sys.tasks task).polled = some future →
      future.d0 = entry.id → watched.sys.vq.wakers future.d0 = some waker →
      (watched.sys.takeWaker entry).1 = some waker := by
    intro task future waker polled id_eq in_slot
    have inside := owners.chain_lt task future (Phase.page_of_polled polled).1 future.d0
      (by simp [BlockTransferFuture.descs])
    rw [id_eq] at inside in_slot
    rw [System.takeWaker, if_pos inside]
    exact in_slot
  have in_slot_of : ∀ idx waker, Registered watched.sys idx waker →
      watched.sys.vq.wakers idx = some waker := by
    rintro idx waker (in_slot | ⟨_, _, _, thread_at⟩)
    · exact in_slot
    · cases reading.symm.trans thread_at
  refine ⟨sound, fun other used task label => ?_, fun task waker unwoken => ?_,
    fun _ _ other waker task thread_at label => ?_, fun task mem => ?_⟩
  · refine Finished.moves (awake.done other ?_ task label) moves
    rcases used with finished | ⟨slot, slot_eq⟩ | at_other
    · exact .inl (device_eq ▸ finished)
    · exact .inr (.inl ⟨slot, used_eq ▸ slot_eq⟩)
    · cases at_other
      exact at_entry
  · refine (awake.waits task waker unwoken).congr (by rw [tasks_eq])
      fun future polled registered => ?_
    have in_slot := in_slot_of _ _ registered
    by_cases same : future.d0 = entry.id
    · refine .inr ⟨lastSeen, currentUsed, entry, ?_⟩
      rw [taken task future waker polled same in_slot]
    · refine .inl ?_
      rw [System.takeWaker]
      split
      next => exact (Function.update_of_ne same ..).trans in_slot
      next => exact in_slot
  · cases thread_at
    cases unwoken_eq : watched.unwoken task with
    | none => exact .inl rfl
    | some waker =>
        refine .inr ?_
        have finished := awake.done entry at_entry task label
        obtain ⟨future, polled⟩ := (awake.waits task waker unwoken_eq).polled
        refine (taken task future waker polled (finished.id_eq polled) ?_).symm
        obtain ⟨second, checked | ⟨waiting | ⟨status, _, _, checked⟩, registered⟩⟩ :=
          awake.waits task waker unwoken_eq
        · rw [checked] at polled
          cases polled
          exact outside _ _ entry task _ waker reading label checked unwoken_eq
        · rw [waiting] at polled
          cases polled
          exact in_slot_of _ _ registered
        · rw [checked] at polled
          cases polled
          exact in_slot_of _ _ registered
  · obtain ⟨⟨id, finished⟩, woken⟩ := awake.consumed task mem
    exact ⟨⟨id, finished.moves moves⟩, woken⟩

omit [DecidableEq τ] in
/-- The poll thread wakes what it has taken, and has consumed the element. -/
theorem wakes (awake : Awake watched) {lastSeen currentUsed after : Nat} {entry : Entry τ}
    {waker : Option ω} (taken : watched.sys.thread = .taken lastSeen currentUsed entry waker)
    (sound : Sound { watched.sys with thread := .inner after currentUsed }) :
    Awake ⟨{ watched.sys with thread := .inner after currentUsed }, watched.wake waker,
      entry.request.toList ++ watched.consumed⟩ := by
  have moves : Moves watched.sys { watched.sys with thread := .inner after currentUsed } :=
    Moves.of_eq rfl rfl
  have at_entry : Used watched.sys entry := .inr (.inr (by rw [taken]; rfl))
  have woken_of : ∀ task, watched.unwoken task = none ∨ watched.unwoken task = waker →
      watched.wake waker task = none := by
    rintro task (woken | woken)
    · rw [Watched.wake, woken, ite_self]
    · exact if_pos woken
  refine ⟨sound, fun other used task label => ?_, fun task second unwoken => ?_, nofun,
    fun task mem => ?_⟩
  · refine Finished.moves (awake.done other ?_ task label) moves
    rcases used with finished | in_ring | at_other
    · exact .inl finished
    · exact .inr (.inl in_ring)
    · cases at_other
  · simp only [Watched.wake] at unwoken
    split at unwoken
    next => cases unwoken
    next ne =>
      refine (awake.waits task second unwoken).congr rfl fun future _ registered => ?_
      rcases registered with in_slot | ⟨_, _, _, thread_at⟩
      · exact .inl in_slot
      · cases taken.symm.trans thread_at
        exact absurd unwoken ne
  · rcases List.mem_append.mp mem with new | old
    · have label : entry.request = some task := Option.mem_toList.mp new
      have finished := awake.done entry at_entry task label
      exact ⟨⟨entry.id, finished.moves moves⟩,
        woken_of task (awake.inHand lastSeen currentUsed entry waker task taken label)⟩
    · obtain ⟨⟨id, finished⟩, woken⟩ := awake.consumed task old
      exact ⟨⟨id, finished.moves moves⟩, woken_of task (.inl woken)⟩

omit [NeZero size] in
/-- Nothing is woken while the poll thread holds no used element. -/
theorem observe_thread (was : watched.sys.thread.entry? = none) (next : System size τ ω) :
    watched.observe .thread next = { watched with sys := next } := by
  simp only [Watched.observe]
  split
  next taken =>
    rw [taken] at was
    cases was
  next => rfl

theorem threadStep (awake : Awake watched) (outside : OutsideWindow watched .thread)
    (thread_eq : watched.sys.threadStep = .ok next) :
    Awake (watched.observe .thread next) := by
  have sound := awake.sound.threadStep thread_eq
  rcases threadStep_cases thread_eq with
    ⟨thread, lastSeen, was, now, rfl⟩ | ⟨lastSeen, currentUsed, inner, rfl⟩ |
      ⟨lastSeen, currentUsed, entry, reading, rfl⟩ |
      ⟨lastSeen, currentUsed, entry, waker, taken, rfl⟩
  · rw [observe_thread was]
    refine awake.turn sound rfl rfl rfl rfl rfl was (fun _ _ _ _ taken => ?_)
      fun entry reading => ?_
    · simp only at taken
      rw [taken] at now
      cases now
    · cases now.symm.trans reading
  · have was : watched.sys.thread.entry? = none := by rw [inner]; rfl
    rw [observe_thread was]
    refine awake.turn sound rfl rfl rfl rfl rfl was nofun fun entry reading => ?_
    cases reading
    exact ⟨_, rfl⟩
  · simp only [Watched.observe, reading]
    exact awake.take reading outside sound
  · simp only [Watched.observe, taken]
    exact awake.wakes taken sound

omit [DecidableEq ω] in
/-- A request that is not being polled may move. -/
theorem kept_of_update {tasks : τ → Phase ω} {phase : Phase ω}
    (unpolled : (tasks task).polled = none)
    (other : τ) (future : BlockTransferFuture) (polled : (tasks other).polled = some future) :
    Function.update tasks task phase other = tasks other := by
  refine Function.update_of_ne (fun same => ?_) ..
  rw [same, unpolled] at polled
  cases polled

omit [DecidableEq ω] in
theorem transfer (awake : Awake watched) {request : Request} {page : Nat}
    (idle : watched.sys.tasks task = .idle)
    (fresh : FreshPage watched.sys (.transfer task request page)) :
    Awake { watched with sys := watched.sys.transfer task request page } := by
  have unpolled : (watched.sys.tasks task).polled = none := by rw [idle]; rfl
  have update : ∃ phase : Phase ω, (watched.sys.transfer task request page).tasks =
      Function.update watched.sys.tasks task phase ∧
      (watched.sys.transfer task request page).thread = watched.sys.thread ∧
      (watched.sys.transfer task request page).vq = watched.sys.vq ∧
      (watched.sys.transfer task request page).device = watched.sys.device := by
    rw [System.transfer]
    split <;> exact ⟨_, rfl, rfl, rfl, rfl⟩
  obtain ⟨phase, tasks_eq, thread_eq, vq_eq, device_eq⟩ := update
  have kept : ∀ other future, (watched.sys.tasks other).polled = some future →
      (watched.sys.transfer task request page).tasks other = watched.sys.tasks other := by
    rw [tasks_eq]
    exact kept_of_update unpolled
  have not_past : ∀ other, (watched.sys.tasks other).past → other ≠ task := by
    rintro other past rfl
    rw [idle] at past
    exact past
  refine awake.quiet (awake.sound.transfer idle fresh) ⟨fun other past => ?_,
    fun other future polled => ?_, fun other future polled => ?_⟩ thread_eq (by rw [vq_eq]) kept
    fun entry used => .inl ?_
  · rw [tasks_eq, Function.update_of_ne (not_past other past)]
    exact past
  · rw [kept other future polled]
    exact .inr polled
  · exact .inl (awake.sound.transfer_bytes fresh other (Phase.page_of_polled polled).2)
  · simpa only [Used, thread_eq, vq_eq, device_eq] using used

omit [DecidableEq ω] in
/-- Steps of `transfer_sectors` under the lock, and the end of a poll, move requests that are not
being polled. -/
theorem unpolled (awake : Awake watched) {phase : Phase ω} (sound : Sound next)
    (tasks_eq : next.tasks = Function.update watched.sys.tasks task phase)
    (bytes_eq : next.bytes = watched.sys.bytes) (thread_eq : next.thread = watched.sys.thread)
    (wakers_eq : next.vq.wakers = watched.sys.vq.wakers)
    (used_eq : next.vq.usedRing = watched.sys.vq.usedRing)
    (device_eq : next.device = watched.sys.device)
    (not_polled : (watched.sys.tasks task).polled = none)
    (past : (watched.sys.tasks task).past → phase.past) : Awake { watched with sys := next } := by
  refine awake.quiet sound (Moves.setTask tasks_eq bytes_eq past fun future polled => ?_) thread_eq
    wakers_eq (by rw [tasks_eq]; exact kept_of_update not_polled) fun entry used => .inl ?_
  · cases not_polled.symm.trans polled
  · simpa only [Used, thread_eq, used_eq, device_eq] using used

omit [DecidableEq ω] in
theorem reserve (awake : Awake watched) {request : Request} {page : Nat}
    (prepared : watched.sys.tasks task = .prepared request page)
    (unlocked : watched.sys.holder = none) :
    Awake { watched with sys := watched.sys.reserve task request page } := by
  have sound := awake.sound.reserve prepared unlocked
  obtain ⟨free, owners⟩ := awake.sound.owners
  have not_polled : (watched.sys.tasks task).polled = none := by rw [prepared]; rfl
  have not_past : ¬ (watched.sys.tasks task).past := by rw [prepared]; exact id
  obtain ⟨head, rest, -, alloc_eq | ⟨d0, d1, d2, alloc_eq, -⟩⟩ := allocChain_spec owners
  · simp only [System.reserve, alloc_eq] at sound ⊢
    exact awake.unpolled sound rfl rfl rfl rfl rfl rfl not_polled fun past => absurd past not_past
  · simp only [System.reserve, alloc_eq] at sound ⊢
    exact awake.unpolled sound rfl rfl rfl rfl rfl rfl not_polled fun past => absurd past not_past

omit [DecidableEq ω] in
/-- The device finishes a request it has the entry of. -/
theorem complete (awake : Awake watched) {entry : Entry τ} {status : DeviceStatus}
    (complete_eq : watched.sys.complete entry status = .ok next) :
    Awake { watched with sys := next } := by
  have sound := awake.sound.complete complete_eq
  have moves := Moves.complete complete_eq
  rw [System.complete] at complete_eq
  split at complete_eq
  next last last_eq =>
    obtain ⟨working, done⟩ := guard_eq_ok.mp complete_eq
    cases done
    refine awake.quiet sound moves rfl rfl (fun _ _ _ => rfl) fun other used => ?_
    rcases used with finished | in_ring | reading
    · rcases List.mem_append.mp finished with old | new
      · exact .inl (.inl old)
      · refine .inr fun task label => ?_
        rw [List.mem_singleton.mp new] at label ⊢
        obtain ⟨owner, future, rfl, awaits, walk_eq, addr_eq⟩ :=
          awake.sound.walk_entry (List.mem_append_left _ working)
        obtain rfl : owner = task := Option.some.inj label
        rw [walk_eq] at last_eq
        obtain rfl : future.d2 = last := Option.some.inj last_eq
        refine .inr ⟨future, ?_, rfl, ?_⟩
        · cases phase_eq : watched.sys.tasks owner with
          | waiting second => rw [phase_eq] at awaits; exact awaits
          | checked second status waker =>
              rw [phase_eq, Phase.awaits] at awaits
              split at awaits
              next => exact awaits
              next => cases awaits
          | _ => rw [phase_eq] at awaits; cases awaits
        · simp only [addr_eq, Function.update_self]
          exact status.code_ne
    · exact .inl (.inr (.inl in_ring))
    · exact .inl (.inr (.inr reading))
  next => cases complete_eq

omit [DecidableEq ω] in
theorem giveBack (awake : Awake watched) {entry : Entry τ}
    (give_eq : watched.sys.giveBack entry = .ok next) : Awake { watched with sys := next } := by
  have sound := awake.sound.giveBack give_eq
  obtain ⟨mem, done⟩ := guard_eq_ok.mp give_eq
  cases done
  refine awake.quiet sound (Moves.of_eq rfl rfl) rfl rfl (fun _ _ _ => rfl) fun other used => ?_
  rcases used with finished | ⟨slot, slot_eq⟩ | reading
  · exact .inl (.inl (List.mem_of_mem_erase finished))
  · simp only at slot_eq
    by_cases same : slot = Fin.ofNat size watched.sys.vq.usedIdx
    · subst same
      rw [Function.update_self] at slot_eq
      exact .inl (.inl (slot_eq ▸ mem))
    · rw [Function.update_of_ne same] at slot_eq
      exact .inl (.inr (.inl ⟨slot, slot_eq⟩))
  · exact .inl (.inr (.inr reading))

omit [DecidableEq τ] [DecidableEq ω] in
theorem consume (awake : Awake watched) (divides : size ∣ 0x10000)
    (consume_eq : watched.sys.consume = .ok next) : Awake { watched with sys := next } := by
  have sound := awake.sound.consume divides consume_eq
  rw [System.consume] at consume_eq
  split at consume_eq
  next => cases consume_eq
  next =>
    cases consume_eq
    exact awake.quiet sound (Moves.of_eq rfl rfl) rfl rfl (fun _ _ _ => rfl) fun _ used => .inl used

theorem step (awake : Awake watched) (divides : size ∣ 0x10000) (size_lt : size < 0x10000)
    {event : Event τ ω} {after : Watched size τ ω} (fresh : FreshPage watched.sys event)
    (outside : OutsideWindow watched event) (step_eq : watched.step event = .ok after) :
    Awake after := by
  have size_le : size ≤ NO_DESC := Nat.le_of_lt_succ size_lt
  obtain ⟨next, event_eq, rfl⟩ := map_eq_ok.mp step_eq
  have sound := awake.sound.step divides size_lt fresh event_eq
  cases event with
  | transfer task request page =>
      simp only [Virtio.step] at event_eq
      split at event_eq
      next idle =>
        cases event_eq
        exact awake.transfer idle fresh
      next => cases event_eq
  | reserve task =>
      simp only [Virtio.step] at event_eq
      split at event_eq
      next prepared unlocked =>
        cases event_eq
        exact awake.reserve prepared unlocked
      next => cases event_eq
  | post task =>
      simp only [Virtio.step] at event_eq
      split at event_eq
      next reserved =>
        cases event_eq
        refine awake.unpolled sound rfl rfl rfl rfl rfl rfl (by rw [reserved]; rfl) ?_
        rw [reserved]
        exact id
      next => cases event_eq
  | publish task =>
      simp only [Virtio.step] at event_eq
      split at event_eq
      next posted =>
        cases event_eq
        refine awake.unpolled sound rfl rfl rfl rfl rfl rfl (by rw [posted]; rfl) ?_
        rw [posted]
        exact id
      next => cases event_eq
  | check task waker =>
      simp only [Virtio.step] at event_eq
      split at event_eq
      next waiting =>
        cases event_eq
        exact awake.check waker waiting
      next => cases event_eq
  | settle task =>
      simp only [Virtio.step] at event_eq
      split at event_eq
      next checked unlocked => exact awake.settle size_le checked event_eq
      next => cases event_eq
  | release task =>
      simp only [Virtio.step] at event_eq
      split at event_eq
      next freed =>
        cases event_eq
        exact awake.unpolled sound rfl rfl rfl rfl rfl rfl (by rw [freed]; rfl) fun _ => trivial
      next => cases event_eq
  | consume => exact awake.consume divides event_eq
  | complete entry status => exact awake.complete event_eq
  | giveBack entry => exact awake.giveBack event_eq
  | thread => exact awake.threadStep outside event_eq

end Awake

/-- Before the first call, nothing is recorded. -/
structure Watched.Boot (watched : Watched size τ ω) : Prop where
  sys : Virtio.Boot watched.sys
  unwoken : ∀ task, watched.unwoken task = none
  consumed : watched.consumed = []

omit [DecidableEq τ] [DecidableEq ω] in
theorem Awake.boot {watched : Watched size τ ω} (boot : watched.Boot) (size_le : size ≤ NO_DESC) :
    Awake watched := by
  refine ⟨Sound.boot boot.sys size_le, fun entry used task label => ?_,
    fun task waker unwoken => ?_,
    fun _ _ _ _ _ taken => ?_, ?_⟩
  · rcases used with finished | ⟨slot, rfl⟩ | reading
    · rw [boot.sys.device_eq] at finished
      cases finished
    · rw [boot.sys.vq_eq] at label
      cases label
    · rw [boot.sys.thread_eq] at reading
      cases reading
  · cases (boot.unwoken task).symm.trans unwoken
  · cases boot.sys.thread_eq.symm.trans taken
  · rw [boot.consumed]
    nofun

/-- In every run in which the poll thread never takes a slot between the check of the status byte
and the registration, every consumed used element has woken its task. -/
theorem finished_transfer_wakes (power : ∃ exponent, size = 2 ^ exponent) (fits : size < 0x10000)
    {watched final : Watched size τ ω} {events : List (Event τ ω)} (boot : watched.Boot)
    (permits : orderlyMachine.Permits watched events)
    (run_eq : orderlyMachine.run watched events = .ok final) : NoLostTransfer final := by
  have divides := size_dvd power fits
  have keeps : ∀ (watched : Watched size τ ω) event next, Awake watched →
      FreshPage watched.sys event ∧ OutsideWindow watched event →
      orderlyMachine.step watched event = .ok next → Awake next :=
    fun watched event next awake allowed step_eq =>
      awake.step divides fits allowed.1 allowed.2 step_eq
  have awake := orderlyMachine.run_keeps keeps (Awake.boot boot (Nat.le_of_lt_succ fits)) permits
    run_eq
  exact fun task mem => (awake.consumed task mem).2

/-- A queue of four descriptors, and one task. -/
def soloQueue : System 4 Unit Unit where
  vq := vqSetup
  holder := none
  tasks _ := .idle
  headers _ := ⟨0, 0, 0⟩
  bytes _ := 0
  device := ⟨0, [], []⟩
  thread := .boot

/-- One request on a queue of four descriptors, with nothing recorded. -/
def soloWatched : Watched 4 Unit Unit := ⟨soloQueue, fun _ => none, []⟩

/-- The request is submitted, and its future polled until it has read the status byte. -/
def submitAndCheck : List (Event Unit Unit) :=
  [.transfer () ⟨8, 1, 0x9000, false⟩ 0x5000, .reserve (), .post (), .publish (), .check () ()]

/-- The device finishes the request. -/
def finishRequest : List (Event Unit Unit) :=
  [.consume, .complete ⟨0, some ()⟩ .ok, .giveBack ⟨0, some ()⟩]

/-- The poll thread starts, and consumes one used element. -/
def consumeElement : List (Event Unit Unit) := [.thread, .thread, .thread, .thread, .thread]

theorem soloWatched_boot : soloWatched.Boot :=
  ⟨⟨rfl, rfl, fun _ => rfl, rfl, rfl⟩, fun _ => rfl, rfl⟩

/-- The future registers before the device is done, and is woken. -/
theorem finished_transfer_wakes_solo :
    ∃ final, orderlyMachine.run soloWatched
        (submitAndCheck ++ .settle () :: finishRequest ++ consumeElement) = .ok final ∧
      final.consumed = [()] ∧ NoLostTransfer final := by
  obtain ⟨final, run_eq, consumed_eq⟩ : ∃ final, orderlyMachine.run soloWatched
      (submitAndCheck ++ .settle () :: finishRequest ++ consumeElement) = .ok final ∧
        final.consumed = [()] := ⟨_, rfl, rfl⟩
  have permits : orderlyMachine.Permits soloWatched
      (submitAndCheck ++ .settle () :: finishRequest ++ consumeElement) := by
    refine orderlyMachine.permits_cons ⟨fun _ => ⟨by decide, nofun⟩, trivial⟩ rfl ?_
    iterate 8 refine orderlyMachine.permits_cons ⟨trivial, trivial⟩ rfl ?_
    -- the future is not being polled while the poll thread runs
    iterate 5 refine orderlyMachine.permits_cons ⟨trivial, fun _ _ _ _ _ _ _ _ => nofun⟩ rfl ?_
    trivial
  exact ⟨final, run_eq, consumed_eq,
    finished_transfer_wakes ⟨2, rfl⟩ (by decide) soloWatched_boot permits run_eq⟩

/-- The poll thread takes the empty slot before the future registers, which then waits for ever. -/
theorem finished_transfer_not_woken :
    ∃ final, watchedMachine.Permits soloWatched
        (submitAndCheck ++ finishRequest ++ consumeElement ++ [.settle ()]) ∧
      watchedMachine.run soloWatched
        (submitAndCheck ++ finishRequest ++ consumeElement ++ [.settle ()]) = .ok final ∧
      () ∈ final.consumed ∧ (∃ future, final.sys.tasks () = .waiting future) ∧
      final.unwoken () = some () ∧ final.sys.vq.wakers 0 = some () ∧ ¬ NoLostTransfer final := by
  have permits : watchedMachine.Permits soloWatched
      (submitAndCheck ++ finishRequest ++ consumeElement ++ [.settle ()]) := by
    refine watchedMachine.permits_cons (fun _ => ⟨by decide, nofun⟩) rfl ?_
    iterate 13 refine watchedMachine.permits_cons trivial rfl ?_
    trivial
  refine ⟨_, permits, rfl, List.mem_cons_self, ⟨_, rfl⟩, rfl, rfl, fun woken => ?_⟩
  cases woken () List.mem_cons_self

end Vespertine.Virtio
