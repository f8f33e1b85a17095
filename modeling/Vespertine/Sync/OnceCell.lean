import Vespertine.Library.Transition
import Vespertine.Library.Waiters

/-!
# The once cell

The first thread to move `state` from `UNINITIATED` to `RUNNING` calls its closure, writes the value
and stores `READY`; the others spin until they see that.  The write takes time, and a thread that
read the slot before its end would see a part of the value.

Threads take one atomic operation at a time, and two steps to write.  A reference is returned with
what the slot holds at that time.  `get` returns `None` at once when its load does not see `READY`.
-/

namespace Vespertine
namespace OnceCell

open Function (update)
open Waiters (Holds)

/-- The values of `state`. -/
inductive CellState where
  | UNINITIATED
  | RUNNING
  | READY
  deriving DecidableEq

/-- The memory of the value. -/
inductive Slot (T : Type) where
  | uninit
  /-- A write has begun. -/
  | partly
  | written (value : T)
  deriving DecidableEq

/-- Where a thread is in `get_or_init` or `get`. -/
inductive Phase (φ T : Type) where
  | idle
  /-- `get_or_init` is about to load `state`. -/
  | loading (closure : φ)
  /-- In the loop, about to compare and exchange. -/
  | exchanging (closure : φ)
  /-- The exchange succeeded, and the closure runs. -/
  | calling (closure : φ)
  /-- The closure has returned; the write has not begun. -/
  | writing (value : T)
  | filling (value : T)
  /-- About to store `READY`. -/
  | storing
  /-- `get_or_init` is about to return the reference. -/
  | reading
  /-- `get` is about to load `state`. -/
  | getting
  /-- `get` has seen `READY` and is about to return the reference. -/
  | finding
  deriving DecidableEq

namespace Phase

variable {φ T : Type}

/-- The thread has been the one to initialise, and has not stored `READY`. -/
def Busy : Phase φ T → Prop
  | .calling _ | .writing _ | .filling _ | .storing => True
  | .idle | .loading _ | .exchanging _ | .reading | .getting | .finding => False

/-- The thread is about to return a reference. -/
def Reads : Phase φ T → Prop
  | .reading | .finding => True
  | .idle | .loading _ | .exchanging _ | .calling _ | .writing _ | .filling _ | .storing
  | .getting => False

theorem Reads.not_busy {phase : Phase φ T} (reads : phase.Reads) : ¬ phase.Busy := by
  cases phase <;> first | exact id | cases reads

end Phase

/-- What a call returned, with what the slot holds where it is a reference. -/
inductive Return (T : Type) where
  /-- `get_or_init` returned. -/
  | initialised (slot : Slot T)
  /-- `get` returned `Some`. -/
  | found (slot : Slot T)
  /-- `get` returned `None`. -/
  | absent

/-- The call returned a reference, which shows this. -/
def Return.Shows {T : Type} (result : Return T) (slot : Slot T) : Prop :=
  result = .initialised slot ∨ result = .found slot

structure State (τ φ T : Type) where
  state : CellState
  value : Slot T
  phase : τ → Phase φ T
  /-- The closures that were called, in that order. -/
  called : List φ
  /-- The closures that returned, with their values. -/
  made : List (φ × T)
  /-- What the calls returned, in that order. -/
  returns : List (Return T)

inductive Input (τ φ T : Type) where
  /-- A call of `get_or_init` begins. -/
  | getOrInit (thread : τ) (closure : φ)
  /-- A call of `get` begins. -/
  | get (thread : τ)
  /-- The closure that the thread called returns a value. -/
  | finish (thread : τ) (value : T)
  /-- The next step of a call. -/
  | advance (thread : τ)

/-- A thread that cannot take this step now. -/
inductive Disabled where
  | disabled

variable {τ φ T : Type} [DecidableEq τ]

namespace State

/-- `KernelOnceCell::new`. -/
def new : State τ φ T := ⟨.UNINITIATED, .uninit, fun _ => .idle, [], [], []⟩

/-- The thread goes on to another phase. -/
def move (state : State τ φ T) (thread : τ) (after : Phase φ T) : State τ φ T :=
  { state with phase := update state.phase thread after }

/-- The call of the thread returns. -/
def give (state : State τ φ T) (thread : τ) (result : Return T) : State τ φ T :=
  { state with
    phase := update state.phase thread .idle
    returns := state.returns ++ [result] }

/-- `state.load() == READY` in `get_or_init`. -/
def load (state : State τ φ T) (thread : τ) (closure : φ) : State τ φ T :=
  if state.state = .READY then
    state.move thread .reading
  else
    state.move thread (.exchanging closure)

/-- `state.compare_exchange(UNINITIATED, RUNNING)`, and the call of the closure if it succeeds. -/
def compareExchange (state : State τ φ T) (thread : τ) (closure : φ) : State τ φ T :=
  match state.state with
  | .UNINITIATED =>
      { state with
        state := .RUNNING
        phase := update state.phase thread (.calling closure)
        called := state.called ++ [closure] }
  | .READY => state.move thread .reading
  | .RUNNING => state

/-- `f()` returns. -/
def finish (state : State τ φ T) (thread : τ) (closure : φ) (value : T) : State τ φ T :=
  { state with
    phase := update state.phase thread (.writing value)
    made := state.made ++ [(closure, value)] }

/-- The first part of `write`. -/
def fill (state : State τ φ T) (thread : τ) (value : T) : State τ φ T :=
  { state with value := .partly, phase := update state.phase thread (.filling value) }

/-- The last part of `write`. -/
def complete (state : State τ φ T) (thread : τ) (value : T) : State τ φ T :=
  { state with value := .written value, phase := update state.phase thread .storing }

/-- `state.store(READY)`. -/
def store (state : State τ φ T) (thread : τ) : State τ φ T :=
  { state with state := .READY, phase := update state.phase thread .reading }

/-- `state.load() == READY` in `get`. -/
def loadGet (state : State τ φ T) (thread : τ) : State τ φ T :=
  if state.state = .READY then state.move thread .finding else state.give thread .absent

end State

def step (state : State τ φ T) : Input τ φ T → Except Disabled (State τ φ T)
  | .getOrInit thread closure =>
      match state.phase thread with
      | .idle => .ok (state.move thread (.loading closure))
      | _ => .error .disabled
  | .get thread =>
      match state.phase thread with
      | .idle => .ok (state.move thread .getting)
      | _ => .error .disabled
  | .finish thread value =>
      match state.phase thread with
      | .calling closure => .ok (state.finish thread closure value)
      | _ => .error .disabled
  | .advance thread =>
      match state.phase thread with
      | .loading closure => .ok (state.load thread closure)
      | .exchanging closure => .ok (state.compareExchange thread closure)
      | .writing value => .ok (state.fill thread value)
      | .filling value => .ok (state.complete thread value)
      | .storing => .ok (state.store thread)
      | .reading => .ok (state.give thread (.initialised state.value))
      | .getting => .ok (state.loadGet thread)
      | .finding => .ok (state.give thread (.found state.value))
      | .idle | .calling _ => .error .disabled

/-- Threads call `get_or_init` and `get` at will. -/
def machine : Machine (State τ φ T) (Input τ φ T) Disabled := ⟨step, fun _ _ => True⟩

/-!
### What a step does
-/

section Steps

variable {state next : State τ φ T} {thread : τ}

/-- The outcomes of a step. -/
inductive Turn (state : State τ φ T) (thread : τ) : State τ φ T → Prop where
  /-- A thread that is not at the initialisation goes on. -/
  | move {after : Phase φ T} (was : ¬ (state.phase thread).Busy) (stays : ¬ after.Busy)
      (ready : after.Reads → state.state = .READY) : Turn state thread (state.move thread after)
  | spin : Turn state thread state
  | claim {closure : φ} (phase_eq : state.phase thread = .exchanging closure)
      (free : state.state = .UNINITIATED) : Turn state thread { state with
        state := .RUNNING
        phase := update state.phase thread (.calling closure)
        called := state.called ++ [closure] }
  | finish {closure : φ} (phase_eq : state.phase thread = .calling closure) (value : T) :
      Turn state thread (state.finish thread closure value)
  | fill {value : T} (phase_eq : state.phase thread = .writing value) :
      Turn state thread (state.fill thread value)
  | complete {value : T} (phase_eq : state.phase thread = .filling value) :
      Turn state thread (state.complete thread value)
  | store (phase_eq : state.phase thread = .storing) : Turn state thread (state.store thread)
  | absent (phase_eq : state.phase thread = .getting) (not_ready : state.state ≠ .READY) :
      Turn state thread (state.give thread .absent)
  | reference {result : Return T} (reads : (state.phase thread).Reads)
      (shows : result.Shows state.value) :
      Turn state thread (state.give thread result)

theorem load_turn {closure : φ} (phase_eq : state.phase thread = .loading closure) :
    Turn state thread (state.load thread closure) := by
  have was : ¬ (state.phase thread).Busy := by simp [phase_eq, Phase.Busy]
  rw [State.load]
  split
  next ready => exact .move was id fun _ => ready
  next => exact .move was id False.elim

theorem compareExchange_turn {closure : φ} (phase_eq : state.phase thread = .exchanging closure) :
    Turn state thread (state.compareExchange thread closure) := by
  rw [State.compareExchange]
  split
  next free => exact .claim phase_eq free
  next ready => exact .move (by simp [phase_eq, Phase.Busy]) id fun _ => ready
  next => exact .spin

theorem loadGet_turn (phase_eq : state.phase thread = .getting) :
    Turn state thread (state.loadGet thread) := by
  rw [State.loadGet]
  split
  next ready => exact .move (by simp [phase_eq, Phase.Busy]) id fun _ => ready
  next not_ready => exact .absent phase_eq not_ready

/-- A step is one of these. -/
theorem step_turn {input : Input τ φ T} (step_eq : step state input = .ok next) :
    ∃ thread, Turn state thread next := by
  cases input with
  | getOrInit thread closure =>
      simp only [step] at step_eq
      split at step_eq
      next phase_eq =>
        obtain rfl := Except.ok.inj step_eq
        exact ⟨thread, .move (by simp [phase_eq, Phase.Busy]) id False.elim⟩
      next => cases step_eq
  | get thread =>
      simp only [step] at step_eq
      split at step_eq
      next phase_eq =>
        obtain rfl := Except.ok.inj step_eq
        exact ⟨thread, .move (by simp [phase_eq, Phase.Busy]) id False.elim⟩
      next => cases step_eq
  | finish thread value =>
      simp only [step] at step_eq
      split at step_eq
      next phase_eq =>
        obtain rfl := Except.ok.inj step_eq
        exact ⟨thread, .finish phase_eq value⟩
      next => cases step_eq
  | advance thread =>
      refine ⟨thread, ?_⟩
      simp only [step] at step_eq
      split at step_eq
      next phase_eq =>
        obtain rfl := Except.ok.inj step_eq
        exact load_turn phase_eq
      next phase_eq =>
        obtain rfl := Except.ok.inj step_eq
        exact compareExchange_turn phase_eq
      next phase_eq =>
        obtain rfl := Except.ok.inj step_eq
        exact .fill phase_eq
      next phase_eq =>
        obtain rfl := Except.ok.inj step_eq
        exact .complete phase_eq
      next phase_eq =>
        obtain rfl := Except.ok.inj step_eq
        exact .store phase_eq
      next phase_eq =>
        obtain rfl := Except.ok.inj step_eq
        exact .reference (by simp [phase_eq, Phase.Reads]) (.inl rfl)
      next phase_eq =>
        obtain rfl := Except.ok.inj step_eq
        exact loadGet_turn phase_eq
      next phase_eq =>
        obtain rfl := Except.ok.inj step_eq
        exact .reference (by simp [phase_eq, Phase.Reads]) (.inr rfl)
      next => cases step_eq
      next => cases step_eq

end Steps

/-!
### One initialisation
-/

/-- How far the initialisation has come, with the phase of the thread that is at it. -/
inductive Stage :
    CellState → Slot T → List φ → List (φ × T) → Option (Phase φ T) → Prop where
  | fresh : Stage .UNINITIATED .uninit [] [] none
  | calling (closure : φ) : Stage .RUNNING .uninit [closure] [] (some (.calling closure))
  | writing (closure : φ) (value : T) :
      Stage .RUNNING .uninit [closure] [(closure, value)] (some (.writing value))
  | filling (closure : φ) (value : T) :
      Stage .RUNNING .partly [closure] [(closure, value)] (some (.filling value))
  | storing (closure : φ) (value : T) :
      Stage .RUNNING (.written value) [closure] [(closure, value)] (some .storing)
  | ready (closure : φ) (value : T) :
      Stage .READY (.written value) [closure] [(closure, value)] none

namespace Stage

variable {cell : CellState} {slot : Slot T} {called : List φ} {made : List (φ × T)}
  {phase : Option (Phase φ T)}

theorem of_free (stage : Stage .UNINITIATED slot called made phase) :
    phase = none ∧ slot = .uninit ∧ called = [] ∧ made = [] := by
  cases stage
  exact ⟨rfl, rfl, rfl, rfl⟩

theorem of_ready (stage : Stage .READY slot called made phase) :
    phase = none ∧ ∃ closure value, slot = .written value ∧ called = [closure] ∧
      made = [(closure, value)] := by
  cases stage
  exact ⟨rfl, _, _, rfl, rfl, rfl⟩

theorem length_le_one (stage : Stage cell slot called made phase) : called.length ≤ 1 := by
  cases stage <;> simp

theorem finish {closure : φ} (value : T)
    (stage : Stage cell slot called made (some (.calling closure))) :
    cell = .RUNNING ∧
      Stage .RUNNING slot called (made ++ [(closure, value)]) (some (.writing value)) := by
  cases stage
  exact ⟨rfl, .writing closure value⟩

theorem fill {value : T} (stage : Stage cell slot called made (some (.writing value))) :
    cell = .RUNNING ∧ Stage .RUNNING .partly called made (some (.filling value)) := by
  cases stage
  exact ⟨rfl, .filling _ value⟩

theorem complete {value : T} (stage : Stage cell slot called made (some (.filling value))) :
    cell = .RUNNING ∧ Stage .RUNNING (.written value) called made (some .storing) := by
  cases stage
  exact ⟨rfl, .storing _ value⟩

theorem store (stage : Stage cell slot called made (some .storing)) :
    cell = .RUNNING ∧ Stage .READY slot called made none := by
  cases stage
  exact ⟨rfl, .ready _ _⟩

end Stage

/-- The calls of `get` that came too early, and then only references to what is in the slot. -/
def Answers (state : CellState) (slot : Slot T) (returns : List (Return T)) : Prop :=
  ∃ early late, returns = early ++ late ∧ (∀ result ∈ early, result = .absent) ∧
    (∀ result ∈ late, result.Shows slot) ∧
    (state ≠ .READY → late = [])

structure Sound (state : State τ φ T) : Prop where
  stage : ∃ owner, Holds owner state.phase Phase.Busy ∧
    Stage state.state state.value state.called state.made (owner.map state.phase)
  /-- Who is about to return a reference has seen `READY`. -/
  ready : ∀ thread, (state.phase thread).Reads → state.state = .READY
  answers : Answers state.state state.value state.returns

namespace Answers

variable {state after : CellState} {slot other : Slot T} {returns : List (Return T)}

/-- Before `READY` nothing depends on the slot. -/
theorem of_not_ready (answers : Answers state slot returns) (not_ready : state ≠ .READY) :
    Answers after other returns := by
  obtain ⟨early, late, returns_eq, early_absent, -, late_nil⟩ := answers
  obtain rfl := late_nil not_ready
  exact ⟨early, [], returns_eq, early_absent, by simp, fun _ => rfl⟩

theorem absent (answers : Answers state slot returns) (not_ready : state ≠ .READY) :
    Answers state slot (returns ++ [.absent]) := by
  obtain ⟨early, late, rfl, early_absent, -, late_nil⟩ := answers
  obtain rfl := late_nil not_ready
  refine ⟨early ++ [.absent], [], by simp, fun result mem => ?_, by simp, fun _ => rfl⟩
  rcases List.mem_append.mp mem with mem | mem
  · exact early_absent result mem
  · simpa using mem

theorem reference {result : Return T} (answers : Answers .READY slot returns)
    (shows : result.Shows slot) :
    Answers .READY slot (returns ++ [result]) := by
  obtain ⟨early, late, rfl, early_absent, late_slot, -⟩ := answers
  refine ⟨early, late ++ [result], by simp, early_absent, fun other mem => ?_, fun ne => ?_⟩
  · rcases List.mem_append.mp mem with mem | mem
    · exact late_slot other mem
    · obtain rfl : other = result := by simpa using mem
      exact shows
  · exact absurd rfl ne

/-- Only what is ready was returned. -/
theorem shown {result : Return T} (answers : Answers state slot returns) (mem : result ∈ returns)
    (shows : result.Shows other) : state = .READY ∧ other = slot := by
  obtain ⟨early, late, rfl, early_absent, late_shows, late_nil⟩ := answers
  rcases List.mem_append.mp mem with mem | mem
  · obtain rfl := early_absent result mem
    rcases shows with result_eq | result_eq <;> cases result_eq
  · constructor
    · by_contra not_ready
      rw [late_nil not_ready] at mem
      cases mem
    · rcases late_shows result mem with rfl | rfl <;> rcases shows with eq | eq <;> cases eq <;> rfl

theorem none_later {earlier later : List (Return T)} {result : Return T}
    (answers : Answers state slot returns) (split : returns = earlier ++ result :: later)
    (present : result ≠ .absent) : .absent ∉ later := by
  obtain ⟨early, late, returns_eq, early_absent, late_shows, -⟩ := answers
  have late_of_later : ∀ other ∈ later, other ∈ late := by
    rcases List.append_eq_append_iff.mp (split.symm.trans returns_eq) with
      ⟨between, early_eq, rest_eq⟩ | ⟨between, -, rfl⟩
    · cases between with
      | nil =>
          intro other mem
          rw [← rest_eq.trans (List.nil_append late)]
          exact List.mem_cons_of_mem _ mem
      | cons first between =>
          obtain rfl : result = first := (List.cons.inj rest_eq).1
          exact absurd (early_absent result (by simp [early_eq])) present
    · intro other mem
      exact List.mem_append_right _ (List.mem_cons_of_mem _ mem)
  intro mem
  rcases late_shows _ (late_of_later _ mem) with eq | eq <;> cases eq

end Answers

namespace Sound

variable {state next : State τ φ T} {thread : τ}

omit [DecidableEq τ] in
theorem new : Sound (State.new : State τ φ T) where
  stage := ⟨none, by simp [Holds, State.new, Phase.Busy], .fresh⟩
  ready := by simp [State.new, Phase.Reads]
  answers := ⟨[], [], rfl, by simp, by simp, fun _ => rfl⟩

omit [DecidableEq τ] in
/-- A thread that is at the initialisation is the only one. -/
theorem stage_of_busy (sound : Sound state) (busy : (state.phase thread).Busy) :
    Holds (some thread) state.phase Phase.Busy ∧
      Stage state.state state.value state.called state.made (some (state.phase thread)) := by
  obtain ⟨owner, holds, stage⟩ := sound.stage
  obtain rfl : owner = some thread := (holds thread).mpr busy
  exact ⟨holds, stage⟩

/-- A thread that is not at the initialisation goes on. -/
theorem quiet (sound : Sound state) {after : Phase φ T} {returns : List (Return T)}
    (was : ¬ (state.phase thread).Busy) (stays : ¬ after.Busy)
    (ready : after.Reads → state.state = .READY)
    (answers : Answers state.state state.value returns) :
    Sound { state with phase := update state.phase thread after, returns } where
  stage := by
    obtain ⟨owner, holds, stage⟩ := sound.stage
    refine ⟨owner, holds.keep (iff_of_false stays was), ?_⟩
    cases owner with
    | none => exact stage
    | some owner =>
        have ne : owner ≠ thread := by
          rintro rfl
          exact was ((holds owner).mp rfl)
        simpa [ne] using stage
  ready := by
    intro other reads
    rcases eq_or_ne other thread with rfl | ne
    · exact ready (by simpa using reads)
    · exact sound.ready other (by simpa [ne] using reads)
  answers := answers

/-- A thread begins with the initialisation, or goes on with it. -/
theorem running (sound : Sound state) {after : Phase φ T} {value : Slot T}
    {called : List φ} {made : List (φ × T)} (not_ready : state.state ≠ .READY)
    (holds : Holds (some thread) (update state.phase thread after) Phase.Busy)
    (silent : ¬ after.Reads) (stage : Stage .RUNNING value called made (some after)) :
    Sound ⟨.RUNNING, value, update state.phase thread after, called, made, state.returns⟩ where
  stage := ⟨some thread, holds, by simpa using stage⟩
  ready := by
    intro other reads
    rcases eq_or_ne other thread with rfl | ne
    · exact absurd (by simpa using reads) silent
    · exact absurd (sound.ready other (by simpa [ne] using reads)) not_ready
  answers := sound.answers.of_not_ready not_ready

theorem claim (sound : Sound state) {closure : φ} (free : state.state = .UNINITIATED) :
    Sound { state with
      state := .RUNNING
      phase := update state.phase thread (.calling closure)
      called := state.called ++ [closure] } := by
  obtain ⟨owner, holds, stage⟩ := sound.stage
  rw [free] at stage
  obtain ⟨owner_eq, value_eq, called_eq, made_eq⟩ := stage.of_free
  obtain rfl := Option.map_eq_none_iff.mp owner_eq
  have taken : Holds (some thread) (update state.phase thread (.calling closure)) Phase.Busy :=
    holds.take trivial
  rw [value_eq, called_eq, made_eq]
  apply sound.running _ taken id (.calling closure)
  simp [free]

theorem proceed (sound : Sound state) {after : Phase φ T} {value : Slot T} {made : List (φ × T)}
    (busy : (state.phase thread).Busy) (stays : after.Busy) (silent : ¬ after.Reads)
    (stage : Stage state.state state.value state.called state.made (some (state.phase thread)) →
      state.state = .RUNNING ∧ Stage .RUNNING value state.called made (some after)) :
    Sound { state with value, phase := update state.phase thread after, made } := by
  obtain ⟨holds, before⟩ := sound.stage_of_busy busy
  obtain ⟨state_eq, later⟩ := stage before
  rw [state_eq]
  apply sound.running _ (holds.keep (iff_of_true stays busy)) silent later
  simp [state_eq]

theorem store (sound : Sound state) (phase_eq : state.phase thread = .storing) :
    Sound (state.store thread) := by
  have busy : (state.phase thread).Busy := by simp [phase_eq, Phase.Busy]
  obtain ⟨holds, stage⟩ := sound.stage_of_busy busy
  rw [phase_eq] at stage
  obtain ⟨state_eq, later⟩ := stage.store
  refine ⟨⟨none, holds.release busy id, later⟩, fun _ _ => rfl, ?_⟩
  apply sound.answers.of_not_ready
  simp [state_eq]

theorem turn (sound : Sound state) (turn : Turn state thread next) : Sound next := by
  cases turn with
  | move was stays ready => exact sound.quiet was stays ready sound.answers
  | spin => exact sound
  | claim phase_eq free => exact sound.claim free
  | finish phase_eq value =>
      refine sound.proceed (by simp [phase_eq, Phase.Busy]) trivial id ?_
      rw [phase_eq]
      exact Stage.finish value
  | fill phase_eq =>
      refine sound.proceed (by simp [phase_eq, Phase.Busy]) trivial id ?_
      rw [phase_eq]
      exact Stage.fill
  | complete phase_eq =>
      refine sound.proceed (by simp [phase_eq, Phase.Busy]) trivial id ?_
      rw [phase_eq]
      exact Stage.complete
  | store phase_eq => exact sound.store phase_eq
  | absent phase_eq not_ready =>
      apply sound.quiet (by simp [phase_eq, Phase.Busy]) id False.elim
      exact sound.answers.absent not_ready
  | reference reads shows =>
      have answers := sound.answers
      rw [sound.ready thread reads] at answers
      apply sound.quiet reads.not_busy id False.elim
      rw [sound.ready thread reads]
      exact answers.reference shows

theorem run {inputs : List (Input τ φ T)} {final : State τ φ T}
    (run_eq : machine.run State.new inputs = .ok final) : Sound final := by
  refine machine.run_invariant (fun state input next sound step_eq => ?_) new run_eq
  obtain ⟨thread, turn⟩ := step_turn step_eq
  exact sound.turn turn

omit [DecidableEq τ] in
theorem stage_of_ready (sound : Sound state) (ready : state.state = .READY) :
    ∃ closure value, state.value = .written value ∧ state.called = [closure] ∧
      state.made = [(closure, value)] := by
  obtain ⟨owner, -, stage⟩ := sound.stage
  rw [ready] at stage
  exact stage.of_ready.2

omit [DecidableEq τ] in
theorem shown (sound : Sound state) {slot : Slot T} {result : Return T}
    (mem : result ∈ state.returns) (shows : result.Shows slot) :
    ∃ closure value, state.called = [closure] ∧ state.made = [(closure, value)] ∧
      slot = .written value := by
  obtain ⟨ready, rfl⟩ := sound.answers.shown mem shows
  obtain ⟨closure, value, slot_eq, called_eq, made_eq⟩ := sound.stage_of_ready ready
  exact ⟨closure, value, called_eq, made_eq, slot_eq⟩

/-- What is ready stays ready, and its slot is not written again. -/
theorem turn_ready (sound : Sound state) (ready : state.state = .READY)
    (turn : Turn state thread next) : next.state = .READY ∧ next.value = state.value := by
  have not_busy : ¬ (state.phase thread).Busy := by
    intro busy
    obtain ⟨-, stage⟩ := sound.stage_of_busy busy
    rw [ready] at stage
    cases stage.of_ready.1
  cases turn with
  | move | spin | absent | reference => exact ⟨ready, rfl⟩
  | claim phase_eq free => cases free.symm.trans ready
  | finish phase_eq | fill phase_eq | complete phase_eq | store phase_eq =>
      exact absurd (by simp [phase_eq, Phase.Busy]) not_busy

theorem run_ready {rest : List (Input τ φ T)} {mid final : State τ φ T} (sound : Sound mid)
    (ready : mid.state = .READY) (run_eq : machine.run mid rest = .ok final) :
    Sound final ∧ final.state = .READY ∧ final.value = mid.value := by
  have keeps : ∀ (state : State τ φ T) input next,
      Sound state ∧ state.state = .READY ∧ state.value = mid.value → step state input = .ok next →
        Sound next ∧ next.state = .READY ∧ next.value = mid.value := by
    rintro state input next ⟨sound, ready, value_eq⟩ step_eq
    obtain ⟨thread, turn⟩ := step_turn step_eq
    obtain ⟨next_ready, next_value⟩ := sound.turn_ready ready turn
    exact ⟨sound.turn turn, next_ready, next_value.trans value_eq⟩
  exact machine.run_invariant keeps ⟨sound, ready, rfl⟩ run_eq

end Sound

/-- In whatever order the threads take their steps: at most one closure is called; a reference that
was returned shows the value of that closure, completely written; no `get` returns `None` after a
call has returned a reference; and what is ready stays so, with its value. -/
theorem one_value {inputs rest : List (Input τ φ T)} {mid final : State τ φ T}
    (mid_eq : machine.run State.new inputs = .ok mid)
    (final_eq : machine.run mid rest = .ok final) :
    final.called.length ≤ 1 ∧
    (∀ slot result, result ∈ final.returns → result.Shows slot → ∃ closure value,
      final.called = [closure] ∧ final.made = [(closure, value)] ∧ slot = .written value) ∧
    (∀ earlier result later, final.returns = earlier ++ result :: later → result ≠ .absent →
      .absent ∉ later) ∧
    (mid.state = .READY → final.state = .READY ∧ final.value = mid.value ∧
      ∃ closure value, final.made = [(closure, value)] ∧ final.value = .written value) := by
  have sound : Sound final := Sound.run ((machine.run_append_ok rest mid_eq).trans final_eq)
  refine ⟨?_, fun slot result mem shows => sound.shown mem shows, ?_, fun ready => ?_⟩
  · obtain ⟨owner, -, stage⟩ := sound.stage
    exact stage.length_le_one
  · intro earlier result later split present
    exact sound.answers.none_later split present
  · obtain ⟨-, final_ready, value_eq⟩ := (Sound.run mid_eq).run_ready ready final_eq
    obtain ⟨closure, value, slot_eq, -, made_eq⟩ := sound.stage_of_ready final_ready
    exact ⟨final_ready, value_eq, closure, value, made_eq, slot_eq⟩

/-- Closure 0 runs while the second thread asks for the value and then offers closure 1. -/
def contended : List (Input Bool Nat Nat) :=
  [.getOrInit false 0, .advance false, .advance false, .get true, .advance true,
    .getOrInit true 1, .advance true, .advance true, .finish false 7, .advance false,
    .advance false, .advance false]

/-- Both calls return, and `get` is called again. -/
def returning : List (Input Bool Nat Nat) :=
  [.advance true, .advance true, .advance false, .get true, .advance true, .advance true]

theorem one_value_contended : ∃ mid final,
    machine.run State.new contended = .ok mid ∧ machine.run mid returning = .ok final ∧
      final.returns = [.absent, .initialised (.written 7), .initialised (.written 7),
        .found (.written 7)] ∧
      final.called.length ≤ 1 ∧ final.state = .READY ∧ final.value = mid.value := by
  have whole_eq : machine.run State.new (contended ++ returning) = .ok _ := rfl
  obtain ⟨mid, mid_eq, final_eq⟩ := machine.run_append_eq_ok whole_eq
  have first_eq : machine.run State.new contended = .ok _ := rfl
  obtain rfl := Except.ok.inj (mid_eq.symm.trans first_eq)
  obtain ⟨called, -, -, kept⟩ := one_value mid_eq final_eq
  obtain ⟨ready, value_eq, -⟩ := kept rfl
  exact ⟨_, _, mid_eq, final_eq, rfl, called, ready, value_eq⟩

end OnceCell
end Vespertine
