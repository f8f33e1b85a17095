import Vespertine.Memory.KernelBuffers
import Vespertine.Object.Capabilities
import Vespertine.Program.Elf

/-!
# Loading a program

`load_elf` runs in the thread that spawns a program, as a future that is polled until it returns.
It resolves the file in the caller's handle table and lets the thread act for the kernel process
while it asks for the size of the file and allocates a buffer for it; the caller's process is put
back before the file is read.  What the file answers, and how often it is not ready, is up to the
object behind the handle.  Nobody checks that there is a buffer.  Only `load_elf` writes the process
of a thread.
-/

namespace Vespertine
namespace Loader

open Slab (KernelMemory Layout)

variable {ω κ : Type} [DecidableEq κ]

/-- The outcome of polling a future once. -/
inductive Poll (α : Type)
  | pending
  | ready (value : α)
deriving DecidableEq, Repr

/-- Where the future is suspended, or what it returned. -/
inductive Phase (ω : Type)
  /-- `Stat` is awaited. -/
  | awaitingStat (fileObj : ω) (oldProc : Nat)
  /-- `Read` into the buffer is awaited. -/
  | awaitingRead (fileObj : ω) (fileSize bufferPtr : Nat)
  | returned (result : Except LoaderError Nat)

/-- The calling thread and what it works on. -/
structure State (ω : Type) where
  /-- `TCB.process` of the calling thread. -/
  process : Nat
  /-- Handle tables of all processes. -/
  tables : Nat → HandleTable ω
  /-- The process that is being built. -/
  image : Image
  phase : Phase ω

/-- What happens to a suspended future. -/
inductive Event (ω κ : Type)
  /-- The file object answers a poll of `Stat`; the kernel heap is as it is then. -/
  | stat (reply : Poll (Except InvocationError Nat)) (memory : KernelMemory κ)
  /-- The file object answers a poll of `Read`; `buffer` is the memory behind the buffer pointer. -/
  | read (reply : Poll (Except InvocationError Nat)) (buffer : Nat → BitVec 8)
  /-- Other threads change handle tables. -/
  | other (tables : Nat → HandleTable ω)

/-- Why an event does not lead to a next state. -/
inductive Stop
  /-- The future is not suspended there. -/
  | notAwaited
  | panicked (panic : Panic)
  /-- A slice is made from a null pointer, which is undefined behaviour. -/
  | nullSlice
deriving DecidableEq, Repr

/-- The part of `load_elf` before the first await. -/
def loadElf (kernelProcess process : Nat) (tables : Nat → HandleTable ω) (image : Image)
    (fileHandle : HandleID) : State ω :=
  match (tables process).resolve fileHandle .READ with
  | .error _ => ⟨process, tables, image, .returned (.error .FileReadError)⟩
  | .ok fileObj => ⟨kernelProcess, tables, image, .awaitingStat fileObj process⟩

/-- The buffer of a file is aligned to 8 bytes. -/
def bufferLayout (fileSize : Nat) : Option Layout := Layout.fromSizeAlign fileSize 3

/-- From the answer to `Stat` to the second await. -/
def afterStat (state : State ω) (fileObj : ω) (oldProc : Nat) (memory : KernelMemory κ) :
    Except InvocationError Nat → Except Stop (State ω)
  | .error _ => .ok { state with phase := .returned (.error .FileReadError) }
  | .ok fileSize =>
      match bufferLayout fileSize with
      | none => .ok { state with phase := .returned (.error .FileReadError) }
      | some layout =>
          match memory.alloc layout with
          | .error panic => .error (.panicked panic)
          | .ok (bufferPtr, _) =>
              .ok { state with
                process := oldProc
                phase := .awaitingRead fileObj fileSize bufferPtr }

/-- From the answer to `Read` to the end. -/
def afterRead (state : State ω) (fileSize bufferPtr : Nat) (buffer : Nat → BitVec 8) :
    Except InvocationError Nat → Except Stop (State ω)
  | .error _ => .ok { state with phase := .returned (.error .FileReadError) }
  | .ok _ =>
      if bufferPtr = 0 then
        .error .nullSlice
      else
        match state.image.loadFile ⟨fileSize, buffer⟩ with
        | .error panic => .error (.panicked panic)
        | .ok (result, image) => .ok { state with image, phase := .returned result }

/-- Resume the future, or let other threads run. -/
def step (state : State ω) : Event ω κ → Except Stop (State ω)
  | .other tables => .ok { state with tables }
  | .stat reply memory =>
      match state.phase, reply with
      | .awaitingStat _ _, .pending => .ok state
      | .awaitingStat fileObj oldProc, .ready result =>
          afterStat state fileObj oldProc memory result
      | _, _ => .error .notAwaited
  | .read reply buffer =>
      match state.phase, reply with
      | .awaitingRead _ _ _, .pending => .ok state
      | .awaitingRead _ fileSize bufferPtr, .ready result =>
          afterRead state fileSize bufferPtr buffer result
      | _, _ => .error .notAwaited

/-- The future with its environment. -/
def loading : Machine (State ω) (Event ω κ) Stop := ⟨step, fun _ _ => True⟩

/-- The largest size that `Layout::from_size_align(size, 8)` accepts. -/
def MAX_LAYOUT_SIZE : Nat := 2 ^ 63 - 8

theorem bufferLayout_cases (fileSize : Nat) :
    (MAX_LAYOUT_SIZE < fileSize ∧ bufferLayout fileSize = none) ∨
      ∃ layout, fileSize ≤ MAX_LAYOUT_SIZE ∧ bufferLayout fileSize = some layout := by
  have max_eq : MAX_LAYOUT_SIZE = 2 ^ 63 - 8 := rfl
  rcases Layout.fromSizeAlign_cases fileSize 3 with ⟨large, eq⟩ | ⟨layout, small, eq, -⟩
  · exact .inl ⟨by omega, eq⟩
  · exact .inr ⟨layout, by omega, eq⟩

/-- The first await is behind the future: it has put the process back or has returned. -/
def Settled (state : State ω) : Prop :=
  ∀ fileObj oldProc, state.phase ≠ .awaitingStat fileObj oldProc

section Runs

variable {state next final : State ω} {event : Event ω κ} {events : List (Event ω κ)}

/-- An answer to `Stat` from which the future goes on: it returns in the process it is in, or has a
buffer allocated, with whatever address, and is back in the caller's process. -/
theorem afterStat_cases {fileObj : ω} {oldProc : Nat} {memory : KernelMemory κ}
    {answer : Except InvocationError Nat}
    (stat_eq : afterStat state fileObj oldProc memory answer = .ok next) :
    ((∀ fileSize, answer = .ok fileSize → MAX_LAYOUT_SIZE < fileSize) ∧
        next = { state with phase := .returned (.error .FileReadError) }) ∨
      ∃ fileSize layout bufferPtr after, answer = .ok fileSize ∧ fileSize ≤ MAX_LAYOUT_SIZE ∧
        bufferLayout fileSize = some layout ∧ memory.alloc layout = .ok (bufferPtr, after) ∧
        next = { state with
          process := oldProc
          phase := .awaitingRead fileObj fileSize bufferPtr } := by
  cases answer with
  | error problem =>
      cases stat_eq
      exact .inl ⟨nofun, rfl⟩
  | ok fileSize =>
      rcases bufferLayout_cases fileSize with ⟨large, layout_eq⟩ | ⟨layout, small, layout_eq⟩
      · rw [afterStat, layout_eq] at stat_eq
        cases stat_eq
        refine .inl ⟨fun size same => ?_, rfl⟩
        cases same
        exact large
      · rw [afterStat, layout_eq] at stat_eq
        cases alloc_eq : memory.alloc layout with
        | error panic =>
            simp only [alloc_eq] at stat_eq
            cases stat_eq
        | ok answer =>
            obtain ⟨bufferPtr, after⟩ := answer
            simp only [alloc_eq] at stat_eq
            cases stat_eq
            exact .inr ⟨fileSize, layout, bufferPtr, after, rfl, small, layout_eq, alloc_eq, rfl⟩

/-- Behind the first await no step writes the process, and `Stat` is not polled any more. -/
theorem step_settled (settled : Settled state) (step_eq : step state event = .ok next) :
    Settled next ∧ next.process = state.process ∧ ∀ reply memory, event ≠ .stat reply memory := by
  obtain ⟨process, tables, image, phase⟩ := state
  cases event with
  | other changed =>
      cases step_eq
      exact ⟨settled, rfl, nofun⟩
  | stat reply memory =>
      cases phase with
      | awaitingStat fileObj oldProc => exact absurd rfl (settled fileObj oldProc)
      | awaitingRead fileObj fileSize bufferPtr => cases step_eq
      | returned result => cases step_eq
  | read reply buffer =>
      cases phase with
      | awaitingStat fileObj oldProc => exact absurd rfl (settled fileObj oldProc)
      | returned result => cases step_eq
      | awaitingRead fileObj fileSize bufferPtr =>
          cases reply with
          | pending =>
              cases step_eq
              exact ⟨settled, rfl, nofun⟩
          | ready result =>
              cases result with
              | error problem =>
                  cases step_eq
                  exact ⟨nofun, rfl, nofun⟩
              | ok count =>
                  simp only [step, afterRead] at step_eq
                  split at step_eq
                  next => cases step_eq
                  next =>
                    split at step_eq
                    · cases step_eq
                    · cases step_eq
                      exact ⟨nofun, rfl, nofun⟩

theorem run_settled (settled : Settled state) (run_eq : loading.run state events = .ok final) :
    final.process = state.process ∧ ∀ reply memory, .stat reply memory ∉ events := by
  induction events generalizing state with
  | nil =>
      cases run_eq
      exact ⟨rfl, by simp⟩
  | cons event events ih =>
      obtain ⟨next, step_eq, rest_eq⟩ := loading.run_cons_eq_ok run_eq
      obtain ⟨next_settled, process_eq, other⟩ := step_settled settled step_eq
      obtain ⟨final_eq, absent⟩ := ih next_settled rest_eq
      refine ⟨final_eq.trans process_eq, fun reply memory mem => ?_⟩
      rcases List.mem_cons.mp mem with same | later
      · exact other reply memory same.symm
      · exact absent reply memory later

/-- `Stat` was answered with a size that a layout can have. -/
def Answered (events : List (Event ω κ)) : Prop :=
  ∃ fileSize ≤ MAX_LAYOUT_SIZE, ∃ memory, .stat (.ready (.ok fileSize)) memory ∈ events

omit [DecidableEq κ] in
theorem not_answered_of_settled {result : Except InvocationError Nat} {memory : KernelMemory κ}
    (refused : ∀ fileSize, result = .ok fileSize → MAX_LAYOUT_SIZE < fileSize)
    (absent : ∀ reply memory, .stat reply memory ∉ events) :
    ¬Answered (.stat (.ready result) memory :: events) := by
  rintro ⟨fileSize, small, memory', mem⟩
  rcases List.mem_cons.mp mem with same | later
  · simp only [Event.stat.injEq, Poll.ready.injEq] at same
    exact absurd small (Nat.not_le.mpr (refused fileSize same.1.symm))
  · exact absent _ _ later

/-- While `Stat` is awaited the thread acts for the kernel; it is put back exactly when `Stat`
answers a size that a layout can have. -/
theorem run_awaitingStat {fileObj : ω} {oldProc : Nat} {result : Except LoaderError Nat}
    (phase_eq : state.phase = .awaitingStat fileObj oldProc)
    (run_eq : loading.run state events = .ok final) (returned : final.phase = .returned result) :
    (Answered events ∧ final.process = oldProc) ∨
      (¬Answered events ∧ final.process = state.process) := by
  induction events generalizing state with
  | nil =>
      cases run_eq
      rw [phase_eq] at returned
      cases returned
  | cons event events ih =>
      obtain ⟨next, step_eq, rest_eq⟩ := loading.run_cons_eq_ok run_eq
      change step state event = .ok next at step_eq
      cases event with
      | other tables =>
          cases step_eq
          simpa [Answered] using ih (by exact phase_eq) rest_eq
      | read reply buffer => simp [step, phase_eq] at step_eq
      | stat reply memory =>
          cases reply with
          | pending =>
              simp only [step, phase_eq, Except.ok.injEq] at step_eq
              subst step_eq
              simpa [Answered] using ih phase_eq rest_eq
          | ready answer =>
              simp only [step, phase_eq] at step_eq
              rcases afterStat_cases step_eq with
                ⟨refused, rfl⟩ | ⟨fileSize, _, _, _, rfl, small, -, -, rfl⟩
              · obtain ⟨process_eq, absent⟩ := run_settled (by exact nofun) rest_eq
                exact .inr ⟨not_answered_of_settled refused absent, process_eq⟩
              · obtain ⟨process_eq, -⟩ := run_settled (by exact nofun) rest_eq
                exact .inl ⟨⟨fileSize, small, memory, List.mem_cons_self ..⟩, process_eq⟩

end Runs

/-- When `load_elf` returns, with whatever result, the calling thread acts for its own process again
if and only if the handle was refused before the switch, the caller is the kernel process itself, or
`Stat` answered a size that a layout can have. -/
theorem load_elf_restores_iff {kernelProcess process : Nat} {tables : Nat → HandleTable ω}
    {image : Image} {fileHandle : HandleID} {events : List (Event ω κ)} {final : State ω}
    {result : Except LoaderError Nat}
    (run_eq : loading.run (loadElf kernelProcess process tables image fileHandle) events =
      .ok final)
    (returned : final.phase = .returned result) :
    final.process = process ↔
      (∃ problem, (tables process).resolve fileHandle .READ = .error problem) ∨
        process = kernelProcess ∨
        ∃ fileSize ≤ MAX_LAYOUT_SIZE, ∃ memory,
          Event.stat (.ready (.ok fileSize)) memory ∈ events := by
  rw [loadElf] at run_eq
  cases resolved : (tables process).resolve fileHandle .READ with
  | error problem =>
      rw [resolved] at run_eq
      obtain ⟨process_eq, -⟩ := run_settled (by exact nofun) run_eq
      exact iff_of_true process_eq (.inl ⟨problem, rfl⟩)
  | ok fileObj =>
      rw [resolved] at run_eq
      rcases run_awaitingStat rfl run_eq returned with ⟨answered, process_eq⟩ |
        ⟨unanswered, process_eq⟩
      · exact iff_of_true process_eq (.inr (.inr answered))
      · constructor
        · intro restored
          exact .inr (.inl (restored.symm.trans process_eq))
        · rintro (⟨problem, ⟨⟩⟩ | same | answered)
          · exact process_eq.trans same.symm
          · exact absurd answered unanswered

/-- Process 5 holds one object, readable, under handle 4. -/
def oneHandle (object : Capabilities.Object) : Nat → HandleTable Capabilities.Object :=
  fun process => if process = 5 then HandleTable.new.insertAt 4 object .READ else .new

/-- A process under construction in which nothing has been placed. -/
def emptyImage : Image :=
  ⟨.new (fun _ => ⟨0, 0, 0, none, none, none, 0⟩) 0x1000 fun _ _ => .unused, fun _ => none, 0,
    fun _ => 0, [], [], []⟩

/-- A file of ten bytes, not ready at first, is no program; the caller gets its process back. -/
theorem load_elf_restores_iff_short_file :
    ∃ final, loading.run (loadElf 0 5 (oneHandle (.file 1)) emptyImage 4)
        [.stat .pending .objectsOnly, .stat (.ready (.ok 10)) .objectsOnly,
          .read .pending fun _ => 0, .read (.ready (.ok 10)) fun _ => 0] = .ok final ∧
      final.phase = .returned (.error .InvalidBuffer) ∧ final.process = 5 := by
  obtain ⟨final, run_eq, phase_eq⟩ : ∃ final,
      loading.run (loadElf 0 5 (oneHandle (.file 1)) emptyImage 4)
          [.stat .pending .objectsOnly, .stat (.ready (.ok 10)) .objectsOnly,
            .read .pending fun _ => 0, .read (.ready (.ok 10)) fun _ => 0] = .ok final ∧
        final.phase = .returned (.error .InvalidBuffer) := ⟨_, rfl, rfl⟩
  refine ⟨final, run_eq, phase_eq, (load_elf_restores_iff run_eq phase_eq).mpr ?_⟩
  exact .inr (.inr ⟨10, by decide, .objectsOnly, by simp⟩)

/-- A directory does not answer `Stat`; the caller is left acting for the kernel process. -/
theorem load_elf_keeps_kernel :
    ∃ final, loading.run (loadElf 0 5 (oneHandle (.directory 1)) emptyImage 4)
        [.stat (.ready (.error .UnsupportedOperation)) .objectsOnly] = .ok final ∧
      final.phase = .returned (.error .FileReadError) ∧ final.process = 0 :=
  ⟨_, rfl, rfl, rfl⟩

end Loader
end Vespertine
