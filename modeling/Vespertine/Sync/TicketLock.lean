import Mathlib.Data.Fintype.EquivFin
import Mathlib.SetTheory.Cardinal.Finite
import Vespertine.Library.Transition

/-!
# The ticket lock

`lock` takes a ticket in one atomic operation and spins until that ticket is served.  `unlock` loads
the number that is served and stores its successor, in two operations.  Both counters wrap.

The lists of threads that took tickets and that entered are not in the source: each grows in the
step that it is about.  The invariant splits the first list at the two places where `serving` and
the second list have come to.
-/

namespace Vespertine
namespace TicketLock

open Function (update)

/-- Where a thread is in `lock` or `unlock`. -/
inductive Phase where
  /-- In neither, and without the lock. -/
  | idle
  /-- About to compare `serving` with its ticket. -/
  | spinning (ticket : BitVec 64)
  /-- `lock` has returned. -/
  | holding
  /-- `unlock` has loaded `serving` and is about to store its successor. -/
  | unlocking (successor : BitVec 64)
  deriving DecidableEq

structure State (τ : Type) where
  ticket : BitVec 64
  serving : BitVec 64
  phase : τ → Phase
  /-- The threads that took a ticket, in that order. -/
  taken : List τ
  /-- The threads that entered, in that order. -/
  entered : List τ

inductive Input (τ : Type) where
  /-- A call of `lock` begins. -/
  | lock (thread : τ)
  /-- A call of `unlock` begins, by the thread that holds the lock. -/
  | unlock (thread : τ)
  /-- The next step of a call. -/
  | advance (thread : τ)

/-- A thread that cannot take this step now. -/
inductive Disabled where
  | disabled

variable {τ : Type} [DecidableEq τ]

namespace State

/-- `RawTicketLock::new`. -/
def new : State τ := ⟨0, 0, fun _ => .idle, [], []⟩

/-- `ticket.fetch_add(1)`. -/
def fetchAdd (state : State τ) (thread : τ) : State τ :=
  { state with
    ticket := state.ticket + 1
    phase := update state.phase thread (.spinning state.ticket)
    taken := state.taken ++ [thread] }

/-- `serving.load()`, which ends the loop if the ticket is served. -/
def spin (state : State τ) (thread : τ) (ticket : BitVec 64) : State τ :=
  if state.serving ≠ ticket then
    state
  else
    { state with
      phase := update state.phase thread .holding
      entered := state.entered ++ [thread] }

/-- `serving.load()` in `unlock`. -/
def load (state : State τ) (thread : τ) : State τ :=
  { state with phase := update state.phase thread (.unlocking (state.serving + 1)) }

/-- `serving.store(successor)`. -/
def store (state : State τ) (thread : τ) (successor : BitVec 64) : State τ :=
  { state with serving := successor, phase := update state.phase thread .idle }

/-- The thread has returned from `lock`, and its `unlock` has not ended. -/
def Inside (state : State τ) (thread : τ) : Prop :=
  state.phase thread = .holding ∨ ∃ successor, state.phase thread = .unlocking successor

/-- The thread has a ticket and spins. -/
def Waiting (state : State τ) (thread : τ) : Prop :=
  ∃ ticket, state.phase thread = .spinning ticket

end State

def step (state : State τ) : Input τ → Except Disabled (State τ)
  | .lock thread =>
      match state.phase thread with
      | .idle => .ok (state.fetchAdd thread)
      | _ => .error .disabled
  | .unlock thread =>
      match state.phase thread with
      | .holding => .ok (state.load thread)
      | _ => .error .disabled
  | .advance thread =>
      match state.phase thread with
      | .spinning ticket => .ok (state.spin thread ticket)
      | .unlocking successor => .ok (state.store thread successor)
      | .idle | .holding => .error .disabled

/-- Threads lock at will, and unlock what they hold. -/
def machine : Machine (State τ) (Input τ) Disabled := ⟨step, fun _ _ => True⟩

/-!
### What a step does
-/

section Steps

variable {state next : State τ} {thread : τ}

/-- The outcomes of a step. -/
inductive Turn (state : State τ) (thread : τ) : State τ → Prop where
  | fetchAdd (phase_eq : state.phase thread = .idle) : Turn state thread (state.fetchAdd thread)
  | stay {ticket : BitVec 64} (phase_eq : state.phase thread = .spinning ticket)
      (ne : state.serving ≠ ticket) : Turn state thread state
  | enter (phase_eq : state.phase thread = .spinning state.serving) :
      Turn state thread { state with
        phase := update state.phase thread .holding
        entered := state.entered ++ [thread] }
  | load (phase_eq : state.phase thread = .holding) : Turn state thread (state.load thread)
  | store {successor : BitVec 64} (phase_eq : state.phase thread = .unlocking successor) :
      Turn state thread (state.store thread successor)

theorem spin_turn {ticket : BitVec 64} (phase_eq : state.phase thread = .spinning ticket) :
    Turn state thread (state.spin thread ticket) := by
  rw [State.spin]
  split
  next ne => exact .stay phase_eq ne
  next eq =>
    obtain rfl : state.serving = ticket := not_not.mp eq
    exact .enter phase_eq

/-- A step is one of these. -/
theorem step_turn {input : Input τ} (step_eq : step state input = .ok next) :
    ∃ thread, Turn state thread next := by
  cases input with
  | lock thread =>
      simp only [step] at step_eq
      split at step_eq
      next phase_eq =>
        obtain rfl := Except.ok.inj step_eq
        exact ⟨thread, .fetchAdd phase_eq⟩
      next => cases step_eq
  | unlock thread =>
      simp only [step] at step_eq
      split at step_eq
      next phase_eq =>
        obtain rfl := Except.ok.inj step_eq
        exact ⟨thread, .load phase_eq⟩
      next => cases step_eq
  | advance thread =>
      simp only [step] at step_eq
      split at step_eq
      next ticket phase_eq =>
        obtain rfl := Except.ok.inj step_eq
        exact ⟨thread, spin_turn phase_eq⟩
      next successor phase_eq =>
        obtain rfl := Except.ok.inj step_eq
        exact ⟨thread, .store phase_eq⟩
      next => cases step_eq
      next => cases step_eq

end Steps

/-!
### The line of threads

`gone` are the threads that have unlocked, `holder` the thread inside, and `waiting` those with a
ticket of a later number.
-/

/-- The number after so many. -/
def numbered (count : Nat) : BitVec 64 := .ofNat 64 count

theorem numbered_succ (count : Nat) : numbered (count + 1) = numbered count + 1 := by
  rw [numbered, BitVec.ofNat_add]
  rfl

/-- Numbers that are less than a whole turn apart tell how far apart they are. -/
theorem eq_of_numbered_eq {first distance : Nat} (near : distance < 2 ^ 64)
    (eq : numbered first = numbered (first + distance)) : distance = 0 := by
  have values := congrArg BitVec.toNat eq
  simp only [numbered, BitVec.toNat_ofNat] at values
  omega

structure Line (state : State τ) (gone : List τ) (holder : Option τ) (waiting : List τ) :
    Prop where
  entered_eq : state.entered = gone ++ holder.toList
  taken_eq : state.taken = state.entered ++ waiting
  ticket_eq : state.ticket = numbered state.taken.length
  serving_eq : state.serving = numbered gone.length
  nodup : (holder.toList ++ waiting).Nodup
  idle_iff : ∀ thread, state.phase thread = .idle ↔ thread ∉ holder.toList ++ waiting
  holds : ∀ thread, holder = some thread →
    state.phase thread = .holding ∨ state.phase thread = .unlocking (state.serving + 1)
  /-- Each waits for the number of its place. -/
  spins : ∀ place thread, waiting[place]? = some thread →
    state.phase thread = .spinning (numbered (state.entered.length + place))

omit [DecidableEq τ] in
/-- Those behind the first of a line are others. -/
theorem ne_of_behind {first other : τ} {rest : List τ} {place : Nat}
    (nodup : (first :: rest).Nodup) (place_eq : rest[place]? = some other) : other ≠ first := by
  rintro rfl
  exact (List.nodup_cons.mp nodup).1 (List.mem_of_getElem? place_eq)

namespace Line

variable {state next : State τ} {thread : τ} {gone waiting : List τ} {holder : Option τ}

omit [DecidableEq τ] in
theorem new : Line (State.new : State τ) [] none [] where
  entered_eq := rfl
  taken_eq := rfl
  ticket_eq := rfl
  serving_eq := rfl
  nodup := List.nodup_nil
  idle_iff := by simp [State.new]
  holds := nofun
  spins := by simp

omit [DecidableEq τ] in
theorem spinning_of_mem (line : Line state gone holder waiting) (mem : thread ∈ waiting) :
    ∃ place, waiting[place]? = some thread ∧
      state.phase thread = .spinning (numbered (state.entered.length + place)) := by
  obtain ⟨place, place_eq⟩ := List.mem_iff_getElem?.mp mem
  exact ⟨place, place_eq, line.spins place thread place_eq⟩

/-- A thread inside is the holder. -/
theorem holder_eq (line : Line state gone holder waiting) (inside : state.Inside thread) :
    holder = some thread := by
  have not_idle : state.phase thread ≠ .idle := by
    rcases inside with phase_eq | ⟨successor, phase_eq⟩ <;> simp [phase_eq]
  have member : thread ∈ holder.toList ++ waiting := by
    by_contra outside
    exact not_idle ((line.idle_iff thread).mpr outside)
  rcases List.mem_append.mp member with held | waits
  · exact Option.mem_toList.mp held
  · obtain ⟨place, -, spinning⟩ := line.spinning_of_mem waits
    rcases inside with phase_eq | ⟨successor, phase_eq⟩
    · cases phase_eq.symm.trans spinning
    · cases phase_eq.symm.trans spinning

theorem waiting_iff (line : Line state gone holder waiting) :
    state.Waiting thread ↔ thread ∈ waiting := by
  constructor
  · rintro ⟨ticket, phase_eq⟩
    have member : thread ∈ holder.toList ++ waiting := by
      by_contra outside
      cases phase_eq.symm.trans ((line.idle_iff thread).mpr outside)
    rcases List.mem_append.mp member with held | waits
    · rcases line.holds thread (Option.mem_toList.mp held) with holding | unlocking
      · cases phase_eq.symm.trans holding
      · cases phase_eq.symm.trans unlocking
    · exact waits
  · intro mem
    obtain ⟨place, -, spinning⟩ := line.spinning_of_mem mem
    exact ⟨_, spinning⟩

omit [DecidableEq τ] in
/-- Everyone in the line is another thread. -/
theorem length_lt [Finite τ] (few : Nat.card τ < 2 ^ 64)
    (line : Line state gone holder waiting) : (holder.toList ++ waiting).length < 2 ^ 64 := by
  have := Fintype.ofFinite τ
  have le := line.nodup.length_le_card
  rw [Nat.card_eq_fintype_card] at few
  omega

/-- Only the first in the line, with nobody inside, waits for the number that is served. -/
theorem first_of_served [Finite τ] (few : Nat.card τ < 2 ^ 64)
    (line : Line state gone holder waiting)
    (phase_eq : state.phase thread = .spinning state.serving) :
    holder = none ∧ ∃ rest, waiting = thread :: rest := by
  obtain ⟨place, place_eq, spinning⟩ := line.spinning_of_mem (line.waiting_iff.mp ⟨_, phase_eq⟩)
  obtain ⟨place_lt, -⟩ := List.getElem?_eq_some_iff.mp place_eq
  have length_lt := line.length_lt few
  rw [List.length_append] at length_lt
  have number_eq := Phase.spinning.inj (phase_eq.symm.trans spinning)
  rw [line.serving_eq, line.entered_eq, List.length_append, Nat.add_assoc] at number_eq
  have distance : holder.toList.length + place = 0 := by
    apply eq_of_numbered_eq _ number_eq
    omega
  constructor
  · cases holder with
    | none => rfl
    | some other => simp at distance
  · obtain rfl : place = 0 := by omega
    cases waiting with
    | nil => cases place_eq
    | cons first rest =>
        obtain rfl : first = thread := by simpa using place_eq
        exact ⟨rest, rfl⟩

/-- The new thread goes to the end of the line, with the number of its place. -/
theorem fetchAdd (line : Line state gone holder waiting) (phase_eq : state.phase thread = .idle) :
    Line (state.fetchAdd thread) gone holder (waiting ++ [thread]) := by
  have outside := (line.idle_iff thread).mp phase_eq
  have other_of_mem : ∀ member ∈ holder.toList ++ waiting, member ≠ thread := by
    rintro member mem rfl
    exact outside mem
  constructor
  · exact line.entered_eq
  · simp [State.fetchAdd, line.taken_eq]
  · rw [State.fetchAdd, line.ticket_eq, List.length_append, List.length_singleton, numbered_succ]
  · exact line.serving_eq
  · rw [← List.append_assoc, ← List.concat_eq_append]
    exact line.nodup.concat outside
  · intro other
    rcases eq_or_ne other thread with rfl | ne
    · simp [State.fetchAdd]
    · simp [State.fetchAdd, ne, line.idle_iff]
  · intro other holder_eq
    have ne := other_of_mem other (by simp [holder_eq])
    simpa [State.fetchAdd, ne] using line.holds other holder_eq
  · intro place other place_eq
    rcases lt_or_ge place waiting.length with earlier | later
    · rw [List.getElem?_append_left earlier] at place_eq
      have ne := other_of_mem other (List.mem_append_right _ (List.mem_of_getElem? place_eq))
      simpa [State.fetchAdd, ne] using line.spins place other place_eq
    · rw [List.getElem?_append_right later, List.getElem?_singleton] at place_eq
      obtain ⟨last, rfl⟩ : place - waiting.length = 0 ∧ thread = other := by simpa using place_eq
      obtain rfl : place = waiting.length := by omega
      simp [State.fetchAdd, line.ticket_eq, line.taken_eq]

/-- The first in the line goes inside. -/
theorem enter {rest : List τ} (line : Line state gone none (thread :: rest)) :
    Line { state with
      phase := update state.phase thread .holding
      entered := state.entered ++ [thread] } gone (some thread) rest := by
  constructor
  · simp [line.entered_eq]
  · simp [line.taken_eq]
  · exact line.ticket_eq
  · exact line.serving_eq
  · exact line.nodup
  · intro other
    rcases eq_or_ne other thread with rfl | ne
    · simp
    · simpa [ne] using line.idle_iff other
  · intro other holder_eq
    obtain rfl := Option.some.inj holder_eq
    simp
  · intro place other place_eq
    have ne := ne_of_behind line.nodup place_eq
    have spinning := line.spins (place + 1) other (by simpa using place_eq)
    simpa [ne, Nat.add_assoc, Nat.add_comm 1] using spinning

theorem load (line : Line state gone (some thread) waiting) :
    Line (state.load thread) gone (some thread) waiting where
  entered_eq := line.entered_eq
  taken_eq := line.taken_eq
  ticket_eq := line.ticket_eq
  serving_eq := line.serving_eq
  nodup := line.nodup
  idle_iff := by
    intro other
    rcases eq_or_ne other thread with rfl | ne
    · simp [State.load]
    · simpa [State.load, ne] using line.idle_iff other
  holds := by
    intro other holder_eq
    obtain rfl := Option.some.inj holder_eq
    simp [State.load]
  spins := by
    intro place other place_eq
    have ne := ne_of_behind line.nodup place_eq
    simpa [State.load, ne] using line.spins place other place_eq

/-- The thread inside leaves, and the next number is served. -/
theorem store (line : Line state gone (some thread) waiting) :
    Line (state.store thread (state.serving + 1)) (gone ++ [thread]) none waiting where
  entered_eq := by simpa [State.store] using line.entered_eq
  taken_eq := line.taken_eq
  ticket_eq := line.ticket_eq
  serving_eq := by
    rw [State.store, line.serving_eq, List.length_append, List.length_singleton, numbered_succ]
  nodup := (List.nodup_cons.mp line.nodup).2
  idle_iff := by
    intro other
    rcases eq_or_ne other thread with rfl | ne
    · simpa [State.store] using (List.nodup_cons.mp line.nodup).1
    · simpa [State.store, ne] using line.idle_iff other
  holds := nofun
  spins := by
    intro place other place_eq
    have ne := ne_of_behind line.nodup place_eq
    simpa [State.store, ne] using line.spins place other place_eq

theorem turn [Finite τ] (few : Nat.card τ < 2 ^ 64) (line : Line state gone holder waiting)
    (turn : Turn state thread next) :
    ∃ gone holder waiting, Line next gone holder waiting := by
  cases turn with
  | fetchAdd phase_eq => exact ⟨_, _, _, line.fetchAdd phase_eq⟩
  | stay => exact ⟨_, _, _, line⟩
  | enter phase_eq =>
      obtain ⟨rfl, rest, rfl⟩ := line.first_of_served few phase_eq
      exact ⟨_, _, _, line.enter⟩
  | load phase_eq =>
      obtain rfl := line.holder_eq (.inl phase_eq)
      exact ⟨_, _, _, line.load⟩
  | store phase_eq =>
      obtain rfl := line.holder_eq (.inr ⟨_, phase_eq⟩)
      rcases line.holds thread rfl with holding | unlocking
      · cases phase_eq.symm.trans holding
      · obtain rfl := Phase.unlocking.inj (phase_eq.symm.trans unlocking)
        exact ⟨_, _, _, line.store⟩

/-- Every state of a run has its line. -/
theorem run [Finite τ] (few : Nat.card τ < 2 ^ 64) {inputs : List (Input τ)} {final : State τ}
    (run_eq : machine.run State.new inputs = .ok final) :
    ∃ gone holder waiting, Line final gone holder waiting := by
  apply machine.run_invariant (fun state input next line step_eq => ?_) ⟨_, _, _, new⟩ run_eq
  obtain ⟨gone, holder, waiting, line⟩ := line
  obtain ⟨thread, turn⟩ := step_turn step_eq
  exact line.turn few turn

/-- With nobody inside, the first in the line enters by its next step. -/
theorem first_enters {rest : List τ} (line : Line state gone none (thread :: rest)) :
    step state (.advance thread) = .ok { state with
      phase := update state.phase thread .holding
      entered := state.entered ++ [thread] } := by
  have spinning := line.spins 0 thread rfl
  rw [line.entered_eq] at spinning
  have served : state.serving = numbered ((gone ++ (none : Option τ).toList).length + 0) := by
    simpa using line.serving_eq
  rw [← served] at spinning
  simp [step, spinning, State.spin]

end Line

/-- In whatever order the threads take their steps, at most one of them is inside, they have entered
in the order of their tickets, and those that wait are the ones whose tickets come next; when one
waits and nobody is inside, the oldest ticket enters by its thread's next step. -/
theorem one_inside_and_in_order [Finite τ] (few : Nat.card τ < 2 ^ 64)
    {inputs : List (Input τ)} {final : State τ}
    (run_eq : machine.run State.new inputs = .ok final) :
    (∀ first second, final.Inside first → final.Inside second → first = second) ∧
    final.entered <+: final.taken ∧
    (∀ thread, final.Waiting thread ↔ thread ∈ final.taken.drop final.entered.length) ∧
    ∀ thread, final.Waiting thread → (∀ other, ¬ final.Inside other) →
      ∃ oldest next, final.taken[final.entered.length]? = some oldest ∧
        step final (.advance oldest) = .ok next ∧ next.phase oldest = .holding ∧
        next.entered = final.entered ++ [oldest] := by
  obtain ⟨gone, holder, waiting, line⟩ := Line.run few run_eq
  refine ⟨fun first second first_inside second_inside => ?_, ?_, fun thread => ?_, ?_⟩
  · exact Option.some.inj
      ((line.holder_eq first_inside).symm.trans (line.holder_eq second_inside))
  · exact ⟨waiting, line.taken_eq.symm⟩
  · rw [line.waiting_iff, line.taken_eq, List.drop_left]
  · intro thread waits nobody
    obtain rfl : holder = none := by
      cases holder with
      | none => rfl
      | some other =>
          rcases line.holds other rfl with holding | unlocking
          · exact absurd (.inl holding) (nobody other)
          · exact absurd (.inr ⟨_, unlocking⟩) (nobody other)
    cases waiting with
    | nil => cases line.waiting_iff.mp waits
    | cons oldest rest =>
        refine ⟨oldest, _, ?_, line.first_enters, ?_, rfl⟩
        · simp [line.taken_eq]
        · simp

/-- The first thread unlocks in two steps while the second one spins. -/
def handedOver : List (Input Bool) :=
  [.lock false, .advance false, .lock true, .advance true, .unlock false, .advance false]

theorem one_inside_and_in_order_handedOver : ∃ final,
    machine.run State.new handedOver = .ok final ∧ final.taken = [false, true] ∧
      final.entered = [false] ∧ final.Waiting true ∧
      ∃ next, step final (.advance true) = .ok next ∧ next.entered = [false, true] := by
  have run_eq : machine.run State.new handedOver = .ok _ := rfl
  obtain ⟨-, -, waiting_iff, oldest_enters⟩ := one_inside_and_in_order (by simp) run_eq
  have waits := (waiting_iff true).mpr List.mem_cons_self
  obtain ⟨oldest, next, oldest_eq, step_eq, -, entered_eq⟩ := oldest_enters true waits (by
    rintro (_ | _) (inside | ⟨successor, inside⟩) <;> cases inside)
  obtain rfl : true = oldest := Option.some.inj oldest_eq
  exact ⟨_, run_eq, rfl, rfl, waits, next, step_eq, entered_eq⟩

end TicketLock
end Vespertine
