import Vespertine.Interrupts.Shootdown

/-!
# Progress of the shootdown protocol

When calls are made only while clear, one core runs a round at a time and every other core owes it
one acknowledgement: its interrupt is not yet sent, posted, being handled or acknowledged.  On two
cores, the core that acknowledged may already queue for the lock.  The counter is the number of
acknowledgements owed, so a core that spins always waits for a core that can move.

Without the restriction two kinds of calls deadlock: a core that waits for the lock takes no
interrupt, and a core that was interrupted once is never interrupted again.
-/

namespace Vespertine
namespace Shootdown

variable {n : Nat}

/-- What a core other than the active one still has to do in a round. -/
inductive Duty
  | unsent
  | posted
  | handling
  | acking
  | done
  /-- The acknowledgement is given and the core already waits for the lock. -/
  | queued (addr : Nat)
deriving DecidableEq, Repr

namespace Duty

/-- The core with that duty, while the lock serves a given ticket. -/
def core (serving : Nat) : Duty → Core
  | .unsent => ⟨.idle, false, false⟩
  | .posted => ⟨.idle, true, false⟩
  | .handling => ⟨.handling, false, true⟩
  | .acking => ⟨.acking, false, true⟩
  | .done => ⟨.idle, false, true⟩
  | .queued addr => ⟨.locking addr (wrappingAdd serving 1), false, true⟩

/-- The acknowledgement is still to come. -/
def owes : Duty → Bool
  | .unsent | .posted | .handling | .acking => true
  | .done | .queued _ => false

/-- The core waits for the lock. -/
def isQueued : Duty → Bool
  | .queued _ => true
  | _ => false

end Duty

/-- Number of acknowledgements owed to the active core. -/
def owing (active : Fin n) (duty : Fin n → Duty) : Nat :=
  (Finset.univ.filter fun core => core ≠ active ∧ (duty core).owes = true).card

/-- One core is in `shootdown`, the others have their duties. -/
structure Round (state : State n) (active : Fin n) (duty : Fin n → Duty) (sent : Nat) : Prop where
  /-- The other cores stand where their duties say. -/
  others : ∀ core ≠ active, state.cores core = (duty core).core state.serving
  /-- Interrupts are sent in the order of the cores. -/
  unsent : ∀ core ≠ active, duty core = .unsent ↔ sent ≤ core.val
  /-- The active core is not interrupted. -/
  quiet : (state.cores active).pending = false
  /-- Only the other one of two cores queues, and the active core is not in service then. -/
  pair : ∀ core ≠ active, (duty core).isQueued = true →
    (state.cores active).inService = false ∧ ∀ third, third = active ∨ third = core
  /-- Without a queue the next ticket follows the one being served. -/
  ticket_free : (∀ core ≠ active, (duty core).isQueued = false) →
    state.ticket = wrappingAdd state.serving 1
  /-- With a queue it follows the one that waits. -/
  ticket_queued : ∀ core ≠ active, (duty core).isQueued = true →
    state.ticket = wrappingAdd (wrappingAdd state.serving 1) 1

/-- How far the round is, by the phase of the active core. -/
def Stage (state : State n) (active : Fin n) (duty : Fin n → Duty) (sent : Nat) : Phase → Prop
  | .locking _ ticket => ticket = state.serving ∧ sent = 0
  | .storeAddr _ | .storeCounter _ => sent = 0
  | .sending _ id => sent = id ∧ id ≤ n ∧ state.counter = owing active duty
  | .flushing _ | .spinning => sent = n ∧ state.counter = owing active duty
  | .unlocking => sent = n ∧ ∀ core ≠ active, (duty core).owes = false
  | .idle | .handling | .acking => False

/-- States of runs with clear calls. -/
def Sound (state : State n) : Prop :=
  state.Final ∧ state.ticket = state.serving ∨
    ∃ active duty sent, Round state active duty sent ∧
      Stage state active duty sent (state.cores active).phase

section Cores

variable (state : State n) (core : Fin n)

@[simp] theorem setCore_self (value : Core) : (state.setCore core value).cores core = value := by
  simp [State.setCore]

theorem setCore_other {other : Fin n} (value : Core) (ne : other ≠ core) :
    (state.setCore core value).cores other = state.cores other := by
  simp [State.setCore, ne]

@[simp] theorem setPhase_self (phase : Phase) :
    (state.setPhase core phase).cores core = { state.cores core with phase } := by
  simp [State.setPhase]

theorem setPhase_other {other : Fin n} (phase : Phase) (ne : other ≠ core) :
    (state.setPhase core phase).cores other = state.cores other :=
  setCore_other state core _ ne

end Cores

section Owing

variable {active : Fin n} {duty : Fin n → Duty}

theorem owing_pos_iff : 0 < owing active duty ↔ ∃ core ≠ active, (duty core).owes = true := by
  rw [owing, Finset.card_pos]
  constructor
  · rintro ⟨core, mem⟩
    exact ⟨core, (Finset.mem_filter.mp mem).2⟩
  · rintro ⟨core, ne, owes⟩
    exact ⟨core, Finset.mem_filter.mpr ⟨Finset.mem_univ core, ne, owes⟩⟩

/-- A change of duty that keeps the debt keeps the count. -/
theorem owing_update_same {core : Fin n} {value : Duty} (same : value.owes = (duty core).owes) :
    owing active (Function.update duty core value) = owing active duty := by
  rw [owing, owing]
  congr 1
  apply Finset.filter_congr
  intro other _
  by_cases here : other = core
  · subst here
    simp [same]
  · simp [here]

/-- A core that acknowledges reduces the count by one. -/
theorem owing_update_done {core : Fin n} {value : Duty} (ne : core ≠ active)
    (owed : (duty core).owes = true) (paid : value.owes = false) :
    owing active (Function.update duty core value) + 1 = owing active duty := by
  have erased : (Finset.univ.filter fun other => other ≠ active ∧
      (Function.update duty core value other).owes = true) =
      (Finset.univ.filter fun other => other ≠ active ∧ (duty other).owes = true).erase core := by
    ext other
    by_cases here : other = core
    · subst here
      simp [paid]
    · simp [here]
  have mem : core ∈ Finset.univ.filter fun other => other ≠ active ∧ (duty other).owes = true := by
    simp [ne, owed]
  rw [owing, owing, erased, Finset.card_erase_add_one mem]

theorem owing_all_unsent (all : ∀ core ≠ active, duty core = .unsent) :
    owing active duty = n - 1 := by
  have erased : (Finset.univ.filter fun core => core ≠ active ∧ (duty core).owes = true) =
      Finset.univ.erase active := by
    ext core
    by_cases here : core = active
    · simp [here]
    · have owes : (duty core).owes = true := by rw [all core here]; rfl
      simp [here, owes]
  rw [owing, erased, Finset.card_erase_of_mem (Finset.mem_univ active), Finset.card_univ,
    Fintype.card_fin]

/-- The active core owes nothing, so the count is below the number of cores. -/
theorem owing_lt (active : Fin n) (duty : Fin n → Duty) : owing active duty < n := by
  have sub : (Finset.univ.filter fun core => core ≠ active ∧ (duty core).owes = true) ⊆
      Finset.univ.erase active := by
    intro core mem
    exact Finset.mem_erase.mpr ⟨(Finset.mem_filter.mp mem).2.1, Finset.mem_univ core⟩
  calc owing active duty
      ≤ (Finset.univ.erase active).card := Finset.card_le_card sub
    _ < (Finset.univ : Finset (Fin n)).card := Finset.card_erase_lt_of_mem (Finset.mem_univ active)
    _ = n := by simp

end Owing

/-- A sound state is final or a core can move. -/
theorem Sound.progress {state : State n} (sound : Sound state) :
    state.Final ∨ ∃ core, (state.advance core).isSome ∨ (state.deliver core).isSome := by
  rcases sound with ⟨final, -⟩ | ⟨active, duty, sent, round, stage⟩
  · exact .inl final
  right
  cases phase : (state.cores active).phase with
  | idle | handling | acking =>
      rw [phase] at stage
      exact stage.elim
  | locking addr ticket =>
      rw [phase] at stage
      exact ⟨active, .inl (by simp [State.advance, phase, stage.1])⟩
  | storeAddr addr => exact ⟨active, .inl (by simp [State.advance, phase])⟩
  | storeCounter addr => exact ⟨active, .inl (by simp [State.advance, phase])⟩
  | sending addr id =>
      refine ⟨active, .inl ?_⟩
      simp only [State.advance, phase]
      split <;> rfl
  | flushing addr => exact ⟨active, .inl (by simp [State.advance, phase])⟩
  | unlocking => exact ⟨active, .inl (by simp [State.advance, phase])⟩
  | spinning =>
      -- Either all acknowledgements are in, or the core that owes one can move.
      rw [phase] at stage
      by_cases all_in : state.counter = 0
      · exact ⟨active, .inl (by simp [State.advance, phase, all_in])⟩
      · obtain ⟨sent_eq, counter_eq⟩ := stage
        obtain ⟨core, ne, owes⟩ := owing_pos_iff.mp (show 0 < owing active duty by omega)
        have core_eq := round.others core ne
        refine ⟨core, ?_⟩
        cases duty_eq : duty core with
        | unsent =>
            have sent_le := (round.unsent core ne).mp duty_eq
            omega
        | posted => exact .inr (by simp [State.deliver, core_eq, duty_eq, Duty.core])
        | handling => exact .inl (by simp [State.advance, core_eq, duty_eq, Duty.core])
        | acking => exact .inl (by simp [State.advance, core_eq, duty_eq, Duty.core])
        | done | queued addr =>
            rw [duty_eq] at owes
            cases owes

section Steps

variable {state next : State n} {active : Fin n} {duty : Fin n → Duty} {sent : Nat}

/-- The active core is in `shootdown`, so it is neither idle nor in the handler. -/
theorem Stage.not_idle (stage : Stage state active duty sent (state.cores active).phase) :
    (state.cores active).phase ≠ .idle := by
  intro idle
  rw [idle] at stage
  exact stage

/-- The stage only reads the served ticket, the counter and the debts. -/
theorem Stage.transfer {state' : State n} {duty' : Fin n → Duty} {phase : Phase}
    (stage : Stage state active duty sent phase) (serving_eq : state'.serving = state.serving)
    (counter_eq : state'.counter = state.counter)
    (owing_eq : owing active duty' = owing active duty)
    (paid : ∀ core, (duty core).owes = false → (duty' core).owes = false) :
    Stage state' active duty' sent phase := by
  cases phase with
  | idle | handling | acking => exact stage
  | locking addr ticket => exact ⟨stage.1.trans serving_eq.symm, stage.2⟩
  | storeAddr addr | storeCounter addr => exact stage
  | sending addr id =>
      exact ⟨stage.1, stage.2.1, by rw [counter_eq, owing_eq]; exact stage.2.2⟩
  | flushing addr | spinning => exact ⟨stage.1, by rw [counter_eq, owing_eq]; exact stage.2⟩
  | unlocking => exact ⟨stage.1, fun core ne => paid core (stage.2 core ne)⟩

/-- A move of the active core alone keeps the round. -/
theorem Round.setPhase (round : Round state active duty sent) (phase : Phase) :
    Round (state.setPhase active phase) active duty sent := by
  refine ⟨fun core ne => ?_, round.unsent, ?_, fun core ne queued => ?_, round.ticket_free,
    round.ticket_queued⟩
  · rw [setPhase_other state active phase ne]
    exact round.others core ne
  · rw [setPhase_self]
    exact round.quiet
  · rw [setPhase_self]
    exact round.pair core ne queued

/-- A core that does not queue changes its duty. -/
theorem Round.setDuty (round : Round state active duty sent) {core : Fin n} (ne : core ≠ active)
    {value : Duty} {sent' : Nat}
    (unsent : ∀ other ≠ active, Function.update duty core value other = .unsent ↔ sent' ≤ other.val)
    (was_free : (duty core).isQueued = false) (stays_free : value.isQueued = false) :
    Round (state.setCore core (value.core state.serving)) active
      (Function.update duty core value) sent' := by
  have queued_iff (other : Fin n) :
      (Function.update duty core value other).isQueued = (duty other).isQueued := by
    by_cases here : other = core
    · subst here
      simp [was_free, stays_free]
    · simp [here]
  refine ⟨fun other other_ne => ?_, unsent, ?_, fun other other_ne queued => ?_, fun free => ?_,
    fun other other_ne queued => ?_⟩
  · by_cases here : other = core
    · subst here
      simp [State.setCore]
    · rw [setCore_other state core _ here, Function.update_of_ne here]
      exact round.others other other_ne
  · rw [setCore_other state core _ ne.symm]
    exact round.quiet
  · rw [queued_iff] at queued
    rw [setCore_other state core _ ne.symm]
    exact round.pair other other_ne queued
  · exact round.ticket_free fun other other_ne =>
      (queued_iff other).symm.trans (free other other_ne)
  · exact round.ticket_queued other other_ne ((queued_iff other).symm.trans queued)

/-- A core that was interrupted moves on; no further interrupt is sent. -/
theorem Round.setSentDuty (round : Round state active duty sent) {core : Fin n} (ne : core ≠ active)
    {value : Duty} (was_sent : duty core ≠ .unsent) (stays_sent : value ≠ .unsent)
    (was_free : (duty core).isQueued = false) (stays_free : value.isQueued = false) :
    Round (state.setCore core (value.core state.serving)) active
      (Function.update duty core value) sent := by
  refine round.setDuty ne (fun other other_ne => ?_) was_free stays_free
  by_cases here : other = core
  · subst here
    have later := (round.unsent other other_ne).not.mp was_sent
    simp [stays_sent, later]
  · rw [Function.update_of_ne here]
    exact round.unsent other other_ne

theorem Round.idle_duty (round : Round state active duty sent) {core : Fin n} (ne : core ≠ active)
    (idle : (state.cores core).phase = .idle) (inService : (state.cores core).inService = true) :
    duty core = .done := by
  have core_eq := round.others core ne
  rw [core_eq] at idle inService
  cases duty_eq : duty core with
  | done => rfl
  | unsent | posted =>
      rw [duty_eq] at inService
      cases inService
  | handling | acking | queued addr =>
      rw [duty_eq] at idle
      cases idle

/-- Delivering an interrupt moves a posted core into the handler. -/
theorem Sound.deliver (sound : Sound state) {core : Fin n}
    (step_eq : state.deliver core = some next) : Sound next := by
  rw [State.deliver] at step_eq
  split at step_eq
  next enabled =>
    obtain ⟨idle, pending, free⟩ := enabled
    cases step_eq
    rcases sound with ⟨final, -⟩ | ⟨active, duty, sent, round, stage⟩
    · rw [(final core).2] at pending
      cases pending
    · have ne : core ≠ active := by
        rintro rfl
        exact Stage.not_idle stage idle
      have core_eq := round.others core ne
      have posted : duty core = .posted := by
        cases duty_eq : duty core with
        | posted => rfl
        | unsent | handling | acking | done | queued addr =>
            rw [core_eq, duty_eq] at pending
            cases pending
      have moved := round.setSentDuty ne (show duty core ≠ .unsent by simp [posted])
        (show Duty.handling ≠ .unsent by simp) (by rw [posted]; rfl) rfl
      refine .inr ⟨active, _, sent, moved, ?_⟩
      rw [setCore_other state core _ ne.symm]
      refine stage.transfer rfl rfl (owing_update_same (by rw [posted]; rfl)) fun other paid => ?_
      by_cases here : other = core
      · subst here
        rw [posted] at paid
        cases paid
      · simpa [here] using paid
  next => cases step_eq

/-- The next ticket is another one. -/
theorem serving_ne (serving : Nat) : serving ≠ wrappingAdd serving 1 := by
  intro same
  have large : 1 < wordSize := by decide
  have bound : serving < wordSize := by
    rw [same, wrappingAdd]
    exact Nat.mod_lt _ (by omega)
  by_cases last : serving + 1 = wordSize
  · rw [wrappingAdd, last, Nat.mod_self] at same
    omega
  · rw [wrappingAdd_of_lt (by omega)] at same
    omega

/-- A step of a core other than the active one is a step of the handler. -/
theorem Round.advance_other (fits : n < wordSize) (round : Round state active duty sent)
    (stage : Stage state active duty sent (state.cores active).phase) {core : Fin n}
    (ne : core ≠ active) (step_eq : state.advance core = some next) : Sound next := by
  have core_eq := round.others core ne
  cases duty_eq : duty core with
  | unsent | posted | done =>
      simp [State.advance, core_eq, duty_eq, Duty.core] at step_eq
  | queued addr =>
      simp [State.advance, core_eq, duty_eq, Duty.core, serving_ne] at step_eq
  | handling =>
      have next_eq : next = state.setCore core (Duty.acking.core state.serving) := by
        simpa [State.advance, State.setPhase, core_eq, duty_eq, Duty.core] using step_eq.symm
      subst next_eq
      refine .inr ⟨active, _, sent, round.setSentDuty ne (by simp [duty_eq]) (by simp)
        (by rw [duty_eq]; rfl) rfl, ?_⟩
      rw [setCore_other state core _ ne.symm]
      refine stage.transfer rfl rfl (owing_update_same (by rw [duty_eq]; rfl)) fun other paid => ?_
      by_cases here : other = core
      · subst here
        rw [duty_eq] at paid
        cases paid
      · simpa [here] using paid
  | acking =>
      have next_eq : next = { state.setCore core (Duty.done.core state.serving) with
          counter := wrappingSub state.counter 1 } := by
        simpa [State.advance, State.setPhase, core_eq, duty_eq, Duty.core] using step_eq.symm
      have moved := round.setSentDuty ne (show duty core ≠ .unsent by simp [duty_eq])
        (show Duty.done ≠ .unsent by simp) (by rw [duty_eq]; rfl) rfl
      have owed : (duty core).owes = true := by rw [duty_eq]; rfl
      have paid := owing_update_done ne owed (show Duty.done.owes = false from rfl)
      have bound := owing_lt active duty
      have lowered : state.counter = owing active duty →
          wrappingSub state.counter 1 = owing active (Function.update duty core .done) := by
        intro counter_eq
        rw [wrappingSub_of_le (by omega) (by omega)]
        omega
      generalize wrappingSub state.counter 1 = lower at lowered next_eq
      subst next_eq
      refine .inr ⟨active, Function.update duty core .done, sent, ⟨moved.others, moved.unsent,
        moved.quiet, moved.pair, moved.ticket_free, moved.ticket_queued⟩, ?_⟩
      change Stage _ active _ sent ((state.setCore core _).cores active).phase
      rw [setCore_other state core _ ne.symm]
      cases phase : (state.cores active).phase with
      | idle | handling | acking =>
          rw [phase] at stage
          exact stage
      | locking addr ticket | storeAddr addr | storeCounter addr =>
          rw [phase] at stage
          exact stage
      | sending addr id =>
          rw [phase] at stage
          exact ⟨stage.1, stage.2.1, lowered stage.2.2⟩
      | flushing addr | spinning =>
          rw [phase] at stage
          exact ⟨stage.1, lowered stage.2⟩
      | unlocking =>
          rw [phase] at stage
          rw [stage.2 core ne] at owed
          cases owed

/-- A round only reads the cores and the lock. -/
theorem Round.of_eq (round : Round state active duty sent) {state' : State n}
    (cores_eq : state'.cores = state.cores) (ticket_eq : state'.ticket = state.ticket)
    (serving_eq : state'.serving = state.serving) : Round state' active duty sent := by
  refine ⟨?_, round.unsent, ?_, ?_, ?_, ?_⟩
  · rw [cores_eq, serving_eq]
    exact round.others
  · rw [cores_eq]
    exact round.quiet
  · rw [cores_eq]
    exact round.pair
  · rw [ticket_eq, serving_eq]
    exact round.ticket_free
  · rw [ticket_eq, serving_eq]
    exact round.ticket_queued

/-- Sending to the active core itself or past it changes no core. -/
theorem Round.skip (round : Round state active duty sent) (here : active.val = sent) :
    Round state active duty (sent + 1) := by
  refine ⟨round.others, fun core ne => (round.unsent core ne).trans ?_, round.quiet, round.pair,
    round.ticket_free, round.ticket_queued⟩
  have apart : core.val ≠ active.val := fun same => ne (Fin.ext same)
  omega

/-- Sending to the next core posts its interrupt. -/
theorem Round.post (round : Round state active duty sent) {core : Fin n} (ne : core ≠ active)
    (here : core.val = sent) :
    Round (state.setCore core { state.cores core with pending := true }) active
      (Function.update duty core .posted) (sent + 1) := by
  have was_unsent : duty core = .unsent := (round.unsent core ne).mpr here.ge
  have posted : { state.cores core with pending := true } = Duty.posted.core state.serving := by
    simp [round.others core ne, was_unsent, Duty.core]
  rw [posted]
  refine round.setDuty ne (fun other other_ne => ?_) (by rw [was_unsent]; rfl) rfl
  by_cases same : other = core
  · subst same
    simp [here]
  · have apart : other.val ≠ core.val := fun same_val => same (Fin.ext same_val)
    rw [Function.update_of_ne same, round.unsent other other_ne]
    omega

/-- Releasing the lock ends the round or hands it to the core that waits. -/
theorem Round.unlock (round : Round state active duty sent)
    (paid : ∀ core ≠ active, (duty core).owes = false) :
    Sound { state.setPhase active .idle with serving := wrappingAdd state.serving 1 } := by
  by_cases waiting : ∃ core ≠ active, (duty core).isQueued = true
  · obtain ⟨core, ne, queued⟩ := waiting
    obtain ⟨addr, duty_eq⟩ : ∃ addr, duty core = .queued addr := by
      cases duty_eq : duty core with
      | queued addr => exact ⟨addr, rfl⟩
      | unsent | posted | handling | acking | done =>
          rw [duty_eq] at queued
          cases queued
    obtain ⟨free, only⟩ := round.pair core ne queued
    have core_eq := round.others core ne
    rw [duty_eq] at core_eq
    have moved : (state.setPhase active .idle).cores core = (Duty.queued addr).core state.serving :=
      (setPhase_other state active .idle ne).trans core_eq
    refine .inr ⟨core, fun _ => .unsent, 0, ⟨fun other other_ne => ?_, by simp, ?_, ?_, ?_, ?_⟩, ?_⟩
    · obtain rfl : other = active := (only other).resolve_right other_ne
      change (state.setPhase other .idle).cores other = _
      rw [setPhase_self]
      simp [Duty.core, round.quiet, free]
    · exact congrArg Core.pending moved
    · intro other other_ne queued
      cases queued
    · intro _
      exact round.ticket_queued core ne queued
    · intro other other_ne queued
      cases queued
    · change Stage _ core _ 0 ((state.setPhase active .idle).cores core).phase
      rw [moved]
      exact ⟨rfl, rfl⟩
  · have free : ∀ core ≠ active, (duty core).isQueued = false := by
      intro core ne
      exact Bool.eq_false_iff.mpr fun queued => waiting ⟨core, ne, queued⟩
    refine .inl ⟨fun core => ?_, round.ticket_free free⟩
    change ((state.setPhase active .idle).cores core).phase = .idle ∧
      ((state.setPhase active .idle).cores core).pending = false
    by_cases here : core = active
    · subst here
      rw [setPhase_self]
      exact ⟨rfl, round.quiet⟩
    · rw [setPhase_other state active .idle here, round.others core here]
      have owes := paid core here
      have queued := free core here
      cases duty_eq : duty core with
      | done => exact ⟨rfl, rfl⟩
      | unsent | posted | handling | acking =>
          rw [duty_eq] at owes
          cases owes
      | queued addr =>
          rw [duty_eq] at queued
          cases queued

/-- Before the first interrupt is sent, every other core owes an acknowledgement. -/
theorem Round.all_unsent (round : Round state active duty 0) : owing active duty = n - 1 :=
  owing_all_unsent fun core ne => (round.unsent core ne).mpr (Nat.zero_le core.val)

/-- Interrupting the core whose turn it is keeps the round and the debts. -/
theorem Round.send (round : Round state active duty sent) (bound : sent < n) (addr : Nat)
    (counter_eq : state.counter = owing active duty) :
    Sound ((state.sendIpi active sent).setPhase active (.sending addr (sent + 1))) := by
  by_cases here : active.val = sent
  · have same : state.sendIpi active sent = state := by simp [State.sendIpi, here]
    rw [same]
    refine .inr ⟨active, duty, sent + 1, (round.skip here).setPhase _, ?_⟩
    rw [setPhase_self]
    exact ⟨rfl, bound, counter_eq⟩
  · have ne : (⟨sent, bound⟩ : Fin n) ≠ active := fun same => here (congrArg Fin.val same).symm
    have was_unsent : duty ⟨sent, bound⟩ = .unsent := (round.unsent _ ne).mpr le_rfl
    have posted : state.sendIpi active sent = state.setCore ⟨sent, bound⟩
        { state.cores ⟨sent, bound⟩ with pending := true } := by
      simp [State.sendIpi, here, bound]
    rw [posted]
    refine .inr ⟨active, _, sent + 1, (round.post ne rfl).setPhase _, ?_⟩
    rw [setPhase_self]
    refine ⟨rfl, bound, ?_⟩
    rw [owing_update_same (by rw [was_unsent]; rfl)]
    exact counter_eq

/-- A step of the active core. -/
theorem Round.advance_active (round : Round state active duty sent)
    (stage : Stage state active duty sent (state.cores active).phase)
    (step_eq : state.advance active = some next) : Sound next := by
  cases phase : (state.cores active).phase with
  | idle | handling | acking =>
      rw [phase] at stage
      exact stage.elim
  | locking addr ticket =>
      rw [phase] at stage
      obtain ⟨rfl, rfl⟩ := stage
      obtain rfl : state.setPhase active (.storeAddr addr) = next := by
        simpa [State.advance, phase] using step_eq
      refine .inr ⟨active, duty, 0, round.setPhase _, ?_⟩
      rw [setPhase_self]
      exact rfl
  | storeAddr addr =>
      rw [phase] at stage
      obtain rfl : { state.setPhase active (.storeCounter addr) with addr } = next := by
        simpa [State.advance, phase] using step_eq
      refine .inr ⟨active, duty, sent, (round.setPhase _).of_eq rfl rfl rfl, ?_⟩
      change Stage _ active duty sent ((state.setPhase active _).cores active).phase
      rw [setPhase_self]
      exact stage
  | storeCounter addr =>
      rw [phase] at stage
      obtain rfl : sent = 0 := stage
      obtain rfl : { state.setPhase active (.sending addr 0) with counter := n - 1 } = next := by
        simpa [State.advance, phase] using step_eq
      refine .inr ⟨active, duty, 0, (round.setPhase _).of_eq rfl rfl rfl, ?_⟩
      change Stage _ active duty 0 ((state.setPhase active _).cores active).phase
      rw [setPhase_self]
      exact ⟨rfl, Nat.zero_le n, round.all_unsent.symm⟩
  | sending addr id =>
      rw [phase] at stage
      obtain ⟨rfl, bound, counter_eq⟩ := stage
      by_cases more : sent < n
      · obtain rfl :
            (state.sendIpi active sent).setPhase active (.sending addr (sent + 1)) = next := by
          simpa [State.advance, phase, more] using step_eq
        exact round.send more addr counter_eq
      · obtain rfl : state.setPhase active (.flushing addr) = next := by
          simpa [State.advance, phase, more] using step_eq
        refine .inr ⟨active, duty, sent, round.setPhase _, ?_⟩
        rw [setPhase_self]
        exact ⟨by omega, counter_eq⟩
  | flushing addr =>
      rw [phase] at stage
      obtain rfl : state.setPhase active .spinning = next := by
        simpa [State.advance, phase] using step_eq
      refine .inr ⟨active, duty, sent, round.setPhase _, ?_⟩
      rw [setPhase_self]
      exact stage
  | spinning =>
      rw [phase] at stage
      obtain ⟨sent_eq, counter_eq⟩ := stage
      obtain ⟨all_in, rfl⟩ : state.counter = 0 ∧ state.setPhase active .unlocking = next := by
        simpa [State.advance, phase] using step_eq
      refine .inr ⟨active, duty, sent, round.setPhase _, ?_⟩
      rw [setPhase_self]
      refine ⟨sent_eq, fun core ne => Bool.eq_false_iff.mpr fun owes => ?_⟩
      have positive := owing_pos_iff.mpr ⟨core, ne, owes⟩
      omega
  | unlocking =>
      rw [phase] at stage
      obtain rfl : { state.setPhase active .idle with
          serving := wrappingAdd state.serving 1 } = next := by
        simpa [State.advance, phase] using step_eq
      exact round.unlock stage.2

/-- Every step of a core keeps the state sound. -/
theorem Sound.advance (fits : n < wordSize) (sound : Sound state) {core : Fin n}
    (step_eq : state.advance core = some next) : Sound next := by
  rcases sound with ⟨final, -⟩ | ⟨active, duty, sent, round, stage⟩
  · simp [State.advance, (final core).1] at step_eq
  · by_cases here : core = active
    · subst here
      exact round.advance_active stage step_eq
    · exact round.advance_other fits stage here step_eq

/-- A clear call from a final state starts a round. -/
theorem Sound.call_final {core : Fin n} {addr : Nat} (final : state.Final)
    (ticket_eq : state.ticket = state.serving) (clear : ClearToCall state core) :
    Sound { state.setPhase core (.locking addr state.ticket) with
      ticket := wrappingAdd state.ticket 1 } := by
  refine .inr ⟨core, fun _ => .unsent, 0, ⟨fun other ne => ?_, by simp, ?_, ?_, ?_, ?_⟩, ?_⟩
  · change (state.setPhase core _).cores other = _
    rw [setPhase_other state core _ ne]
    obtain ⟨idle, quiet⟩ := final other
    have free := (clear other ne).1
    cases state_eq : state.cores other with
    | mk phase pending inService =>
        rw [state_eq] at idle quiet free
        cases idle
        cases quiet
        cases free
        rfl
  · change ((state.setPhase core _).cores core).pending = false
    rw [setPhase_self]
    exact (final core).2
  · intro other ne queued
    cases queued
  · intro _
    change wrappingAdd state.ticket 1 = wrappingAdd state.serving 1
    rw [ticket_eq]
  · intro other ne queued
    cases queued
  · change Stage _ core _ 0 ((state.setPhase core _).cores core).phase
    rw [setPhase_self]
    exact ⟨ticket_eq, rfl⟩

/-- A clear call during a round comes from the other one of two cores, which acknowledged. -/
theorem Round.call_queued (round : Round state active duty sent)
    (stage : Stage state active duty sent (state.cores active).phase) {core : Fin n} {addr : Nat}
    (idle : (state.cores core).phase = .idle) (clear : ClearToCall state core) :
    Sound { state.setPhase core (.locking addr state.ticket) with
      ticket := wrappingAdd state.ticket 1 } := by
  have ne : core ≠ active := by
    rintro rfl
    exact Stage.not_idle stage idle
  obtain ⟨free, active_idle | ⟨served, only⟩⟩ := clear active ne.symm
  · exact absurd active_idle (Stage.not_idle stage)
  have duty_eq := round.idle_duty ne idle served
  have core_eq := round.others core ne
  rw [duty_eq] at core_eq
  have ticket_eq : state.ticket = wrappingAdd state.serving 1 := by
    refine round.ticket_free fun other other_ne => ?_
    obtain rfl : other = core := (only other).resolve_right other_ne
    rw [duty_eq]
    rfl
  have active_eq : (state.setPhase core (.locking addr state.ticket)).cores active =
      state.cores active := setPhase_other state core _ ne.symm
  refine .inr ⟨active, Function.update duty core (.queued addr), sent,
    ⟨fun other other_ne => ?_, fun other other_ne => ?_, ?_, fun other other_ne _ => ?_,
      fun nobody => ?_, fun _ _ _ => ?_⟩, ?_⟩
  · obtain rfl : other = core := (only other).resolve_right other_ne
    change (state.setPhase other _).cores other = _
    rw [setPhase_self, core_eq, ticket_eq]
    simp [Duty.core, State.setPhase, State.setCore]
  · obtain rfl : other = core := (only other).resolve_right other_ne
    have later := (round.unsent other ne).not.mp (by rw [duty_eq]; simp)
    simp [later]
  · exact (congrArg Core.pending active_eq).trans round.quiet
  · obtain rfl : other = core := (only other).resolve_right other_ne
    exact ⟨(congrArg Core.inService active_eq).trans free, fun third => (only third).symm⟩
  · have queued := nobody core ne
    rw [Function.update_self] at queued
    cases queued
  · change wrappingAdd state.ticket 1 = wrappingAdd (wrappingAdd state.serving 1) 1
    rw [ticket_eq]
  · change Stage _ active _ sent ((state.setPhase core _).cores active).phase
    rw [active_eq]
    refine stage.transfer rfl rfl (owing_update_same (by rw [duty_eq]; rfl)) fun other paid => ?_
    by_cases here : other = core
    · subst here
      simp [Duty.owes]
    · simpa [here] using paid

/-- A clear call keeps the state sound. -/
theorem Sound.call (sound : Sound state) {core : Fin n} {addr : Nat}
    (clear : ClearToCall state core) (step_eq : state.call core addr = some next) :
    Sound next := by
  rw [State.call] at step_eq
  split at step_eq
  next idle =>
    cases step_eq
    rcases sound with ⟨final, ticket_eq⟩ | ⟨active, duty, sent, round, stage⟩
    · exact Sound.call_final final ticket_eq clear
    · exact round.call_queued stage idle clear
  next => cases step_eq

end Steps

theorem Sound.boot (n : Nat) : Sound (State.boot n) := .inl ⟨fun _ => ⟨rfl, rfl⟩, rfl⟩

/-- Every event of a run with clear calls keeps the state sound. -/
theorem Sound.step (fits : n < wordSize) {state next : State n} {event : Event n}
    (sound : Sound state) (clear : ClearCalls state event)
    (step_eq : state.next event = some next) : Sound next := by
  cases event with
  | call core addr size => exact sound.call clear step_eq
  | advance core => exact sound.advance fits step_eq
  | deliver core => exact sound.deliver step_eq

/-- **Progress.** When every call is made while clear, every state that is reached is final or some
core can execute an instruction or take an interrupt, without another call. -/
theorem shootdown_progress (n : Nat) (fits : n < wordSize) (events : List (Event n))
    (state : State n) (clear : (protocol n ClearCalls).Permits (State.boot n) events)
    (run_eq : (protocol n ClearCalls).run (State.boot n) events = .ok state) :
    state.Final ∨ ∃ core, (state.advance core).isSome ∨ (state.deliver core).isSome := by
  have keeps : ∀ (state : State n) (event : Event n) (next : State n), Sound state →
      (protocol n ClearCalls).permitted state event →
      (protocol n ClearCalls).step state event = .ok next → Sound next := by
    intro state event next sound clear step_eq
    simp only [protocol] at step_eq
    cases next_eq : state.next event with
    | none =>
        rw [next_eq] at step_eq
        cases step_eq
    | some reached =>
        rw [next_eq] at step_eq
        cases step_eq
        exact sound.step fits clear next_eq
  exact ((protocol n ClearCalls).run_keeps keeps (Sound.boot n) clear run_eq).progress

private local instance twoCores : NeZero 2 := ⟨by decide⟩

/-- Two cores: a whole round of core 0, then core 1, which acknowledged it, waits for core 0. -/
def twoRounds : List (Event 2) :=
  [.call 0 0x1000 0x1000, .advance 0, .advance 0, .advance 0, .advance 0, .advance 0, .advance 0,
    .advance 0, .deliver 1, .advance 1, .advance 1, .call 1 0x2000 0x1000, .advance 0, .advance 0,
    .advance 1]

theorem shootdown_progress_two_cores : ∃ state,
    (protocol 2 ClearCalls).run (State.boot 2) twoRounds = .ok state ∧
    (state.Final ∨ ∃ core, (state.advance core).isSome ∨ (state.deliver core).isSome) := by
  have step {state next : State 2} {event : Event 2} {events : List (Event 2)}
      (clear : ClearCalls state event)
      (step_eq : (protocol 2 ClearCalls).step state event = .ok next)
      (rest : (protocol 2 ClearCalls).Permits next events) :
      (protocol 2 ClearCalls).Permits state (event :: events) :=
    (protocol 2 ClearCalls).permits_cons clear step_eq rest
  have first : ClearToCall (State.boot 2) 0 := fun other _ => ⟨rfl, .inl rfl⟩
  refine ⟨_, rfl, shootdown_progress 2 (by decide) twoRounds _ ?_ rfl⟩
  refine step first rfl <| step trivial rfl <| step trivial rfl <| step trivial rfl <|
    step trivial rfl <| step trivial rfl <| step trivial rfl <| step trivial rfl <|
    step trivial rfl <| step trivial rfl <| step trivial rfl <| step ?_ rfl <|
    step trivial rfl <| step trivial rfl <| step trivial rfl trivial
  -- Core 1 has acknowledged core 0, so it may queue behind it.
  refine Fin.forall_fin_two.mpr ⟨fun _ => ⟨rfl, .inr ⟨rfl, ?_⟩⟩, fun ne => absurd rfl ne⟩
  exact Fin.forall_fin_two.mpr ⟨.inr rfl, .inl rfl⟩

/-- Both cores call before either is interrupted. -/
def bothCall : List (Event 2) :=
  [.call 0 0x1000 0x1000, .call 1 0x2000 0x1000, .advance 0, .advance 0, .advance 0, .advance 0,
    .advance 0, .advance 0, .advance 0]

/-- Core 0 calls twice.  Core 1 took the first interrupt and cannot take the second. -/
def callTwice : List (Event 2) :=
  [.call 0 0x1000 0x1000, .advance 0, .advance 0, .advance 0, .advance 0, .advance 0, .advance 0,
    .advance 0, .deliver 1, .advance 1, .advance 1, .advance 0, .advance 0,
    .call 0 0x1000 0x1000, .advance 0, .advance 0, .advance 0, .advance 0, .advance 0, .advance 0,
    .advance 0]

/-- Two cores that both wait for ever, after one call each; and after two calls of one core no core
can move without a further call. -/
theorem shootdown_deadlocks :
    (∃ state, (protocol 2 fun _ _ => True).run (State.boot 2) bothCall = .ok state ∧
      ¬ state.Final ∧ ∀ event, state.next event = none) ∧
    ∃ state, (protocol 2 fun _ _ => True).run (State.boot 2) callTwice = .ok state ∧
      ¬ state.Final ∧ ∀ core, state.advance core = none ∧ state.deliver core = none := by
  refine ⟨⟨_, rfl, fun final => ?_, fun event => ?_⟩, ⟨_, rfl, fun final => ?_, fun core => ?_⟩⟩
  · exact absurd (final 0).1 (by decide)
  · cases event with
    | call core addr size =>
        revert core
        exact Fin.forall_fin_two.mpr ⟨rfl, rfl⟩
    | advance core =>
        revert core
        exact Fin.forall_fin_two.mpr ⟨rfl, rfl⟩
    | deliver core =>
        revert core
        exact Fin.forall_fin_two.mpr ⟨rfl, rfl⟩
  · exact absurd (final 0).1 (by decide)
  · revert core
    exact Fin.forall_fin_two.mpr ⟨⟨rfl, rfl⟩, ⟨rfl, rfl⟩⟩

end Shootdown
end Vespertine
