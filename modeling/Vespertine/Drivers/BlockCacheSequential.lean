import Vespertine.Drivers.BlockCacheDurability

/-!
# The block cache, one call after another

With one task and a device whose requests succeed, the cache is the disk: a read delivers what was
written last, and after a flush the device holds it.

A call runs to its end in a bounded number of critical sections and device requests.
-/

namespace Vespertine
namespace BlockCache

variable {slots spb : Nat} {Sector : Type}

/-- What a call returns. -/
abbrev Answer (spb : Nat) (Sector : Type) := Except Unit (Option (Fin spb → Sector))

section Run

variable [NeZero slots]

/-- Go on with a call; the device completes whatever it waits for. -/
def resume (state : State slots spb Sector Unit) : Except Stuck (State slots spb Sector Unit) :=
  match state.tasks () with
  | .writeBack .. | .fetching .. | .flushing (_ :: _) => state.complete () true
  | _ => state.advance ()

/-- Go on with a call until it returns, for at most `fuel` rounds. -/
def finish : Nat → State slots spb Sector Unit →
    Except Stuck (Answer spb Sector × State slots spb Sector Unit)
  | 0, _ => .error .stuck
  | fuel + 1, state =>
      match state.tasks () with
      | .returned result => .ok (result, state)
      | _ => do
          let next ← resume state
          finish fuel next

/-- Make a call and wait for it. -/
def perform (state : State slots spb Sector Unit) (call : Call (Fin spb → Sector)) :
    Except Stuck (Answer spb Sector × State slots spb Sector Unit) := do
  let begun ← state.call () call
  finish (slots + 11) begun

/-- Make calls one after another. -/
def performAll : State slots spb Sector Unit → List (Call (Fin spb → Sector)) →
    Except Stuck (List (Answer spb Sector) × State slots spb Sector Unit)
  | state, [] => .ok ([], state)
  | state, call :: calls => do
      let (answer, next) ← perform state call
      let (answers, final) ← performAll next calls
      return (answer :: answers, final)

end Run

/-- The disk after a call. -/
def Call.effect (logical : Nat → Fin spb → Sector) :
    Call (Fin spb → Sector) → Nat → Fin spb → Sector
  | .request (.write blockId src) => Function.update logical blockId src
  | .request (.read _) | .flush => logical

/-- What a disk answers to a call. -/
def Call.answer (logical : Nat → Fin spb → Sector) :
    Call (Fin spb → Sector) → Option (Fin spb → Sector)
  | .request (.read blockId) => some (logical blockId)
  | .request (.write ..) | .flush => none

/-- What a disk answers to calls, one after another. -/
def answers (logical : Nat → Fin spb → Sector) :
    List (Call (Fin spb → Sector)) → List (Option (Fin spb → Sector))
  | [] => []
  | call :: calls => call.answer logical :: answers (call.effect logical) calls

/-- The disk after calls, one after another. -/
def effects (logical : Nat → Fin spb → Sector) (calls : List (Call (Fin spb → Sector))) :
    Nat → Fin spb → Sector :=
  calls.foldl Call.effect logical

/-- How far a call has come, and what it will return. -/
def Stage (call : Call (Fin spb → Sector)) (logical : Nat → Fin spb → Sector)
    (state : State slots spb Sector Unit) : Prop :=
  match state.tasks () with
  | .lookup request | .hit request _ | .miss request | .victim request _ | .writeBack request ..
  | .written request _ | .retag request _ => call = .request request ∧ state.logical = logical
  | .fetching blockId _ | .fetched blockId _ =>
      call = .request (.read blockId) ∧ state.logical = logical
  | .snapshot | .flushing _ => call = .flush ∧ state.logical = logical
  | .returned result => result = .ok (call.answer logical) ∧ state.logical = call.effect logical ∧
      (call = .flush → ∀ blockId, Fits spb blockId →
        readSectors state.disk blockId = logical blockId)
  | .idle => False

/-- A call under way on a cache that nobody else uses. -/
structure Serving (call : Call (Fin spb → Sector)) (logical : Nat → Fin spb → Sector)
    (state : State slots spb Sector Unit) : Prop where
  durable : Durable state
  /-- No slot is in flight but the one the call has reserved. -/
  only : ∀ slot, (state.inner.entries slot).inFlight = true → (state.tasks ()).owned = some slot
  stage : Stage call logical state

/-- An upper bound on the rounds that are left. -/
def rank {Block : Type} : Phase slots Block → Nat
  | .lookup _ => 9
  | .miss _ => 8
  | .victim .. => 7
  | .writeBack .. => 6
  | .written .. => 5
  | .retag .. => 4
  | .fetching .. => 3
  | .fetched .. => 2
  | .hit .. => 1
  | .snapshot => slots + 2
  | .flushing rest => rest.length + 1
  | .idle | .returned _ => 0

section Rounds

variable [NeZero slots] {call : Call (Fin spb → Sector)} {logical : Nat → Fin spb → Sector}
  {state next : State slots spb Sector Unit}

omit [NeZero slots] in
/-- A slot is not in flight if the call has reserved none. -/
theorem Serving.ready (serving : Serving call logical state)
    (free : (state.tasks ()).owned = none) (slot : Fin slots) :
    (state.inner.entries slot).inFlight = false := by
  cases flying : (state.inner.entries slot).inFlight with
  | false => rfl
  | true =>
      have owned := serving.only slot flying
      rw [free] at owned
      cases owned

/-- A call on its own meets every condition. -/
theorem Serving.resume (serving : Serving call logical state)
    (resume_eq : resume state = .ok next)
    (only : ∀ slot, (next.inner.entries slot).inFlight = true → (next.tasks ()).owned = some slot)
    (stage : Stage call logical next) : Serving call logical next := by
  refine ⟨?_, only, stage⟩
  have settled (event : Event Unit (Fin spb → Sector)) : StoresSettled state event := by
    cases event with
    | advance task => exact fun _ _ slot phase => serving.ready (by rw [phase]; rfl) slot
    | call _ _ | complete _ _ => trivial
  have durable (event : Event Unit (Fin spb → Sector)) (fits : CallFits spb event)
      (step_eq : step state event = .ok next) : Durable next :=
    serving.durable.step (missesAlone_of_subsingleton ..) (tagsUnwatched_of_subsingleton ..) fits
      (settled event) (flushUndisturbed_of_subsingleton ..) step_eq
  rw [BlockCache.resume] at resume_eq
  split at resume_eq
  · exact durable (.complete () true) trivial resume_eq
  · exact durable (.complete () true) trivial resume_eq
  · exact durable (.complete () true) trivial resume_eq
  · exact durable (.advance ()) trivial resume_eq

/-- One round of a call succeeds and brings it closer to its end. -/
def Progresses (call : Call (Fin spb → Sector)) (logical : Nat → Fin spb → Sector)
    (state : State slots spb Sector Unit) : Prop :=
  ∃ next, resume state = .ok next ∧ Serving call logical next ∧
    rank (next.tasks ()) < rank (state.tasks ())

section Phases

variable {base : State slots spb Sector Unit} {phase : Phase slots (Fin spb → Sector)}
  {request : Request (Fin spb → Sector)} {slot : Fin slots}

theorem Serving.progress (serving : Serving call logical state)
    (resume_eq : BlockCache.resume state = .ok (base.enter () phase))
    (only : ∀ slot, (base.inner.entries slot).inFlight = true → phase.owned = some slot)
    (stage : Stage call logical (base.enter () phase))
    (less : rank phase < rank (state.tasks ())) : Progresses call logical state := by
  refine ⟨_, resume_eq, serving.resume resume_eq (fun slot flying => ?_) stage, ?_⟩
  · rw [enter_same]
    exact only slot flying
  · rw [enter_same]
    exact less

/-- A round that changes the reserved slot. -/
theorem Serving.progress_modify
    {change : CacheEntry (Fin spb → Sector) → CacheEntry (Fin spb → Sector)}
    (serving : Serving call logical state)
    (resume_eq : BlockCache.resume state = .ok (base.enter () phase))
    (inner_eq : base.inner = state.inner.modify slot change)
    (owned : (state.tasks ()).owned = some slot)
    (flies : (change (state.inner.entries slot)).inFlight = true → phase.owned = some slot)
    (stage : Stage call logical (base.enter () phase))
    (less : rank phase < rank (state.tasks ())) : Progresses call logical state := by
  refine serving.progress resume_eq (fun other flying => ?_) stage less
  rw [inner_eq] at flying
  by_cases same : other = slot
  · subst same
    rw [entries_modify_same] at flying
    exact flies flying
  · rw [entries_modify_other same] at flying
    exact absurd (Option.some.inj ((serving.only other flying).symm.trans owned)) same

theorem Serving.round_lookup (serving : Serving call logical state)
    (at_phase : state.tasks () = .lookup request) : Progresses call logical state := by
  have stage := serving.stage
  rw [Stage, at_phase] at stage
  have ready := serving.ready (by rw [at_phase]; rfl)
  have only (slot : Fin slots) (flying : (state.inner.entries slot).inFlight = true) : False := by
    rw [ready slot] at flying
    cases flying
  have resume_eq : BlockCache.resume state = .ok (state.lookup () request) := by
    rw [BlockCache.resume, at_phase]
    dsimp only
    rw [State.advance, at_phase]
  rw [State.lookup] at resume_eq
  split at resume_eq
  next missing =>
    refine serving.progress resume_eq (fun slot flying => (only slot flying).elim) ?_
      (by rw [at_phase]; simp [rank])
    rw [Stage, enter_same]
    exact stage
  next slot found =>
    rw [ready slot] at resume_eq
    refine serving.progress resume_eq (fun slot flying => (only slot flying).elim) ?_
      (by rw [at_phase]; simp [rank])
    rw [Stage, enter_same]
    exact stage

theorem Serving.round_hit (serving : Serving call logical state)
    (at_phase : state.tasks () = .hit request slot) : Progresses call logical state := by
  have stage := serving.stage
  rw [Stage, at_phase] at stage
  obtain ⟨rfl, logical_eq⟩ := stage
  have ready := serving.ready (by rw [at_phase]; rfl)
  have data_eq : (state.inner.entries slot).data = state.logical request.blockId :=
    serving.durable.backed.current slot request.blockId
      (serving.durable.held () request slot at_phase) (.inr (ready slot))
  have only {change : CacheEntry (Fin spb → Sector) → CacheEntry (Fin spb → Sector)}
      (same : (change (state.inner.entries slot)).inFlight = (state.inner.entries slot).inFlight)
      (other : Fin slots) :
      ((state.inner.modify slot change).entries other).inFlight = false := by
    by_cases own : other = slot
    · rw [own, entries_modify_same, same, ready]
    · rw [entries_modify_other own, ready]
  have resume_eq : BlockCache.resume state = .ok (state.copyHit () slot request) := by
    rw [BlockCache.resume, at_phase]
    dsimp only
    rw [State.advance, at_phase]
  cases request with
  | read blockId =>
      refine serving.progress resume_eq (fun other flying => ?_) ?_ (by rw [at_phase]; simp [rank])
      · rw [modify_inner, only rfl other] at flying
        cases flying
      · rw [Stage, enter_same]
        refine ⟨?_, logical_eq, by rintro ⟨⟩⟩
        rw [data_eq, logical_eq]
        rfl
  | write blockId src =>
      refine serving.progress resume_eq (fun other flying => ?_) ?_ (by rw [at_phase]; simp [rank])
      · rw [store_inner, modify_inner, only rfl other] at flying
        cases flying
      · rw [Stage, enter_same]
        exact ⟨rfl, by rw [← logical_eq]; rfl, by rintro ⟨⟩⟩

theorem Serving.round_miss (serving : Serving call logical state)
    (at_phase : state.tasks () = .miss request) : Progresses call logical state := by
  have stage := serving.stage
  rw [Stage, at_phase] at stage
  have ready := serving.ready (by rw [at_phase]; rfl)
  have resume_eq : BlockCache.resume state = state.reserve () request := by
    rw [BlockCache.resume, at_phase]
    dsimp only
    rw [State.advance, at_phase]
  rw [State.reserve] at resume_eq
  split at resume_eq
  next unfinished => exact absurd unfinished (selectSlot_ne_none _)
  next problem inner select_eq =>
    obtain ⟨slot, flying⟩ := (selectSlot_spec select_eq).2.2 rfl
    rw [ready slot] at flying
    cases flying
  next slot inner select_eq =>
    have refreshed := (selectSlot_spec select_eq).1
    refine serving.progress resume_eq (fun other flying => ?_) ?_ (by rw [at_phase]; simp [rank])
    · by_cases same : other = slot
      · rw [same]
        rfl
      · rw [modify_other same, (refreshed.fields other).2.1, ready other] at flying
        cases flying
    · rw [Stage, enter_same]
      exact stage

theorem Serving.round_victim (serving : Serving call logical state)
    (at_phase : state.tasks () = .victim request slot) : Progresses call logical state := by
  have stage := serving.stage
  rw [Stage, at_phase] at stage
  have only := serving.only
  rw [at_phase] at only
  have resume_eq : BlockCache.resume state = .ok (state.inspectVictim () request slot) := by
    rw [BlockCache.resume, at_phase]
    dsimp only
    rw [State.advance, at_phase]
  rw [State.inspectVictim] at resume_eq
  split at resume_eq
  · refine serving.progress resume_eq only ?_ (by rw [at_phase]; simp [rank])
    rw [Stage, enter_same]
    exact stage
  · refine serving.progress resume_eq only ?_ (by rw [at_phase]; simp [rank])
    rw [Stage, enter_same]
    exact stage

theorem Serving.round_writeBack {oldBlock : Nat} {oldData : Fin spb → Sector}
    (serving : Serving call logical state)
    (at_phase : state.tasks () = .writeBack request slot oldBlock oldData) :
    Progresses call logical state := by
  have stage := serving.stage
  rw [Stage, at_phase] at stage
  have only := serving.only
  rw [at_phase] at only
  have resume_eq : BlockCache.resume state =
      .ok ({ state with disk := writeSectors state.disk oldBlock oldData }.enter ()
        (.written request slot)) := by
    rw [BlockCache.resume, at_phase]
    dsimp only
    unfold State.complete
    rw [at_phase]
  refine serving.progress resume_eq only ?_ (by rw [at_phase]; simp [rank])
  rw [Stage, enter_same]
  exact stage

theorem Serving.round_written (serving : Serving call logical state)
    (at_phase : state.tasks () = .written request slot) : Progresses call logical state := by
  have stage := serving.stage
  rw [Stage, at_phase] at stage
  have resume_eq : BlockCache.resume state =
      .ok ((state.modify slot ({ · with dirty := false })).enter () (.retag request slot)) := by
    rw [BlockCache.resume, at_phase]
    dsimp only
    rw [State.advance, at_phase]
  refine serving.progress_modify resume_eq (modify_inner ..) (by rw [at_phase]; rfl)
    (fun _ => rfl) ?_ (by rw [at_phase]; simp [rank])
  rw [Stage, enter_same]
  exact stage

theorem Serving.round_retag (serving : Serving call logical state)
    (at_phase : state.tasks () = .retag request slot) : Progresses call logical state := by
  have stage := serving.stage
  rw [Stage, at_phase] at stage
  obtain ⟨rfl, logical_eq⟩ := stage
  have resume_eq : BlockCache.resume state = .ok (state.tag () slot request) := by
    rw [BlockCache.resume, at_phase]
    dsimp only
    rw [State.advance, at_phase]
  cases request with
  | read blockId =>
      refine serving.progress_modify resume_eq (modify_inner ..) (by rw [at_phase]; rfl)
        (fun _ => rfl) ?_ (by rw [at_phase]; simp [rank])
      rw [Stage, enter_same]
      exact ⟨rfl, logical_eq⟩
  | write blockId src =>
      refine serving.progress_modify resume_eq ((store_inner ..).trans (modify_inner ..))
        (by rw [at_phase]; rfl) (by rintro ⟨⟩) ?_ (by rw [at_phase]; simp [rank])
      rw [Stage, enter_same]
      exact ⟨rfl, by rw [← logical_eq]; rfl, by rintro ⟨⟩⟩

theorem Serving.round_fetching {blockId : Nat} (serving : Serving call logical state)
    (at_phase : state.tasks () = .fetching blockId slot) : Progresses call logical state := by
  have stage := serving.stage
  rw [Stage, at_phase] at stage
  have resume_eq : BlockCache.resume state =
      .ok ((state.modify slot ({ · with data := readSectors state.disk blockId })).enter ()
        (.fetched blockId slot)) := by
    rw [BlockCache.resume, at_phase]
    dsimp only
    unfold State.complete
    rw [at_phase]
  refine serving.progress_modify resume_eq (modify_inner ..) (by rw [at_phase]; rfl)
    (fun _ => rfl) ?_ (by rw [at_phase]; simp [rank])
  rw [Stage, enter_same]
  exact stage

theorem Serving.round_fetched {blockId : Nat} (serving : Serving call logical state)
    (at_phase : state.tasks () = .fetched blockId slot) : Progresses call logical state := by
  have stage := serving.stage
  have settled := serving.durable.settled ()
  rw [Stage, at_phase] at stage
  rw [at_phase] at settled
  obtain ⟨rfl, logical_eq⟩ := stage
  have resume_eq : BlockCache.resume state =
      .ok ((state.modify slot ({ · with referenced := true, inFlight := false })).enter ()
        (.returned (.ok (some (state.inner.entries slot).data)))) := by
    rw [BlockCache.resume, at_phase]
    dsimp only
    rw [State.advance, at_phase]
  refine serving.progress_modify resume_eq (modify_inner ..) (by rw [at_phase]; rfl)
    (by rintro ⟨⟩) ?_ (by rw [at_phase]; simp [rank])
  rw [Stage, enter_same]
  refine ⟨?_, logical_eq, by rintro ⟨⟩⟩
  rw [settled.2.2, logical_eq]
  rfl

theorem Serving.round_snapshot (serving : Serving call logical state)
    (at_phase : state.tasks () = .snapshot) : Progresses call logical state := by
  have stage := serving.stage
  rw [Stage, at_phase] at stage
  have only := serving.only
  rw [at_phase] at only
  have resume_eq : BlockCache.resume state =
      .ok (state.enter () (.flushing state.inner.dirtyEntries)) := by
    rw [BlockCache.resume, at_phase]
    dsimp only
    rw [State.advance, at_phase]
  refine serving.progress resume_eq only ?_ ?_
  · rw [Stage, enter_same]
    exact stage
  · have length_le : state.inner.dirtyEntries.length ≤ slots :=
      (List.length_filterMap_le _ _).trans (List.length_finRange ..).le
    rw [at_phase]
    simp only [rank]
    omega

theorem Serving.round_flushing {rest : List (Nat × (Fin spb → Sector))}
    (serving : Serving call logical state) (at_phase : state.tasks () = .flushing rest) :
    Progresses call logical state := by
  have stage := serving.stage
  have settled := serving.durable.settled ()
  rw [Stage, at_phase] at stage
  rw [at_phase] at settled
  have only := serving.only
  rw [at_phase] at only
  obtain ⟨rfl, logical_eq⟩ := stage
  cases rest with
  | cons first rest =>
      have resume_eq : BlockCache.resume state =
          .ok ({ state with disk := writeSectors state.disk first.1 first.2 }.enter ()
            (.flushing rest)) := by
        rw [BlockCache.resume, at_phase]
        dsimp only
        unfold State.complete
        rw [at_phase]
      refine serving.progress resume_eq only ?_ (by rw [at_phase]; simp [rank])
      rw [Stage, enter_same]
      exact ⟨rfl, logical_eq⟩
  | nil =>
      have ready := serving.ready (by rw [at_phase]; rfl)
      have resume_eq : BlockCache.resume state =
          .ok ({ state with inner := state.inner.clearDirty }.enter () (.returned (.ok none))) := by
        rw [BlockCache.resume, at_phase]
        dsimp only
        rw [State.advance, at_phase]
      refine serving.progress resume_eq (fun slot flying => ?_) ?_ (by rw [at_phase]; simp [rank])
      · rw [(clearDirty_fields state.inner slot).2.1, ready slot] at flying
        cases flying
      · rw [Stage, enter_same]
        refine ⟨rfl, logical_eq, fun _ blockId fits => ?_⟩
        rw [← logical_eq]
        by_cases held : ∃ slot, (state.inner.entries slot).blockId = some blockId
        · obtain ⟨slot, tag⟩ := held
          cases dirty : (state.inner.entries slot).dirty with
          | false => exact serving.durable.backed.clean slot blockId tag dirty
          | true =>
              exact (settled.2 slot blockId tag dirty (ready slot)).resolve_right (by simp)
        · exact serving.durable.backed.absent blockId fits fun slot tag => held ⟨slot, tag⟩

/-- Every round of a call that has not returned brings it closer to its end. -/
theorem Serving.round (serving : Serving call logical state)
    (unfinished : ∀ result, state.tasks () ≠ .returned result) : Progresses call logical state := by
  cases at_phase : state.tasks () with
  | idle =>
      have stage := serving.stage
      rw [Stage, at_phase] at stage
      exact stage.elim
  | lookup request => exact serving.round_lookup at_phase
  | hit request slot => exact serving.round_hit at_phase
  | miss request => exact serving.round_miss at_phase
  | victim request slot => exact serving.round_victim at_phase
  | writeBack request slot oldBlock oldData => exact serving.round_writeBack at_phase
  | written request slot => exact serving.round_written at_phase
  | retag request slot => exact serving.round_retag at_phase
  | fetching blockId slot => exact serving.round_fetching at_phase
  | fetched blockId slot => exact serving.round_fetched at_phase
  | snapshot => exact serving.round_snapshot at_phase
  | flushing rest => exact serving.round_flushing at_phase
  | returned result => exact absurd at_phase (unfinished result)

/-- A call returns what a disk would, within its rank. -/
theorem Serving.finish {fuel : Nat} (serving : Serving call logical state)
    (enough : rank (state.tasks ()) < fuel) :
    ∃ final, BlockCache.finish fuel state = .ok (.ok (call.answer logical), final) ∧
      Serving call logical final ∧ ∃ result, final.tasks () = .returned result := by
  induction fuel generalizing state with
  | zero => omega
  | succ fuel ih =>
      by_cases done : ∃ result, state.tasks () = .returned result
      · obtain ⟨result, at_phase⟩ := done
        have stage := serving.stage
        rw [Stage, at_phase] at stage
        refine ⟨state, ?_, serving, result, at_phase⟩
        rw [BlockCache.finish, at_phase, stage.1]
      · have unfinished (result : Answer spb Sector) : state.tasks () ≠ .returned result :=
          fun at_phase => done ⟨result, at_phase⟩
        obtain ⟨next, resume_eq, next_serving, less⟩ := serving.round unfinished
        obtain ⟨final, finish_eq, rest⟩ := ih next_serving (by omega)
        refine ⟨final, ?_, rest⟩
        rw [BlockCache.finish]
        split
        next result at_phase => exact absurd at_phase (unfinished result)
        next =>
          rw [resume_eq]
          exact finish_eq

/-- A cache between two calls. -/
structure Quiet (logical : Nat → Fin spb → Sector) (state : State slots spb Sector Unit) :
    Prop where
  durable : Durable state
  ready : ∀ slot, (state.inner.entries slot).inFlight = false
  logical_eq : state.logical = logical
  free : state.tasks () = .idle ∨ ∃ result, state.tasks () = .returned result

/-- A call on a quiet cache answers as a disk does and leaves the cache quiet. -/
theorem Quiet.perform (quiet : Quiet logical state)
    (fits : CallFits spb (.call () call : Event Unit (Fin spb → Sector))) :
    ∃ final, BlockCache.perform state call = .ok (.ok (call.answer logical), final) ∧
      Quiet (call.effect logical) final ∧ (call = .flush → ∀ blockId, Fits spb blockId →
        readSectors final.disk blockId = logical blockId) := by
  obtain ⟨phase, call_eq, phase_free, stage, bounded⟩ :
      ∃ phase, state.call () call = .ok (state.enter () phase) ∧ phase.owned = none ∧
        Stage call logical (state.enter () phase) ∧ rank phase < slots + 11 := by
    cases call with
    | request request =>
        refine ⟨.lookup request, ?_, rfl, ?_, ?_⟩
        · rcases quiet.free with idle | ⟨result, returned⟩
          · unfold State.call
            rw [idle]
          · unfold State.call
            rw [returned]
        · rw [Stage, enter_same]
          exact ⟨rfl, quiet.logical_eq⟩
        · simp only [rank]
          omega
    | flush =>
        refine ⟨.snapshot, ?_, rfl, ?_, ?_⟩
        · rcases quiet.free with idle | ⟨result, returned⟩
          · unfold State.call
            rw [idle]
          · unfold State.call
            rw [returned]
        · rw [Stage, enter_same]
          exact ⟨rfl, quiet.logical_eq⟩
        · simp only [rank]
          omega
  have begun : Durable (state.enter () phase) :=
    @Durable.step _ _ _ _ _ state _ _ (.call () call) quiet.durable
      (missesAlone_of_subsingleton ..) (tagsUnwatched_of_subsingleton ..) fits trivial
      (flushUndisturbed_of_subsingleton ..) call_eq
  have serving : Serving call logical (state.enter () phase) := by
    refine ⟨begun, fun slot flying => ?_, stage⟩
    rw [enter_inner, quiet.ready slot] at flying
    cases flying
  obtain ⟨final, finish_eq, final_serving, result, at_phase⟩ :=
    serving.finish (by rw [enter_same]; exact bounded)
  have final_stage := final_serving.stage
  rw [Stage, at_phase] at final_stage
  obtain ⟨-, logical_eq, flushed⟩ := final_stage
  refine ⟨final, ?_, ⟨final_serving.durable, ?_, logical_eq, .inr ⟨result, at_phase⟩⟩, flushed⟩
  · rw [BlockCache.perform, call_eq]
    exact finish_eq
  · exact final_serving.ready (by rw [at_phase]; rfl)

/-- Calls on a quiet cache answer as a disk does. -/
theorem Quiet.performAll {calls : List (Call (Fin spb → Sector))} (quiet : Quiet logical state)
    (fits : ∀ call ∈ calls, CallFits spb (.call () call : Event Unit (Fin spb → Sector))) :
    ∃ final, BlockCache.performAll state calls =
        .ok ((answers logical calls).map .ok, final) ∧ Quiet (effects logical calls) final ∧
      (calls.getLast? = some .flush → ∀ blockId, Fits spb blockId →
        readSectors final.disk blockId = effects logical calls blockId) := by
  induction calls generalizing logical state with
  | nil => exact ⟨state, rfl, quiet, nofun⟩
  | cons call calls ih =>
      obtain ⟨next, perform_eq, next_quiet, flushed⟩ :=
        quiet.perform (fits call List.mem_cons_self)
      obtain ⟨final, all_eq, final_quiet, last⟩ :=
        ih next_quiet fun later mem => fits later (List.mem_cons_of_mem _ mem)
      refine ⟨final, ?_, final_quiet, fun flush => ?_⟩
      · rw [BlockCache.performAll, perform_eq]
        dsimp only [bind, Except.bind]
        rw [all_eq]
        rfl
      · cases calls with
        | nil =>
            cases all_eq
            obtain rfl : call = .flush := by simpa using flush
            exact flushed rfl
        | cons second calls => exact last (by simpa using flush)

/-- For every sequence of calls, one after another, on a new cache over a device whose requests
succeed: each call returns, a read delivers what was written last in its block, or what the device
held at first, and after a flush the device holds this for every block. -/
theorem sequential_cache_refines_disk (blank : Fin spb → Sector) (disk : Nat → Sector)
    {calls : List (Call (Fin spb → Sector))}
    (fits : ∀ call ∈ calls, CallFits spb (.call () call : Event Unit (Fin spb → Sector))) :
    ∃ final, BlockCache.performAll (.new blank disk : State slots spb Sector Unit) calls =
        .ok ((answers (readSectors disk) calls).map .ok, final) ∧
      (calls.getLast? = some .flush → ∀ blockId, Fits spb blockId →
        readSectors final.disk blockId = effects (readSectors disk) calls blockId) := by
  have quiet : Quiet (readSectors disk) (.new blank disk : State slots spb Sector Unit) :=
    ⟨durable_new blank disk, fun _ => rfl, rfl, .inl rfl⟩
  obtain ⟨final, all_eq, -, last⟩ := quiet.performAll fits
  exact ⟨final, all_eq, last⟩

/-- A cache with one slot writes two blocks, reads the first again and flushes. -/
theorem sequential_cache_refines_disk_two_blocks :
    ∃ final, BlockCache.performAll (.new (fun _ => 0) id : State 1 1 Nat Unit)
        [.request (.write 5 fun _ => 50), .request (.write 6 fun _ => 60), .request (.read 5),
          .flush] = .ok ([.ok none, .ok none, .ok (some fun _ => 50), .ok none], final) ∧
      ∀ blockId, Fits 1 blockId → readSectors final.disk blockId =
        Function.update (Function.update (readSectors id) 5 fun _ : Fin 1 => 50) 6
          (fun _ => 60) blockId := by
  have fits : ∀ call ∈ ([.request (.write 5 fun _ => 50), .request (.write 6 fun _ => 60),
      .request (.read 5), .flush] : List (Call (Fin 1 → Nat))),
      CallFits 1 (.call () call : Event Unit (Fin 1 → Nat)) := by
    simp [CallFits, Fits, Request.blockId, wordSize]
  obtain ⟨final, all_eq, last⟩ :=
    @sequential_cache_refines_disk 1 1 Nat _ (fun _ => 0) id _ fits
  exact ⟨final, all_eq, last rfl⟩

end Phases

end Rounds

end BlockCache
end Vespertine
