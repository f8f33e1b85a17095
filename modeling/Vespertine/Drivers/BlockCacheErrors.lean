import Vespertine.Drivers.BlockCacheDurability
import Vespertine.Drivers.BlockCacheEviction

/-!
# Failing calls of the block cache

A call that does not find its block reserves a slot by setting its in-flight flag, and clears the
flag when it has stored or fetched the block.  When the device fails in between, the call returns at
once and the slot stays in flight.

One call is followed to its end while the other tasks rest.  The device answers its requests as a
list says, for a submission and for a completion alike.
-/

namespace Vespertine
namespace BlockCache

variable {slots spb : Nat} [NeZero slots] {Sector : Type}

/-- Go on with a call until it returns, for at most `fuel` rounds.  Each request to the device takes
its outcome from the list; when the list has ended, requests succeed. -/
def attend : (fuel : Nat) → List Bool → State slots spb Sector Unit →
    Except Stuck (Except Unit (Option (Fin spb → Sector)) × State slots spb Sector Unit)
  | 0, _, _ => .error .stuck
  | fuel + 1, outcomes, state =>
      match state.tasks () with
      | .returned result => .ok (result, state)
      | .writeBack .. | .fetching .. | .flushing (_ :: _) => do
          let next ← state.complete () (outcomes.headD true)
          attend fuel outcomes.tail next
      | _ => do
          let next ← state.advance ()
          attend fuel outcomes next

/-- Call `read_block` or `write_block` and wait for the result. -/
def callBlock (fuel : Nat) (outcomes : List Bool) (state : State slots spb Sector Unit)
    (request : Request (Fin spb → Sector)) :
    Except Stuck (Except Unit (Option (Fin spb → Sector)) × State slots spb Sector Unit) := do
  let begun ← state.call () (.request request)
  attend fuel outcomes begun

/-- The call misses its block and reserves a slot. -/
def Reserves (inner : BlockCacheInner slots (Fin spb → Sector))
    (request : Request (Fin spb → Sector)) (slot : Fin slots) : Prop :=
  inner.findBlock request.blockId = none ∧ ∃ after, inner.selectSlot = some (.ok slot, after)

/-- No slot can be chosen. -/
def Exhausted (inner : BlockCacheInner slots (Fin spb → Sector)) : Prop :=
  ∃ after, inner.selectSlot = some (.error (), after)

/-- The calls of other tasks are over, which had slots in flight before. -/
def othersOver (before : BlockCacheInner slots (Fin spb → Sector))
    (state : State slots spb Sector Unit) : State slots spb Sector Unit :=
  { state with inner := { state.inner with
      entries := fun slot =>
        let entry := state.inner.entries slot
        if before.Busy slot then { entry with inFlight := false } else entry } }

/-- What a failed call leaves behind. -/
structure GivesBack (state : State slots spb Sector Unit) (request : Request (Fin spb → Sector))
    (after : State slots spb Sector Unit) : Prop where
  released : ∀ slot, Reserves state.inner request slot → ¬ after.inner.Busy slot
  /-- A dirty victim is as it was. -/
  kept : ∀ slot, Reserves state.inner request slot → (state.inner.entries slot).dirty = true →
    (after.inner.entries slot).blockId = (state.inner.entries slot).blockId ∧
      (after.inner.entries slot).data = (state.inner.entries slot).data ∧
      (after.inner.entries slot).dirty = true
  /-- A later read of the block returns what the device holds. -/
  served : ∃ fuel final, callBlock fuel [] (othersOver state.inner after) (.read request.blockId) =
    .ok (.ok (some (readSectors final.disk request.blockId)), final)

/-- How far a call has come that began in a state. -/
inductive Course (before : State slots spb Sector Unit) (request : Request (Fin spb → Sector))
    (state : State slots spb Sector Unit) : Prop
  | looking (phase : state.tasks () = .lookup request) (inner_eq : state.inner = before.inner)
  | found (slot) (phase : state.tasks () = .hit request slot)
  | missed (phase : state.tasks () = .miss request) (inner_eq : state.inner = before.inner)
      (absent : before.inner.findBlock request.blockId = none)
  | gaveUp (phase : state.tasks () = .returned (.error ()))
      (absent : before.inner.findBlock request.blockId = none)
      (select_eq : before.inner.selectSlot = some (.error (), state.inner))
  | reserved (slot) (owned : (state.tasks ()).owned = some slot) (busy : state.inner.Busy slot)
      (reserves : Reserves before.inner request slot)
  | failed (slot) (phase : state.tasks () = .returned (.error ())) (busy : state.inner.Busy slot)
      (reserves : Reserves before.inner request slot)
  | succeeded (answer) (phase : state.tasks () = .returned (.ok answer))

variable {before state next : State slots spb Sector Unit} {request : Request (Fin spb → Sector)}

/-- A call keeps the slot that it has reserved in flight. -/
theorem Course.keep {slot : Fin slots} {phase : Phase slots (Fin spb → Sector)}
    {change : CacheEntry (Fin spb → Sector) → CacheEntry (Fin spb → Sector)}
    (busy : state.inner.Busy slot) (reserves : Reserves before.inner request slot)
    (owned : phase.owned = some slot) (keeps : ∀ entry, (change entry).inFlight = entry.inFlight) :
    Course before request ((state.modify slot change).enter () phase) := by
  refine .reserved slot ?_ ?_ reserves
  · rw [enter_same, owned]
  · rw [BlockCacheInner.Busy, enter_inner, modify_same, keeps, busy]

/-- A call that has reserved a slot goes on. -/
theorem Course.advance_reserved {slot : Fin slots} (owned : (state.tasks ()).owned = some slot)
    (busy : state.inner.Busy slot) (reserves : Reserves before.inner request slot)
    (step_eq : state.advance () = .ok next) : Course before request next := by
  cases phase : state.tasks () with
  | victim held other =>
      rw [phase] at owned
      cases owned
      rw [State.advance, phase] at step_eq
      cases step_eq
      rw [State.inspectVictim]
      split
      · exact .reserved slot (by rw [enter_same]; rfl) busy reserves
      · exact .reserved slot (by rw [enter_same]; rfl) busy reserves
  | written held other =>
      rw [phase] at owned
      cases owned
      rw [State.advance, phase] at step_eq
      cases step_eq
      exact .keep busy reserves rfl fun _ => rfl
  | retag held other =>
      rw [phase] at owned
      cases owned
      rw [State.advance, phase] at step_eq
      cases step_eq
      cases held with
      | read blockId => exact .keep busy reserves rfl fun _ => rfl
      | write blockId src => exact .succeeded none (enter_same ..)
  | fetched blockId other =>
      rw [State.advance, phase] at step_eq
      cases step_eq
      exact .succeeded _ (enter_same ..)
  | writeBack | fetching =>
      rw [State.advance, phase] at step_eq
      cases step_eq
  | idle | lookup | hit | miss | snapshot | flushing | returned =>
      rw [phase] at owned
      cases owned

/-- A call goes through its next critical section. -/
theorem Course.advance (course : Course before request state)
    (step_eq : state.advance () = .ok next) : Course before request next := by
  cases course with
  | looking phase inner_eq =>
      rw [State.advance, phase] at step_eq
      cases step_eq
      rw [State.lookup]
      split
      next missing => exact .missed (enter_same ..) inner_eq (inner_eq ▸ missing)
      next slot found =>
        split
        · exact .looking (enter_same ..) inner_eq
        · exact .found slot (enter_same ..)
  | found slot phase =>
      rw [State.advance, phase] at step_eq
      cases step_eq
      cases request with
      | read blockId => exact .succeeded _ (enter_same ..)
      | write blockId src => exact .succeeded _ (enter_same ..)
  | missed phase inner_eq absent =>
      rw [State.advance, phase] at step_eq
      dsimp only at step_eq
      rw [State.reserve, inner_eq] at step_eq
      split at step_eq
      next => cases step_eq
      next inner select_eq =>
        cases step_eq
        exact .gaveUp (enter_same ..) absent select_eq
      next slot inner select_eq =>
        cases step_eq
        refine .reserved slot (by rw [enter_same]; rfl) ?_ ⟨absent, inner, select_eq⟩
        rw [BlockCacheInner.Busy, enter_inner, modify_same]
  | reserved slot owned busy reserves => exact advance_reserved owned busy reserves step_eq
  | gaveUp phase | failed _ phase | succeeded _ phase =>
      rw [State.advance, phase] at step_eq
      cases step_eq

/-- The device completes a request of the call. -/
theorem Course.complete {succeeds : Bool} (course : Course before request state)
    (step_eq : state.complete () succeeds = .ok next) : Course before request next := by
  cases course with
  | reserved slot owned busy reserves =>
      unfold State.complete at step_eq
      split at step_eq
      next phase =>
        cases step_eq
        rw [phase] at owned
        exact .reserved slot (by rw [enter_same]; exact owned) busy reserves
      next phase =>
        cases step_eq
        rw [phase] at owned
        cases owned
        exact .keep busy reserves rfl fun _ => rfl
      next phase =>
        rw [phase] at owned
        cases owned
      next =>
        cases step_eq
        exact .failed slot (enter_same ..) busy reserves
      next =>
        cases step_eq
        exact .failed slot (enter_same ..) busy reserves
      next =>
        cases step_eq
        exact .failed slot (enter_same ..) busy reserves
      next => cases step_eq
  | looking phase | found _ phase | missed phase | gaveUp phase | failed _ phase
  | succeeded _ phase =>
      unfold State.complete at step_eq
      rw [phase] at step_eq
      cases step_eq

/-- A call that returns has come to one of its ends. -/
theorem Course.attend {fuel : Nat} {outcomes : List Bool} {after : State slots spb Sector Unit}
    {result : Except Unit (Option (Fin spb → Sector))} (course : Course before request state)
    (attend_eq : attend fuel outcomes state = .ok (result, after)) :
    Course before request after ∧ after.tasks () = .returned result := by
  induction fuel generalizing outcomes state with
  | zero => cases attend_eq
  | succ fuel ih =>
      rw [BlockCache.attend] at attend_eq
      split at attend_eq
      next answer phase =>
        cases attend_eq
        exact ⟨course, phase⟩
      next =>
        obtain ⟨next, step_eq, rest_eq⟩ := bind_eq_ok.mp attend_eq
        exact ih (course.complete step_eq) rest_eq
      next =>
        obtain ⟨next, step_eq, rest_eq⟩ := bind_eq_ok.mp attend_eq
        exact ih (course.complete step_eq) rest_eq
      next =>
        obtain ⟨next, step_eq, rest_eq⟩ := bind_eq_ok.mp attend_eq
        exact ih (course.complete step_eq) rest_eq
      next =>
        obtain ⟨next, step_eq, rest_eq⟩ := bind_eq_ok.mp attend_eq
        exact ih (course.advance step_eq) rest_eq

/-- The call returns what the device holds of a block. -/
def Delivers (blockId fuel : Nat) (state : State slots spb Sector Unit) : Prop :=
  ∃ final, BlockCache.attend fuel [] state =
    .ok (.ok (some (readSectors final.disk blockId)), final)

/-- A call that delivers after its next critical section delivers. -/
theorem Delivers.of_advance {blockId fuel : Nat} (delivers : Delivers blockId fuel next)
    (step_eq : state.advance () = .ok next) : Delivers blockId (fuel + 1) state := by
  obtain ⟨final, attend_eq⟩ := delivers
  refine ⟨final, ?_⟩
  rw [BlockCache.attend]
  split
  next phase =>
    rw [State.advance, phase] at step_eq
    cases step_eq
  next phase =>
    rw [State.advance, phase] at step_eq
    cases step_eq
  next phase =>
    rw [State.advance, phase] at step_eq
    cases step_eq
  next phase =>
    rw [State.advance, phase] at step_eq
    cases step_eq
  next =>
    rw [step_eq]
    exact attend_eq

/-- So does one that delivers after the device has done what it waits for. -/
theorem Delivers.of_complete {blockId fuel : Nat} (delivers : Delivers blockId fuel next)
    (step_eq : state.complete () true = .ok next) : Delivers blockId (fuel + 1) state := by
  obtain ⟨final, attend_eq⟩ := delivers
  refine ⟨final, ?_⟩
  have done : state.complete () (([] : List Bool).headD true) = .ok next := step_eq
  rw [BlockCache.attend]
  split
  next phase =>
    unfold State.complete at step_eq
    rw [phase] at step_eq
    cases step_eq
  next =>
    rw [done]
    exact attend_eq
  next =>
    rw [done]
    exact attend_eq
  next =>
    rw [done]
    exact attend_eq
  next _ no_write no_fetch no_flush =>
    unfold State.complete at step_eq
    split at step_eq
    next phase _ => exact (no_write _ _ _ _ phase).elim
    next phase _ => exact (no_fetch _ _ phase).elim
    next phase _ => exact (no_flush _ _ phase).elim
    next failing => cases failing
    next failing => cases failing
    next failing => cases failing
    next => cases step_eq

section Delivery

variable (state) {blockId : Nat} {slot : Fin slots} (more : Nat)

theorem delivers_returned {data : Fin spb → Sector}
    (data_eq : data = readSectors state.disk blockId) :
    Delivers blockId (more + 1) (state.enter () (.returned (.ok (some data)))) := by
  refine ⟨state.enter () (.returned (.ok (some data))), ?_⟩
  rw [BlockCache.attend, enter_same, data_eq]
  rfl

theorem delivers_fetched
    (data_eq : (state.inner.entries slot).data = readSectors state.disk blockId) :
    Delivers blockId (more + 2) (state.enter () (.fetched blockId slot)) := by
  have step_eq : (state.enter () (.fetched blockId slot)).advance () =
      .ok (((state.enter () (.fetched blockId slot)).modify slot
        ({ · with referenced := true, inFlight := false })).enter ()
        (.returned (.ok (some (state.inner.entries slot).data)))) := by
    rw [State.advance, enter_same]
    rfl
  refine Delivers.of_advance ?_ step_eq
  exact delivers_returned _ more data_eq

theorem delivers_fetching :
    Delivers blockId (more + 3) (state.enter () (.fetching blockId slot)) := by
  have step_eq : (state.enter () (.fetching blockId slot)).complete () true =
      .ok (((state.enter () (.fetching blockId slot)).modify slot
        ({ · with data := readSectors state.disk blockId })).enter () (.fetched blockId slot)) := by
    unfold State.complete
    rw [enter_same]
    rfl
  refine Delivers.of_complete (delivers_fetched _ more ?_) step_eq
  rw [modify_same]
  rfl

theorem delivers_retag :
    Delivers blockId (more + 4) (state.enter () (.retag (.read blockId) slot)) := by
  have step_eq : (state.enter () (.retag (.read blockId) slot)).advance () =
      .ok (((state.enter () (.retag (.read blockId) slot)).modify slot
        ({ · with blockId := some blockId })).enter () (.fetching blockId slot)) := by
    rw [State.advance, enter_same]
    rfl
  exact (delivers_fetching _ more).of_advance step_eq

theorem delivers_written :
    Delivers blockId (more + 5) (state.enter () (.written (.read blockId) slot)) := by
  have step_eq : (state.enter () (.written (.read blockId) slot)).advance () =
      .ok (((state.enter () (.written (.read blockId) slot)).modify slot
        ({ · with dirty := false })).enter () (.retag (.read blockId) slot)) := by
    rw [State.advance, enter_same]
  exact (delivers_retag _ more).of_advance step_eq

theorem delivers_writeBack {oldBlock : Nat} {oldData : Fin spb → Sector} :
    Delivers blockId (more + 6)
      (state.enter () (.writeBack (.read blockId) slot oldBlock oldData)) := by
  let waiting := state.enter () (.writeBack (.read blockId) slot oldBlock oldData)
  have step_eq : waiting.complete () true =
      .ok ({ waiting with disk := writeSectors state.disk oldBlock oldData }.enter ()
        (.written (.read blockId) slot)) := by
    unfold State.complete
    rw [enter_same]
    rfl
  exact (delivers_written _ more).of_complete step_eq

theorem delivers_victim :
    Delivers blockId (more + 7) (state.enter () (.victim (.read blockId) slot)) := by
  have step_eq : (state.enter () (.victim (.read blockId) slot)).advance () =
      .ok ((state.enter () (.victim (.read blockId) slot)).inspectVictim () (.read blockId)
        slot) := by
    rw [State.advance, enter_same]
  refine Delivers.of_advance ?_ step_eq
  rw [State.inspectVictim]
  split
  · exact delivers_writeBack _ more
  · exact delivers_retag _ (more + 2)

/-- A slot is chosen when none is in flight. -/
theorem delivers_miss (ready : ∀ slot, ¬ state.inner.Busy slot) :
    Delivers blockId (more + 8) (state.enter () (.miss (.read blockId))) := by
  cases select_eq : state.inner.selectSlot with
  | none => exact absurd select_eq (selectSlot_ne_none _)
  | some choice =>
      obtain ⟨result, inner⟩ := choice
      cases result with
      | error problem =>
          obtain ⟨slot, busy⟩ := (selectSlot_spec select_eq).2.2 rfl
          exact absurd busy (ready slot)
      | ok slot =>
          have step_eq : (state.enter () (.miss (.read blockId))).advance () =
              .ok (({ state.enter () (.miss (.read blockId)) with inner }.modify slot
                ({ · with inFlight := true })).enter () (.victim (.read blockId) slot)) := by
            rw [State.advance, enter_same]
            dsimp only
            rw [State.reserve, enter_inner, select_eq]
          exact (delivers_victim _ more).of_advance step_eq

/-- A block that is not in the cache is read from the device. -/
theorem delivers_lookup (ready : ∀ slot, ¬ state.inner.Busy slot)
    (absent : state.inner.findBlock blockId = none) :
    Delivers blockId (more + 9) (state.enter () (.lookup (.read blockId))) := by
  have step_eq : (state.enter () (.lookup (.read blockId))).advance () =
      .ok ((state.enter () (.lookup (.read blockId))).enter () (.miss (.read blockId))) := by
    rw [State.advance, enter_same]
    dsimp only
    rw [State.lookup, enter_inner, Request.blockId, absent]
  exact (delivers_miss _ more ready).of_advance step_eq

end Delivery

omit [NeZero slots] in
theorem findBlock_congr {Block : Type} {left right : BlockCacheInner slots Block}
    (same : ∀ slot, (left.entries slot).blockId = (right.entries slot).blockId) (blockId : Nat) :
    left.findBlock blockId = right.findBlock blockId := by
  rw [BlockCacheInner.findBlock, BlockCacheInner.findBlock]
  simp only [same]

omit [NeZero slots] in
/-- A call begins with the lookup of its block. -/
theorem begun_eq {begun : State slots spb Sector Unit}
    (call_eq : state.call () (.request request) = .ok begun) :
    begun = state.enter () (.lookup request) := by
  unfold State.call at call_eq
  split at call_eq
  next held =>
    cases held
    cases call_eq
    rfl
  next held =>
    cases held
    cases call_eq
    rfl
  next held => cases held
  next held => cases held
  next => cases call_eq

/-- After a call that found no slot, and when the slots in flight are released, the block can be
read. -/
theorem served_of_exhausted {after : State slots spb Sector Unit}
    (phase : after.tasks () = .returned (.error ()))
    (absent : state.inner.findBlock request.blockId = none)
    (select_eq : state.inner.selectSlot = some (.error (), after.inner)) :
    ∃ fuel final, callBlock fuel [] (othersOver state.inner after) (.read request.blockId) =
      .ok (.ok (some (readSectors final.disk request.blockId)), final) := by
  have refreshed := (selectSlot_spec select_eq).1
  have ready (slot : Fin slots) : ¬ (othersOver state.inner after).inner.Busy slot := by
    obtain ⟨referenced, entry_eq⟩ := refreshed slot
    simp only [othersOver, BlockCacheInner.Busy]
    split
    next => nofun
    next free =>
      rw [entry_eq]
      exact free
  have still_absent : (othersOver state.inner after).inner.findBlock request.blockId = none := by
    rw [← absent]
    refine findBlock_congr (fun slot => ?_) request.blockId
    obtain ⟨referenced, entry_eq⟩ := refreshed slot
    simp only [othersOver]
    split
    all_goals rw [entry_eq]
  obtain ⟨final, attend_eq⟩ := delivers_lookup _ 0 ready still_absent
  refine ⟨9, final, ?_⟩
  have call_eq : (othersOver state.inner after).call () (.request (.read request.blockId)) =
      .ok ((othersOver state.inner after).enter () (.lookup (.read request.blockId))) := by
    unfold State.call
    have later_phase : (othersOver state.inner after).tasks () = .returned (.error ()) := phase
    rw [later_phase]
  rw [callBlock, call_eq]
  exact attend_eq

/-- A failed call gives back what it had reserved, and the block can be read later, exactly when
there was no slot to reserve. -/
theorem gives_slot_back_iff {fuel : Nat} {outcomes : List Bool}
    {after : State slots spb Sector Unit}
    (fails : callBlock fuel outcomes state request = .ok (.error (), after)) :
    GivesBack state request after ↔ Exhausted state.inner := by
  obtain ⟨begun, call_eq, attend_eq⟩ := bind_eq_ok.mp fails
  obtain rfl := begun_eq call_eq
  have start : Course state request (state.enter () (.lookup request)) :=
    .looking (enter_same ..) rfl
  obtain ⟨course, phase⟩ := start.attend attend_eq
  cases course with
  | gaveUp _ absent select_eq =>
      have no_slot (slot : Fin slots) : ¬ Reserves state.inner request slot := by
        rintro ⟨-, inner, chosen⟩
        rw [select_eq] at chosen
        cases chosen
      refine iff_of_true ⟨fun slot reserves => absurd reserves (no_slot slot),
        fun slot reserves => absurd reserves (no_slot slot),
        served_of_exhausted phase absent select_eq⟩ ⟨after.inner, select_eq⟩
  | failed slot _ busy reserves =>
      refine iff_of_false (fun gives => gives.released slot reserves busy) ?_
      rintro ⟨inner, select_eq⟩
      obtain ⟨-, other, chosen⟩ := reserves
      rw [select_eq] at chosen
      cases chosen
  | reserved slot owned busy reserves =>
      rw [phase] at owned
      cases owned
  | looking other | found _ other | missed other | succeeded _ other =>
      rw [phase] at other
      cases other

/-- A call for a block whose slot stays in flight never returns. -/
theorem attend_spins {slot : Fin slots} (outcomes : List Bool)
    (phase : state.tasks () = .lookup request)
    (found : state.inner.findBlock request.blockId = some slot) (busy : state.inner.Busy slot)
    (fuel : Nat) : attend fuel outcomes state = .error .stuck := by
  induction fuel generalizing state with
  | zero => rfl
  | succ fuel ih =>
      have step_eq : state.advance () = .ok (state.enter () (.lookup request)) := by
        rw [State.advance, phase]
        dsimp only
        rw [State.lookup, found]
        exact congrArg _ (if_pos busy)
      rw [BlockCache.attend, phase]
      dsimp only
      rw [step_eq]
      exact ih (enter_same ..) found busy

section Runs

/-- A cache of one slot, before any call. -/
def single : State 1 1 Nat Unit := .new (fun _ => 0) id

/-- The slot is in flight for a call of another task. -/
def occupied : State 1 1 Nat Unit :=
  single.modify 0 ({ · with blockId := some 1, inFlight := true })

/-- The call finds no slot; when the other one is over, block 2 can be read. -/
theorem gives_slot_back_occupied :
    ∃ after, callBlock 4 [] occupied (.read 2) = .ok (.error (), after) ∧
      GivesBack occupied (.read 2) after := by
  have fails : ∃ after, callBlock 4 [] occupied (.read 2) = .ok (.error (), after) := ⟨_, rfl⟩
  obtain ⟨after, fails⟩ := fails
  exact ⟨after, fails, (gives_slot_back_iff fails).mpr ⟨_, rfl⟩⟩

/-- The read of block 5 fails: its slot stays in flight, and no later read of block 5 returns. -/
theorem failed_read_keeps_slot :
    ∃ after, callBlock 6 [false] single (.read 5) = .ok (.error (), after) ∧
      Reserves single.inner (.read 5) 0 ∧ after.inner.Busy 0 ∧
      (∀ fuel outcomes, callBlock fuel outcomes after (.read 5) = .error .stuck) ∧
      ¬ GivesBack single (.read 5) after := by
  have reserves : Reserves single.inner (.read 5) 0 := ⟨by decide, _, rfl⟩
  refine ⟨_, rfl, reserves, rfl, fun fuel outcomes => ?_, fun gives => ?_⟩
  · exact attend_spins outcomes rfl rfl rfl fuel
  · exact gives.released 0 reserves rfl

end Runs

end BlockCache
end Vespertine
