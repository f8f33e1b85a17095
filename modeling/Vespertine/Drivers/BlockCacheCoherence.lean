import Vespertine.Drivers.BlockCache

/-!
# Coherence of the block cache

No two slots hold the same block, and a hit copies to or from a slot that holds its block.  The tag
of a slot changes only after the victim has been written back, so between the failed lookup and the
new tag nothing shows that a block is on its way: a second task that misses the same block brings it
in again.  A hit is remembered as a slot number, so a slot that is tagged anew before the copy is
copied all the same.

Runs in which neither happens are coherent.
-/

namespace Vespertine
namespace BlockCache

variable {slots spb : Nat} {Sector τ : Type}

/-- The block that a task brings in and has not tagged yet. -/
def Phase.incoming {Block : Type} : Phase slots Block → Option Nat
  | .miss request | .victim request _ | .writeBack request .. | .written request _
  | .retag request _ => some request.blockId
  | .idle | .lookup _ | .hit .. | .fetching .. | .fetched .. | .snapshot | .flushing _
  | .returned _ => none

/-- The block that a slot holds. -/
def State.tagOf (state : State slots spb Sector τ) (slot : Fin slots) : Option Nat :=
  (state.inner.entries slot).blockId

/-- Tags are distinct and hits are in slots that hold their block. -/
structure Coherent (state : State slots spb Sector τ) : Prop where
  distinct : ∀ left right blockId, state.tagOf left = some blockId →
    state.tagOf right = some blockId → left = right
  held : ∀ task request slot, state.tasks task = .hit request slot →
    state.tagOf slot = some request.blockId

/-- A coherent cache in which blocks on their way in are not there yet, each brought by one task. -/
structure Orderly (state : State slots spb Sector τ) : Prop extends Coherent state where
  absent : ∀ task blockId, (state.tasks task).incoming = some blockId →
    ∀ slot, state.tagOf slot ≠ some blockId
  single : ∀ left right blockId, (state.tasks left).incoming = some blockId →
    (state.tasks right).incoming = some blockId → left = right

/-- A lookup fails only if no other task is bringing in the block. -/
def MissesAlone (state : State slots spb Sector τ) :
    Event τ (Fin spb → Sector) → Prop
  | .advance task => ∀ request, state.tasks task = .lookup request →
      (∀ slot, state.tagOf slot ≠ some request.blockId) →
      ∀ other, (state.tasks other).incoming ≠ some request.blockId
  | .call .. | .complete .. => True

/-- A slot is tagged anew only if no task is about to copy to or from it. -/
def TagsUnwatched (state : State slots spb Sector τ) : Event τ (Fin spb → Sector) → Prop
  | .advance task => ∀ request slot, state.tasks task = .retag request slot →
      ∀ other copied, state.tasks other ≠ .hit copied slot
  | .call .. | .complete .. => True

section Tags

variable {state : State slots spb Sector τ}

/-- A change of a slot that keeps its tag. -/
theorem tagOf_modify {change : CacheEntry (Fin spb → Sector) → CacheEntry (Fin spb → Sector)}
    (keeps : ∀ entry, (change entry).blockId = entry.blockId) (slot other : Fin slots) :
    (state.modify slot change).tagOf other = state.tagOf other := by
  by_cases same : other = slot
  · subst same
    rw [State.tagOf, modify_same, keeps, State.tagOf]
  · rw [State.tagOf, modify_other same, State.tagOf]

@[simp] theorem tagOf_store (blockId : Nat) (src : Fin spb → Sector) (slot : Fin slots) :
    (state.store blockId src).tagOf slot = state.tagOf slot := rfl

theorem Refreshed.blockId {Block : Type} {inner after : BlockCacheInner slots Block}
    (refreshed : Refreshed inner after) (slot : Fin slots) :
    (after.entries slot).blockId = (inner.entries slot).blockId := by
  obtain ⟨referenced, entry_eq⟩ := refreshed slot
  rw [entry_eq]

theorem clearDirty_blockId {Block : Type} (inner : BlockCacheInner slots Block)
    (slot : Fin slots) :
    (inner.clearDirty.entries slot).blockId = (inner.entries slot).blockId := by
  rw [BlockCacheInner.clearDirty]
  dsimp only
  split <;> rfl

end Tags

section Alone

variable [Subsingleton τ] (state : State slots spb Sector τ) (event : Event τ (Fin spb → Sector))

/-- A task on its own misses alone. -/
theorem missesAlone_of_subsingleton : MissesAlone state event := by
  cases event with
  | advance task =>
      intro request phase _ other
      rw [Subsingleton.elim other task, phase]
      nofun
  | call _ _ | complete _ _ => trivial

/-- Nobody watches a task on its own. -/
theorem tagsUnwatched_of_subsingleton : TagsUnwatched state event := by
  cases event with
  | advance task =>
      intro request slot phase other copied
      rw [Subsingleton.elim other task, phase]
      nofun
  | call _ _ | complete _ _ => trivial

end Alone

section Steps

variable [DecidableEq τ] {state base after : State slots spb Sector τ} {task : τ}

/-- A move that leaves the tags alone keeps order if the block that the task brings in is nowhere
else and any hit of its own is in the slot of its block. -/
theorem Orderly.enter {phase : Phase slots (Fin spb → Sector)} (orderly : Orderly state)
    (tasks_eq : base.tasks = state.tasks) (tags : ∀ slot, base.tagOf slot = state.tagOf slot)
    (incoming : ∀ blockId, phase.incoming = some blockId →
      (∀ slot, state.tagOf slot ≠ some blockId) ∧
        ∀ other, (state.tasks other).incoming = some blockId → other = task)
    (hit : ∀ request slot, phase = .hit request slot → state.tagOf slot = some request.blockId) :
    Orderly (base.enter task phase) := by
  refine ⟨⟨fun left right blockId left_eq right_eq => ?_, fun other request slot phase_eq => ?_⟩,
    fun other blockId coming slot tagged => ?_,
    fun left right blockId left_coming right_coming => ?_⟩
  · exact orderly.distinct left right blockId ((tags left).symm.trans left_eq)
      ((tags right).symm.trans right_eq)
  · refine (tags slot).trans ?_
    by_cases same : other = task
    · subst same
      rw [enter_same] at phase_eq
      exact hit request slot phase_eq
    · rw [enter_other same, tasks_eq] at phase_eq
      exact orderly.held other request slot phase_eq
  · replace tagged := (tags slot).symm.trans tagged
    by_cases same : other = task
    · subst same
      rw [enter_same] at coming
      exact (incoming blockId coming).1 slot tagged
    · rw [enter_other same, tasks_eq] at coming
      exact orderly.absent other blockId coming slot tagged
  · by_cases left_same : left = task
    · subst left_same
      rw [enter_same] at left_coming
      by_cases right_same : right = left
      · exact right_same.symm
      · rw [enter_other right_same, tasks_eq] at right_coming
        exact ((incoming blockId left_coming).2 right right_coming).symm
    · rw [enter_other left_same, tasks_eq] at left_coming
      by_cases right_same : right = task
      · subst right_same
        rw [enter_same] at right_coming
        exact (incoming blockId right_coming).2 left left_coming
      · rw [enter_other right_same, tasks_eq] at right_coming
        exact orderly.single left right blockId left_coming right_coming

omit [DecidableEq τ] in
/-- The block that a task is bringing in is nowhere else. -/
theorem Orderly.alone (orderly : Orderly state) {blockId : Nat}
    (coming : (state.tasks task).incoming = some blockId) :
    (∀ slot, state.tagOf slot ≠ some blockId) ∧
      ∀ other, (state.tasks other).incoming = some blockId → other = task :=
  ⟨orderly.absent task blockId coming, fun other other_coming =>
    orderly.single other task blockId other_coming coming⟩

/-- A task that tags its slot with the block it brings in keeps order. -/
theorem Orderly.tag {phase : Phase slots (Fin spb → Sector)} {blockId : Nat} {slot : Fin slots}
    (orderly : Orderly state) (coming : (state.tasks task).incoming = some blockId)
    (unwatched : ∀ other copied, state.tasks other ≠ .hit copied slot)
    (tasks_eq : base.tasks = state.tasks) (own : base.tagOf slot = some blockId)
    (tags : ∀ other, other ≠ slot → base.tagOf other = state.tagOf other)
    (done : phase.incoming = none) (no_hit : ∀ request copied, phase ≠ .hit request copied) :
    Orderly (base.enter task phase) := by
  have absent := orderly.absent task blockId coming
  have within (other : τ) (block : Nat)
      (other_coming : ((base.enter task phase).tasks other).incoming = some block) :
      (state.tasks other).incoming = some block ∧ block ≠ blockId := by
    by_cases same : other = task
    · subst same
      rw [enter_same, done] at other_coming
      cases other_coming
    · rw [enter_other same, tasks_eq] at other_coming
      refine ⟨other_coming, fun block_eq => same ?_⟩
      exact orderly.single other task blockId (block_eq ▸ other_coming) coming
  have only_slot (other : Fin slots) (tagged : base.tagOf other = some blockId) : other = slot := by
    by_contra ne
    exact absent other ((tags other ne).symm.trans tagged)
  refine ⟨⟨fun left right block left_eq right_eq => ?_, fun other request copied phase_eq => ?_⟩,
    fun other block other_coming held tagged => ?_,
    fun left right block left_coming right_coming => ?_⟩
  · by_cases block_eq : block = blockId
    · subst block_eq
      exact (only_slot left left_eq).trans (only_slot right right_eq).symm
    · have ne (other : Fin slots) (tagged : base.tagOf other = some block) : other ≠ slot := by
        rintro rfl
        exact block_eq (Option.some.inj (tagged.symm.trans own))
      exact orderly.distinct left right block
        ((tags left (ne left left_eq)).symm.trans left_eq)
        ((tags right (ne right right_eq)).symm.trans right_eq)
  · by_cases same : other = task
    · subst same
      rw [enter_same] at phase_eq
      exact absurd phase_eq (no_hit request copied)
    · rw [enter_other same, tasks_eq] at phase_eq
      have ne : copied ≠ slot := fun copied_eq => unwatched other request (copied_eq ▸ phase_eq)
      exact (tags copied ne).trans (orderly.held other request copied phase_eq)
  · obtain ⟨coming_before, ne⟩ := within other block other_coming
    have held_ne : held ≠ slot := by
      rintro rfl
      exact ne (Option.some.inj (tagged.symm.trans own))
    exact orderly.absent other block coming_before held ((tags held held_ne).symm.trans tagged)
  · exact orderly.single left right block (within left block left_coming).1
      (within right block right_coming).1

variable [NeZero slots]

/-- Every move that meets the conditions keeps order. -/
theorem Orderly.step {event : Event τ (Fin spb → Sector)} (orderly : Orderly state)
    (alone : MissesAlone state event) (unwatched : TagsUnwatched state event)
    (step_eq : step state event = .ok after) : Orderly after := by
  have moves := moves_of_step step_eq
  generalize event.task = task at moves
  cases moves with
  | called request free => exact orderly.enter rfl (fun _ => rfl) nofun nofun
  | flushCalled free => exact orderly.enter rfl (fun _ => rfl) nofun nofun
  | missed request phase absent =>
      refine orderly.enter rfl (fun _ => rfl) (fun blockId coming => ?_) nofun
      cases coming
      exact ⟨absent, fun other other_coming =>
        absurd other_coming (alone request phase absent other)⟩
  | waited request phase slot flying => exact orderly.enter rfl (fun _ => rfl) nofun nofun
  | found request phase slot tagged ready =>
      refine orderly.enter rfl (fun _ => rfl) nofun fun other copied hit => ?_
      cases hit
      exact tagged
  | copied request slot phase =>
      cases request with
      | read blockId => exact orderly.enter rfl (tagOf_modify (fun _ => by rfl) slot) nofun nofun
      | write blockId src =>
          refine orderly.enter rfl (fun other => ?_) nofun nofun
          rw [tagOf_store]
          exact tagOf_modify (fun _ => by rfl) slot other
  | exhausted request phase inner refreshed flying =>
      exact orderly.enter rfl refreshed.blockId nofun nofun
  | reserved request phase inner refreshed slot free =>
      refine orderly.enter rfl (fun other => ?_) (fun blockId coming => ?_) nofun
      · refine Eq.trans ?_ (refreshed.blockId other)
        exact tagOf_modify (fun _ => by rfl) slot other
      · exact orderly.alone (by rw [phase]; exact coming)
  | dirtyVictim request slot phase oldBlock dirty tagged =>
      refine orderly.enter rfl (fun _ => rfl) (fun blockId coming => ?_) nofun
      exact orderly.alone (by rw [phase]; exact coming)
  | cleanVictim request slot phase clean =>
      refine orderly.enter rfl (fun _ => rfl) (fun blockId coming => ?_) nofun
      exact orderly.alone (by rw [phase]; exact coming)
  | cleared request slot phase =>
      refine orderly.enter rfl (tagOf_modify (fun _ => by rfl) slot)
        (fun blockId coming => ?_) nofun
      exact orderly.alone (by rw [phase]; exact coming)
  | tagged request slot phase =>
      have coming : (state.tasks task).incoming = some request.blockId := by rw [phase]; rfl
      have others (change : CacheEntry (Fin spb → Sector) → CacheEntry (Fin spb → Sector))
          (other : Fin slots) (ne : other ≠ slot) :
          (state.modify slot change).tagOf other = state.tagOf other := by
        rw [State.tagOf, modify_other ne, State.tagOf]
      cases request with
      | read blockId =>
          refine orderly.tag coming (unwatched _ slot phase) rfl ?_ (others _) rfl nofun
          rw [State.tagOf, modify_same]
          rfl
      | write blockId src =>
          refine orderly.tag coming (unwatched _ slot phase) rfl ?_ (fun other ne => ?_) rfl nofun
          · rw [tagOf_store, State.tagOf, modify_same]
            rfl
          · rw [tagOf_store]
            exact others _ other ne
  | delivered blockId slot phase =>
      exact orderly.enter rfl (tagOf_modify (fun _ => by rfl) slot) nofun nofun
  | collected phase => exact orderly.enter rfl (fun _ => rfl) nofun nofun
  | cleaned phase => exact orderly.enter rfl (clearDirty_blockId state.inner) nofun nofun
  | wroteBack request slot oldBlock oldData phase =>
      refine orderly.enter rfl (fun _ => rfl) (fun blockId coming => ?_) nofun
      exact orderly.alone (by rw [phase]; exact coming)
  | fetched blockId slot phase =>
      exact orderly.enter rfl (tagOf_modify (fun _ => by rfl) slot) nofun nofun
  | flushed blockId data rest phase => exact orderly.enter rfl (fun _ => rfl) nofun nofun
  | failed waiting => exact orderly.enter rfl (fun _ => rfl) nofun nofun

/-- A cache in which no task misses a block that another brings in, and no slot is tagged anew while
a task is about to copy to or from it. -/
def orderlyCache : Machine (State slots spb Sector τ) (Event τ (Fin spb → Sector)) Stuck :=
  ⟨BlockCache.step, fun state event => MissesAlone state event ∧ TagsUnwatched state event⟩

/-- In every run of any number of tasks in which no lookup fails while another task brings in the
block and no slot is tagged anew while a task is about to copy to or from it, the cache is coherent
in every state. -/
theorem block_cache_coherent {blank : Fin spb → Sector} {disk : Nat → Sector}
    {events : List (Event τ (Fin spb → Sector))} {final : State slots spb Sector τ}
    (permits : orderlyCache.Permits (.new blank disk : State slots spb Sector τ) events)
    (run_eq : orderlyCache.run (.new blank disk) events = .ok final) : Coherent final := by
  have start : Orderly (State.new blank disk : State slots spb Sector τ) :=
    ⟨⟨nofun, nofun⟩, nofun, nofun⟩
  have keeps (state : State slots spb Sector τ) (event : Event τ (Fin spb → Sector))
      (next : State slots spb Sector τ) (orderly : Orderly state)
      (permitted : MissesAlone state event ∧ TagsUnwatched state event)
      (step_eq : BlockCache.step state event = .ok next) : Orderly next :=
    orderly.step permitted.1 permitted.2 step_eq
  exact (Machine.run_keeps orderlyCache keeps start permits run_eq).toCoherent

/-- Two tasks read the same block of a cache with two slots; both miss it before either tags its
slot, and both slots end up with it. -/
theorem block_read_twice :
    ∃ final : State 2 1 Nat Nat, orderlyCache.run (.new (fun _ => 0) id)
        [.call 0 (.request (.read 5)), .call 1 (.request (.read 5)), .advance 0, .advance 1,
          .advance 0, .advance 1, .advance 0, .advance 1, .advance 0, .advance 1] = .ok final ∧
      final.tagOf 0 = some 5 ∧ final.tagOf 1 = some 5 ∧ ¬ Coherent final := by
  refine ⟨_, rfl, rfl, rfl, fun coherent => ?_⟩
  exact absurd (coherent.distinct 0 1 5 rfl rfl) (by decide)

/-- One task reads a block twice; the second time it is there. -/
theorem block_cache_coherent_second_read :
    ∃ final : State 2 1 Nat Unit, orderlyCache.run (.new (fun _ => 0) id)
        [.call () (.request (.read 5)), .advance (), .advance (), .advance (), .advance (),
          .complete () true, .advance (), .call () (.request (.read 5)), .advance ()] =
            .ok final ∧
      final.tasks () = .hit (.read 5) 0 ∧ Coherent final := by
  obtain ⟨final, run_eq, phase⟩ : ∃ final : State 2 1 Nat Unit,
      orderlyCache.run (.new (fun _ => 0) id)
        [.call () (.request (.read 5)), .advance (), .advance (), .advance (), .advance (),
          .complete () true, .advance (), .call () (.request (.read 5)), .advance ()] =
            .ok final ∧
      final.tasks () = .hit (.read 5) 0 := ⟨_, rfl, rfl⟩
  refine ⟨final, run_eq, phase, block_cache_coherent ?_ run_eq⟩
  exact Machine.permits_of_mem _ _ fun event _ state =>
    ⟨missesAlone_of_subsingleton state event, tagsUnwatched_of_subsingleton state event⟩

end Steps

end BlockCache
end Vespertine
