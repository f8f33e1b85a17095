import Mathlib.Algebra.Group.Fin.Basic
import Mathlib.Data.Nat.Count
import Vespertine.Drivers.BlockCache

/-!
# Second-chance eviction

The hand of the clock passes over slots in flight and clears the referenced bits of the others,
until it meets a slot that has neither.  The loop gives up when it has passed over as many slots in
flight as there are slots.  It counts them through both of its sweeps, so a slot in flight may count
twice.
-/

namespace Vespertine
namespace BlockCache

variable {slots : Nat} [NeZero slots] {Block : Type} {inner after : BlockCacheInner slots Block}

/-- The slot under the hand after a number of turns. -/
def BlockCacheInner.ahead (inner : BlockCacheInner slots Block) (turns : Nat) : Fin slots :=
  inner.clockHand + Fin.ofNat slots turns

/-- A slot in flight. -/
abbrev BlockCacheInner.Busy (inner : BlockCacheInner slots Block) (slot : Fin slots) : Prop :=
  (inner.entries slot).inFlight = true

/-- How many of the slots that the hand passes are in flight. -/
def BlockCacheInner.busyAhead (inner : BlockCacheInner slots Block) (turns : Nat) : Nat :=
  Nat.count (fun turn => inner.Busy (inner.ahead turn)) turns

/-- A slot is found that is not in flight, and none only if all are in flight. -/
def Finds (inner : BlockCacheInner slots Block) : Except Unit (Fin slots) → Prop
  | .ok slot => ¬ inner.Busy slot
  | .error () => ∀ slot, inner.Busy slot

/-- All slots are in flight, or some slot is neither in flight nor referenced, or the hand reaches a
slot that is not in flight in fewer turns than there are such slots. -/
def Findable (inner : BlockCacheInner slots Block) : Prop :=
  (∀ slot, inner.Busy slot) ∨
    (∃ slot, ¬ inner.Busy slot ∧ (inner.entries slot).referenced = false) ∨
    ∃ turns, ¬ inner.Busy (inner.ahead turns) ∧ inner.busyAhead slots + turns < slots

theorem ahead_zero (inner : BlockCacheInner slots Block) : inner.ahead 0 = inner.clockHand := by
  rw [BlockCacheInner.ahead]
  exact add_zero inner.clockHand

theorem ofNat_add (left right : Nat) :
    Fin.ofNat slots (left + right) = Fin.ofNat slots left + Fin.ofNat slots right := by
  apply Fin.ext
  simp [Fin.ofNat, Fin.val_add]

theorem ahead_slots (inner : BlockCacheInner slots Block) :
    inner.ahead slots = inner.clockHand := by
  have zero_eq : Fin.ofNat slots slots = 0 := Fin.ext (by simp [Fin.ofNat])
  rw [BlockCacheInner.ahead, zero_eq, add_zero]

/-- The hand passes every slot in one sweep. -/
theorem exists_ahead (inner : BlockCacheInner slots Block) (slot : Fin slots) :
    ∃ turns < slots, inner.ahead turns = slot := by
  refine ⟨(slot - inner.clockHand).val, Fin.is_lt _, ?_⟩
  rw [BlockCacheInner.ahead, Fin.ofNat_val_eq_self, add_sub_cancel]

/-- The first slot of a kind that the hand comes to. -/
theorem exists_first_ahead (inner : BlockCacheInner slots Block) {kind : Fin slots → Prop}
    (present : ∃ slot, kind slot) :
    ∃ turns < slots, kind (inner.ahead turns) ∧ ∀ turn < turns, ¬ kind (inner.ahead turn) := by
  classical
  obtain ⟨slot, slot_kind⟩ := present
  obtain ⟨turns, turns_lt, rfl⟩ := exists_ahead inner slot
  have reached : ∃ turn, kind (inner.ahead turn) := ⟨turns, slot_kind⟩
  exact ⟨Nat.find reached, (Nat.find_min' reached slot_kind).trans_lt turns_lt,
    Nat.find_spec reached, fun _ => Nat.find_min reached⟩

/-- In less than a sweep the hand meets no slot twice. -/
theorem ahead_ne {left right : Nat} (inner : BlockCacheInner slots Block) (left_lt : left < slots)
    (right_lt : right < slots) (ne : left ≠ right) : inner.ahead left ≠ inner.ahead right := by
  intro same
  have value_eq := congrArg Fin.val (add_left_cancel same)
  simp only [Fin.ofNat, Nat.mod_eq_of_lt left_lt, Nat.mod_eq_of_lt right_lt] at value_eq
  exact ne value_eq

theorem all_busy_iff : (∀ slot, inner.Busy slot) ↔ inner.busyAhead slots = slots := by
  rw [BlockCacheInner.busyAhead, Nat.count_iff_forall]
  refine ⟨fun all turns _ => all _, fun all slot => ?_⟩
  obtain ⟨turns, lt, rfl⟩ := exists_ahead inner slot
  exact all turns lt

theorem busyAhead_le (inner : BlockCacheInner slots Block) (turns : Nat) :
    inner.busyAhead turns ≤ turns := Nat.count_le _

theorem busyAhead_succ (inner : BlockCacheInner slots Block) (turns : Nat) :
    inner.busyAhead (turns + 1) =
      inner.busyAhead turns + if inner.Busy (inner.ahead turns) then 1 else 0 :=
  Nat.count_succ ..

/-- The caches after the hand has passed some slots without stopping. -/
structure Passed (inner : BlockCacheInner slots Block) (turns : Nat)
    (after : BlockCacheInner slots Block) : Prop where
  hand_eq : after.clockHand = inner.ahead turns
  busy_iff : ∀ slot, after.Busy slot ↔ inner.Busy slot
  /-- The slots that are still ahead are as they were. -/
  kept : ∀ turn, turns ≤ turn → turn < slots →
    after.entries (inner.ahead turn) = inner.entries (inner.ahead turn)
  /-- The others are not referenced any more. -/
  cleared : ∀ turn < turns, ¬ inner.Busy (inner.ahead turn) →
    (after.entries (inner.ahead turn)).referenced = false

theorem ahead_succ (inner : BlockCacheInner slots Block) (turns : Nat) :
    inner.ahead (turns + 1) = inner.ahead turns + 1 := by
  rw [BlockCacheInner.ahead, BlockCacheInner.ahead, ofNat_add, add_assoc]
  rfl

/-- The hand turns on from a slot in flight. -/
theorem Passed.skip {turns : Nat} (passed : Passed inner turns after)
    (busy : inner.Busy (inner.ahead turns)) :
    Passed inner (turns + 1) { after with clockHand := after.clockHand + 1 } where
  hand_eq := by rw [passed.hand_eq, ahead_succ]
  busy_iff := passed.busy_iff
  kept turn le lt := passed.kept turn (by omega) lt
  cleared turn lt free := by
    by_cases last : turn = turns
    · exact absurd (last ▸ busy) free
    · exact passed.cleared turn (by omega) free

/-- It clears the referenced bit of a slot that is not in flight. -/
theorem Passed.clear {turns : Nat} (passed : Passed inner turns after) (within : turns < slots) :
    Passed inner (turns + 1) (BlockCacheInner.modify
      { after with clockHand := after.clockHand + 1 } after.clockHand
      ({ · with referenced := false })) where
  hand_eq := (congrArg (· + 1) passed.hand_eq).trans (ahead_succ inner turns).symm
  busy_iff slot := by
    refine Iff.trans ?_ (passed.busy_iff slot)
    by_cases same : slot = after.clockHand
    · simp [BlockCacheInner.Busy, BlockCacheInner.modify, same]
    · simp [BlockCacheInner.Busy, BlockCacheInner.modify, same]
  kept turn le lt := by
    have ne : inner.ahead turn ≠ after.clockHand := by
      rw [passed.hand_eq]
      exact ahead_ne inner lt within (by omega)
    rw [entries_modify_other ne]
    exact passed.kept turn (by omega) lt
  cleared turn lt free := by
    by_cases last : turn = turns
    · rw [last, ← passed.hand_eq, entries_modify_same]
    · have ne : inner.ahead turn ≠ after.clockHand := by
        rw [passed.hand_eq]
        exact ahead_ne inner (by omega) within last
      rw [entries_modify_other ne]
      exact passed.cleared turn (by omega) free

/-- The loop passes over slots that are in flight or referenced, as long as its count allows. -/
theorem secondChance_pass {turns checked : Nat} (fuel : Nat) (within : turns ≤ slots)
    (passes : ∀ turn < turns, inner.Busy (inner.ahead turn) ∨
      (inner.entries (inner.ahead turn)).referenced = true)
    (room : checked + inner.busyAhead turns < slots) :
    ∃ after, Passed inner turns after ∧ inner.secondChance (fuel + turns) checked =
      after.secondChance fuel (checked + inner.busyAhead turns) := by
  induction turns generalizing fuel with
  | zero =>
      exact ⟨inner, ⟨(ahead_zero inner).symm, fun _ => .rfl, fun _ _ _ => rfl, nofun⟩, rfl⟩
  | succ turns ih =>
      rw [busyAhead_succ] at room ⊢
      obtain ⟨middle, passed, scan_eq⟩ := ih (fuel + 1) (by omega)
        (fun turn lt => passes turn (by omega)) (by omega)
      have same := passed.kept turns (Nat.le_refl _) within
      rw [show fuel + (turns + 1) = fuel + 1 + turns by omega, scan_eq,
        BlockCacheInner.secondChance]
      by_cases busy : inner.Busy (inner.ahead turns)
      · rw [if_pos busy] at room ⊢
        rw [if_pos ((passed.busy_iff _).mpr (passed.hand_eq ▸ busy)), if_neg (by omega)]
        exact ⟨_, passed.skip busy, rfl⟩
      · rw [if_neg busy, Nat.add_zero] at room ⊢
        have referenced := (passes turns (Nat.lt_succ_self _)).resolve_left busy
        rw [← same, ← passed.hand_eq] at referenced
        rw [if_neg fun flying => busy (passed.hand_eq ▸ (passed.busy_iff _).mp flying),
          if_pos referenced]
        exact ⟨_, passed.clear within, rfl⟩

/-- The loop stops at the first slot that is neither in flight nor referenced. -/
theorem secondChance_stop {turns checked : Nat} (fuel : Nat) (within : turns < slots)
    (passes : ∀ turn < turns, inner.Busy (inner.ahead turn) ∨
      (inner.entries (inner.ahead turn)).referenced = true)
    (free : ¬ inner.Busy (inner.ahead turns))
    (unreferenced : (inner.entries (inner.ahead turns)).referenced = false)
    (room : checked + inner.busyAhead turns < slots) :
    ∃ after, inner.secondChance (fuel + 1 + turns) checked =
      some (.ok (inner.ahead turns), after) := by
  obtain ⟨middle, passed, scan_eq⟩ := secondChance_pass (fuel + 1) (by omega) passes room
  have same := passed.kept turns (Nat.le_refl _) within
  rw [← passed.hand_eq] at same free unreferenced ⊢
  rw [scan_eq, BlockCacheInner.secondChance]
  rw [if_neg fun flying => free ((passed.busy_iff _).mp flying)]
  rw [same, unreferenced, if_neg (by decide)]
  exact ⟨_, rfl⟩

/-- The loop gives up in a row of slots in flight that its count does not allow. -/
theorem secondChance_give_up {turns checked : Nat} (fuel : Nat)
    (busy : ∀ turn ≤ turns, inner.Busy (inner.ahead turn))
    (count_eq : checked + turns + 1 = slots) :
    ∃ after, inner.secondChance (fuel + 1 + turns) checked = some (.error (), after) := by
  have busy_eq : inner.busyAhead turns = turns :=
    Nat.count_iff_forall.mpr fun turn lt => busy turn (Nat.le_of_lt lt)
  have room : checked + inner.busyAhead turns < slots := by omega
  obtain ⟨middle, passed, scan_eq⟩ := secondChance_pass (fuel + 1) (by omega)
    (fun turn lt => .inl (busy turn (Nat.le_of_lt lt))) room
  have last := (passed.busy_iff _).mpr (busy turns (Nat.le_refl _))
  rw [← passed.hand_eq] at last
  rw [scan_eq, BlockCacheInner.secondChance, if_pos last, if_pos (by omega)]
  exact ⟨_, rfl⟩

theorem Passed.ahead_eq (passed : Passed inner slots after) (turns : Nat) :
    after.ahead turns = inner.ahead turns := by
  rw [BlockCacheInner.ahead, passed.hand_eq, ahead_slots, BlockCacheInner.ahead]

/-- After a sweep over slots that are in flight or referenced, the loop stops at the first slot that
is not in flight, unless its count runs out before. -/
theorem secondChance_sweep {first : Nat} (within : first < slots)
    (passes : ∀ slot, inner.Busy slot ∨ (inner.entries slot).referenced = true)
    (free : ¬ inner.Busy (inner.ahead first))
    (least : ∀ turn < first, inner.Busy (inner.ahead turn)) :
    ∃ after, inner.secondChance (2 * slots + 1) 0 =
      some (if inner.busyAhead slots + first < slots then .ok (inner.ahead first) else .error (),
        after) := by
  have some_free : 0 + inner.busyAhead slots < slots := by
    rw [Nat.zero_add]
    refine Nat.lt_of_le_of_ne (busyAhead_le inner slots) fun full => ?_
    exact free (all_busy_iff.mpr full _)
  obtain ⟨swept, passed, scan_eq⟩ := secondChance_pass (slots + 1) (Nat.le_refl slots)
    (fun turn _ => passes (inner.ahead turn)) some_free
  have busy (turn : Nat) (lt : turn < first) : swept.Busy (swept.ahead turn) := by
    rw [passed.ahead_eq, passed.busy_iff]
    exact least turn lt
  have ahead_count : swept.busyAhead first = first := Nat.count_iff_forall.mpr busy
  rw [show 2 * slots + 1 = slots + 1 + slots by omega, scan_eq, Nat.zero_add]
  split
  next room =>
    rw [show slots + 1 = slots - first + 1 + first by omega, ← passed.ahead_eq]
    refine secondChance_stop _ within (fun turn lt => .inl (busy turn lt)) ?_ ?_ (by omega)
    · rw [passed.ahead_eq, passed.busy_iff]
      exact free
    · rw [passed.ahead_eq]
      exact passed.cleared first within free
  next full =>
    obtain ⟨turns, count_eq⟩ : ∃ turns, inner.busyAhead slots + turns + 1 = slots :=
      ⟨slots - inner.busyAhead slots - 1, by omega⟩
    rw [show slots + 1 = slots - turns + 1 + turns by omega]
    exact secondChance_give_up _ (fun turn le => busy turn (by omega)) count_eq

/-- A choice among the slots of a full cache ends; it is right exactly when all slots are in flight,
one is neither in flight nor referenced, or one that is not in flight is reached soon enough. -/
theorem second_chance_finds_iff (inner : BlockCacheInner slots Block)
    (full : ∀ slot, (inner.entries slot).blockId.isSome = true) :
    ∃ result after, inner.selectSlot = some (result, after) ∧
      (Finds inner result ↔ Findable inner) := by
  have no_vacant : inner.findVacant = none := by
    refine List.find?_eq_none.mpr fun slot _ => ?_
    simp [Option.isNone_eq_false_iff.mpr (full slot)]
  rw [BlockCacheInner.selectSlot, no_vacant]
  by_cases all : ∀ slot, inner.Busy slot
  · have positive := Nat.pos_of_neZero slots
    obtain ⟨turns, count_eq⟩ : ∃ turns, turns + 1 = slots := ⟨slots - 1, by omega⟩
    have select_eq := secondChance_give_up (slots + 1)
      (fun turn (_ : turn ≤ turns) => all (inner.ahead turn)) (by omega : 0 + turns + 1 = slots)
    rw [show slots + 1 + 1 + turns = 2 * slots + 1 by omega] at select_eq
    obtain ⟨after, select_eq⟩ := select_eq
    exact ⟨_, after, select_eq, iff_of_true all (.inl all)⟩
  · by_cases unreferenced : ∃ slot, ¬ inner.Busy slot ∧ (inner.entries slot).referenced = false
    · obtain ⟨turns, lt, ⟨free, unset⟩, earlier⟩ := exists_first_ahead inner unreferenced
      have passes (turn : Nat) (before : turn < turns) : inner.Busy (inner.ahead turn) ∨
          (inner.entries (inner.ahead turn)).referenced = true := by
        by_contra stops
        obtain ⟨turn_free, turn_unset⟩ := not_or.mp stops
        exact earlier turn before ⟨turn_free, Bool.eq_false_of_not_eq_true turn_unset⟩
      have room : 0 + inner.busyAhead turns < slots := by
        have le := busyAhead_le inner turns
        omega
      have select_eq := secondChance_stop (2 * slots - turns) lt passes free unset room
      rw [show 2 * slots - turns + 1 + turns = 2 * slots + 1 by omega] at select_eq
      obtain ⟨after, select_eq⟩ := select_eq
      exact ⟨_, after, select_eq, iff_of_true free (.inr (.inl unreferenced))⟩
    · have passes (slot : Fin slots) :
          inner.Busy slot ∨ (inner.entries slot).referenced = true := by
        by_contra stops
        obtain ⟨slot_free, slot_unset⟩ := not_or.mp stops
        exact unreferenced ⟨slot, slot_free, Bool.eq_false_of_not_eq_true slot_unset⟩
      obtain ⟨first, within, free, earlier⟩ := exists_first_ahead inner (not_forall.mp all)
      have least (turn : Nat) (before : turn < first) : inner.Busy (inner.ahead turn) :=
        not_not.mp (earlier turn before)
      obtain ⟨after, select_eq⟩ := secondChance_sweep within passes free least
      refine ⟨_, after, select_eq, ?_⟩
      split
      next room => exact iff_of_true free (.inr (.inr ⟨first, free, room⟩))
      next full =>
        refine iff_of_false (fun gave_up => free (gave_up _)) ?_
        rintro (all_busy | stops | ⟨turns, turns_free, room⟩)
        · exact all all_busy
        · exact unreferenced stops
        · have le : first ≤ turns := by
            by_contra lt
            exact turns_free (least turns (Nat.lt_of_not_le lt))
          omega

/-- Two slots, the first in flight, the second as given. -/
def inFlightThen (entry : CacheEntry Unit) : BlockCacheInner 2 Unit :=
  ⟨fun slot => if slot = 0 then ⟨some 1, false, false, true, ()⟩ else entry, 0⟩

/-- The second slot is taken when it is not referenced. -/
theorem second_chance_finds_unreferenced :
    ∃ result after, (inFlightThen ⟨some 2, false, false, false, ()⟩).selectSlot =
      some (result, after) ∧ Finds (inFlightThen ⟨some 2, false, false, false, ()⟩) result := by
  obtain ⟨result, after, select_eq, finds_iff⟩ := second_chance_finds_iff
    (inFlightThen ⟨some 2, false, false, false, ()⟩) (by decide)
  exact ⟨result, after, select_eq, finds_iff.mpr (.inr (.inl ⟨1, by decide, by decide⟩))⟩

/-- When it is referenced the first slot is counted twice, and the loop gives up. -/
theorem gives_up_with_free_slot :
    ∃ after, (inFlightThen ⟨some 2, true, false, false, ()⟩).selectSlot =
        some (.error (), after) ∧
      ¬ (inFlightThen ⟨some 2, true, false, false, ()⟩).Busy 1 ∧
      ¬ Finds (inFlightThen ⟨some 2, true, false, false, ()⟩) (.error ()) :=
  ⟨_, rfl, by decide, fun all => absurd (all 1) (by decide)⟩

end BlockCache
end Vespertine
