import Vespertine.Memory.FrameLifetime

/-!
# What becomes of a mapped memory object

An area keeps a reference to its memory object in a node that `munmap` hands back to the heap
without dropping the reference.  Hence the references kept in areas count the mapping calls that
succeeded, and an object that nothing refers to any more is dropped if and only if it has never been
mapped.
-/

namespace Vespertine.FrameSystem

namespace State

/-- References to an object that are kept in areas. -/
def areas (state : State) (id : Nat) : Nat :=
  match state.vmos id with
  | none => 0
  | some entry => entry.areas

/-- The strong count of an object. -/
def strong (state : State) (id : Nat) : Nat :=
  match state.vmos id with
  | none => 0
  | some entry => entry.holders + entry.areas + state.pins.countP (·.vmo = id)

/-- No handle, no pin and no area of a process refers to the object. -/
structure Unreferenced (state : State) (id : Nat) : Prop where
  handles : ∀ entry, state.vmos id = some entry → entry.holders = 0
  pins : ∀ pin ∈ state.pins, pin.vmo ≠ id
  areas : ∀ pid, ∀ ptr ∈ (state.processes pid).live,
    ((state.processes pid).nodes ptr).backingVmo ≠ some id

end State

/-- Mapping the object succeeds in this action. -/
def places (state : State) (id : Nat) : Action → Bool
  | .map pid vmo vaddr len flags nodePtr =>
      let vmm := state.processes pid
      let result :=
        if vaddr = 0 then
          vmm.mmapVmo len flags vmo nodePtr
        else
          vmm.mmapVmoAt vaddr len flags vmo nodePtr
      match result with
      | .ok (some _, _) => vmo = id
      | _ => false
  | _ => false

/-- How often a run maps the object. -/
def placements (device : Nat → Bool) (id : Nat) : State → List Action → Nat
  | _, [] => 0
  | state, action :: actions =>
      (if places state id action then 1 else 0) +
        match step device state action with
        | .ok next => placements device id next actions
        | .error _ => 0

/-- Some reference keeps the object. -/
def Kept (state : State) (id : Nat) (entry : Entry) : Prop :=
  entry.areas ≠ 0 ∨ entry.holders ≠ 0 ∨ ∃ pin ∈ state.pins, pin.vmo = id

/-- Every object has a reference that keeps it. -/
structure Tidy (state : State) : Prop where
  fresh : ∀ id ≥ state.nextVmo, state.vmos id = none
  kept : ∀ id entry, state.vmos id = some entry → Kept state id entry

section Steps

variable {device : Nat → Bool} {state next : State} {id : Nat}

theorem areas_replace_same {entry : Entry} {freed used : List Nat} :
    (state.replace id (some entry) freed used).areas id = entry.areas := by
  rw [State.areas, replace_same]

theorem areas_replace_other {entry : Option Entry} {freed used : List Nat} {other : Nat}
    (ne : other ≠ id) : (state.replace id entry freed used).areas other = state.areas other := by
  rw [State.areas, replace_other ne, State.areas]

/-- A new version with as many areas. -/
theorem areas_replace {old new : Entry} {freed used : List Nat} (old_eq : state.vmos id = some old)
    (same : new.areas = old.areas) (other : Nat) :
    (state.replace id (some new) freed used).areas other = state.areas other := by
  by_cases eq : other = id
  · rw [eq, areas_replace_same, State.areas, old_eq, same]
  · exact areas_replace_other eq

/-- An object is dropped when nothing keeps it. -/
theorem dropUnreferenced_cases (state : State) (id : Nat) :
    (state.dropUnreferenced id = state ∧
        ∀ entry, state.vmos id = some entry → Kept state id entry) ∨
      ∃ entry, state.vmos id = some entry ∧ entry.areas = 0 ∧
        state.dropUnreferenced id = state.replace id none entry.store.inner.drop [] := by
  rw [State.dropUnreferenced]
  cases entry_eq : state.vmos id with
  | none => exact .inl ⟨rfl, fun entry absent => by cases absent⟩
  | some entry =>
      dsimp only
      split
      next unused => exact .inr ⟨entry, rfl, unused.2.1, rfl⟩
      next used =>
        refine .inl ⟨rfl, fun found found_eq => ?_⟩
        cases found_eq
        by_contra unkept
        rw [Kept, not_or, not_or, not_not, not_not] at unkept
        obtain ⟨areas_eq, holders_eq, unpinned⟩ := unkept
        exact used ⟨holders_eq, areas_eq, fun pin mem vmo_eq => unpinned ⟨pin, mem, vmo_eq⟩⟩

theorem areas_dropUnreferenced (other : Nat) :
    (state.dropUnreferenced id).areas other = state.areas other := by
  rcases dropUnreferenced_cases state id with ⟨same, -⟩ | ⟨entry, entry_eq, areas_eq, dropped⟩
  · rw [same]
  · rw [dropped]
    by_cases eq : other = id
    · rw [eq, State.areas, replace_same, State.areas, entry_eq]
      exact areas_eq.symm
    · exact areas_replace_other eq

theorem fresh_replace (fresh : ∀ id ≥ state.nextVmo, state.vmos id = none) {entry : Option Entry}
    {freed used : List Nat} {other : Nat}
    (beyond : (state.replace id entry freed used).nextVmo ≤ other) :
    (state.replace id entry freed used).vmos other = none := by
  have bound : max state.nextVmo (id + 1) ≤ other := beyond
  rw [replace_other (by omega)]
  exact fresh other (by omega)

theorem Tidy.replace (tidy : Tidy state) {entry : Entry} {freed used : List Nat}
    (kept : Kept state id entry) : Tidy (state.replace id (some entry) freed used) := by
  refine ⟨fun other beyond => fresh_replace tidy.fresh beyond, fun other found found_eq => ?_⟩
  by_cases eq : other = id
  · subst eq
    rw [replace_same] at found_eq
    cases found_eq
    exact kept
  · rw [replace_other eq] at found_eq
    exact tidy.kept other found found_eq

/-- A new version with the same counts. -/
theorem Tidy.recount (tidy : Tidy state) {old new : Entry} {freed used : List Nat}
    (old_eq : state.vmos id = some old) (areas_eq : new.areas = old.areas)
    (holders_eq : new.holders = old.holders) :
    Tidy (state.replace id (some new) freed used) := by
  apply tidy.replace
  rw [Kept, areas_eq, holders_eq]
  exact tidy.kept id old old_eq

/-- Dropping an object that has lost a reference. -/
theorem Tidy.dropUnreferenced (fresh : ∀ id ≥ state.nextVmo, state.vmos id = none)
    (others : ∀ other entry, other ≠ id → state.vmos other = some entry →
      Kept state other entry) : Tidy (state.dropUnreferenced id) := by
  rcases dropUnreferenced_cases state id with ⟨same, kept⟩ | ⟨entry, entry_eq, -, dropped⟩
  · rw [same]
    refine ⟨fresh, fun other found found_eq => ?_⟩
    by_cases eq : other = id
    · subst eq
      exact kept found found_eq
    · exact others other found eq found_eq
  · rw [dropped]
    refine ⟨fun other => fresh_replace fresh, fun other found found_eq => ?_⟩
    by_cases eq : other = id
    · subst eq
      rw [replace_same] at found_eq
      cases found_eq
    · rw [replace_other eq] at found_eq
      exact others other found eq found_eq

/-- Memory managers do not matter. -/
theorem Tidy.setProcess (tidy : Tidy state) (pid : Nat) (vmm : VirtMemManager) :
    Tidy (state.setProcess pid vmm) := ⟨tidy.fresh, tidy.kept⟩

/-- One action: the references that it takes away leave no object behind, and references of areas
are added by mapping only. -/
structure Settles (state next : State) (grown : Nat → Nat) : Prop where
  tidy : Tidy next
  areas : ∀ id, next.areas id = state.areas id + grown id

theorem Settles.request (tidy : Tidy state) {offset : Nat} {disk : Nat → Bool} {supply : List Nat}
    {result : Except Unit Nat}
    (request_eq : state.request id disk offset supply = .ok (result, next)) :
    Settles state next (fun _ => 0) ∧ next.pins = state.pins := by
  obtain ⟨entry, present_eq, request_eq⟩ := bind_eq_ok.mp request_eq
  obtain ⟨_, -, request_eq⟩ := bind_eq_ok.mp request_eq
  obtain ⟨⟨outcome, store, rest⟩, -, done⟩ := bind_eq_ok.mp request_eq
  have entry_eq := present_eq_ok.mp present_eq
  cases done
  exact ⟨⟨tidy.recount entry_eq rfl rfl, areas_replace entry_eq rfl⟩, rfl⟩

theorem Settles.create (tidy : Tidy state) (store : PagedBackingStore) (used : List Nat) :
    Settles state (state.replace state.nextVmo (some ⟨store, 1, 0⟩) [] used) (fun _ => 0) := by
  refine ⟨tidy.replace (.inr (.inl Nat.one_ne_zero)), fun other => ?_⟩
  by_cases eq : other = state.nextVmo
  · rw [eq, areas_replace_same, State.areas, tidy.fresh _ (Nat.le_refl _)]
  · exact areas_replace_other eq

/-- Taking a handle away. -/
theorem Settles.release (tidy : Tidy state) {entry : Entry}
    (entry_eq : state.vmos id = some entry) :
    Settles state
      ((state.replace id (some { entry with holders := entry.holders - 1 }) [] []).dropUnreferenced
        id)
      (fun _ => 0) := by
  refine ⟨Tidy.dropUnreferenced (fun other => fresh_replace tidy.fresh)
    fun other found ne found_eq => ?_, fun other => ?_⟩
  · rw [replace_other ne] at found_eq
    exact tidy.kept other found found_eq
  · have same : ({ entry with holders := entry.holders - 1 } : Entry).areas = entry.areas := rfl
    rw [areas_dropUnreferenced]
    exact areas_replace entry_eq same other

/-- Taking a pin away. -/
theorem Settles.unpin (tidy : Tidy state) {pin : Pin} {index : Nat}
    (pin_eq : state.pins[index]? = some pin) :
    Settles state ({ state with pins := state.pins.eraseIdx index }.dropUnreferenced pin.vmo)
      (fun _ => 0) := by
  refine ⟨Tidy.dropUnreferenced tidy.fresh fun other found ne found_eq => ?_, fun other => ?_⟩
  · rcases tidy.kept other found found_eq with areas | holders | ⟨kept, mem, vmo_eq⟩
    · exact .inl areas
    · exact .inr (.inl holders)
    · refine .inr (.inr ⟨kept, ?_, vmo_eq⟩)
      obtain ⟨place, place_lt, rfl⟩ := List.getElem_of_mem mem
      refine List.mem_eraseIdx_iff_getElem.mpr ⟨place, place_lt, ?_, rfl⟩
      rintro rfl
      rw [List.getElem?_eq_getElem place_lt] at pin_eq
      cases pin_eq
      exact ne vmo_eq.symm
  · exact areas_dropUnreferenced other

theorem Settles.map (tidy : Tidy state) {pid vaddr len flags nodePtr : Nat}
    (map_eq : state.mapIntoProc pid id vaddr len flags nodePtr = .ok next) :
    Settles state next fun other =>
      if places state other (.map pid id vaddr len flags nodePtr) then 1 else 0 := by
  obtain ⟨entry, object_eq, map_eq⟩ := bind_eq_ok.mp map_eq
  obtain ⟨_, -, map_eq⟩ := bind_eq_ok.mp map_eq
  obtain ⟨⟨addr, after⟩, place_eq, done⟩ := bind_eq_ok.mp map_eq
  have entry_eq := object_ok object_eq
  have placed := panics_eq_ok.mp place_eq
  simp only [places, placed]
  cases addr with
  | none =>
      cases done
      exact ⟨tidy.setProcess pid after, fun other => rfl⟩
  | some start =>
      cases done
      have counted : Tidy (state.replace id (some { entry with areas := entry.areas + 1 }) [] []) :=
        tidy.replace (.inl (Nat.succ_ne_zero _))
      refine ⟨counted.setProcess pid after, fun other => ?_⟩
      change (state.replace id (some { entry with areas := entry.areas + 1 }) [] []).areas other = _
      by_cases eq : id = other
      · subst eq
        rw [areas_replace_same, State.areas, entry_eq]
        simp
      · rw [areas_replace_other (Ne.symm eq)]
        simp [eq]

/-- A pin goes on to its next page. -/
theorem Tidy.setPin (tidy : Tidy state) {pin moved : Pin} {index : Nat}
    (pin_eq : state.pins[index]? = some pin) (vmo_eq : moved.vmo = pin.vmo) :
    Tidy { state with pins := state.pins.set index moved } := by
  refine ⟨tidy.fresh, fun other found found_eq => ?_⟩
  refine (tidy.kept other found found_eq).imp_right (Or.imp_right ?_)
  rintro ⟨kept, mem, kept_eq⟩
  obtain ⟨place, place_lt, rfl⟩ := List.getElem_of_mem mem
  by_cases eq : index = place
  · subst eq
    rw [List.getElem?_eq_getElem place_lt] at pin_eq
    cases pin_eq
    exact ⟨moved, List.mem_set place_lt moved, vmo_eq.trans kept_eq⟩
  · refine ⟨_, ?_, kept_eq⟩
    refine List.mem_iff_getElem.mpr ⟨place, by simpa using place_lt, ?_⟩
    exact List.getElem_set_ne eq _

/-- Steps that touch neither objects nor pins. -/
theorem Settles.of_eq (tidy : Tidy state) (vmos_eq : next.vmos = state.vmos)
    (next_eq : next.nextVmo = state.nextVmo) (pins_eq : next.pins = state.pins) :
    Settles state next (fun _ => 0) := by
  refine ⟨?_, fun other => ?_⟩
  · refine ⟨?_, fun other found found_eq => ?_⟩
    · rw [vmos_eq, next_eq]
      exact tidy.fresh
    · rw [Kept, pins_eq]
      rw [vmos_eq] at found_eq
      exact tidy.kept other found found_eq
  · rw [State.areas, vmos_eq, State.areas, Nat.add_zero]

theorem Settles.unmap (tidy : Tidy state) {pid vaddr len : Nat}
    (unmap_eq : state.unmap pid vaddr len = .ok next) : Settles state next (fun _ => 0) := by
  obtain ⟨_, -, unmap_eq⟩ := bind_eq_ok.mp unmap_eq
  obtain ⟨⟨result, after⟩, -, done⟩ := bind_eq_ok.mp unmap_eq
  cases done
  exact .of_eq tidy rfl rfl rfl

theorem Settles.beginFault (tidy : Tidy state) {pid addr errorCode : Nat} {disk : Nat → Bool}
    {supply : List Nat} (fault_eq : state.beginFault pid addr errorCode disk supply = .ok next) :
    Settles state next (fun _ => 0) := by
  obtain ⟨area, -, fault_eq⟩ := bind_eq_ok.mp fault_eq
  cases area with
  | error problem =>
      cases fault_eq
      exact .of_eq tidy rfl rfl rfl
  | ok node =>
      obtain ⟨id, -, fault_eq⟩ := bind_eq_ok.mp fault_eq
      obtain ⟨⟨result, after⟩, request_eq, done⟩ := bind_eq_ok.mp fault_eq
      have settles := (Settles.request tidy request_eq).1
      cases result with
      | error problem =>
          cases done
          exact settles
      | ok frame =>
          cases done
          exact ⟨⟨settles.tidy.fresh, settles.tidy.kept⟩, settles.areas⟩

theorem Settles.enterPage (tidy : Tidy state) {index : Nat} {tableFrames : List Nat}
    (enter_eq : state.enterPage index tableFrames = .ok next) :
    Settles state next (fun _ => 0) := by
  obtain ⟨fault, -, enter_eq⟩ := bind_eq_ok.mp enter_eq
  obtain ⟨_, -, enter_eq⟩ := bind_eq_ok.mp enter_eq
  obtain ⟨⟨result, after⟩, -, done⟩ := bind_eq_ok.mp enter_eq
  cases done
  exact .of_eq tidy rfl rfl rfl

theorem Settles.pinPage (tidy : Tidy state) {index : Nat} {disk : Nat → Bool} {supply : List Nat}
    (pin_eq : state.pinPage index disk supply = .ok next) : Settles state next (fun _ => 0) := by
  obtain ⟨pin, found_eq, pin_eq⟩ := bind_eq_ok.mp pin_eq
  obtain ⟨offset, -, pin_eq⟩ := bind_eq_ok.mp pin_eq
  obtain ⟨⟨result, after⟩, request_eq, done⟩ := bind_eq_ok.mp pin_eq
  obtain ⟨settles, pins_eq⟩ := Settles.request tidy request_eq
  have after_pin : after.pins[index]? = some pin := by
    rw [pins_eq]
    exact present_eq_ok.mp found_eq
  cases result with
  | error problem =>
      cases done
      have unpinned := Settles.unpin settles.tidy after_pin
      exact ⟨unpinned.tidy, fun id => (unpinned.areas id).trans (settles.areas id)⟩
  | ok frame =>
      cases done
      exact ⟨settles.tidy.setPin after_pin rfl, settles.areas⟩

/-- One action on the objects and their references. -/
theorem Settles.step (tidy : Tidy state) {action : Action}
    (step_eq : step device state action = .ok next) :
    Settles state next fun id => if places state id action then 1 else 0 := by
  cases action with
  | create size =>
      cases step_eq
      exact .create tidy _ []
  | createFile size blockSize =>
      cases step_eq
      exact .create tidy _ []
  | createPhys physAddr size =>
      obtain ⟨_, -, done⟩ := bind_eq_ok.mp step_eq
      cases done
      exact .create tidy _ []
  | retain id =>
      obtain ⟨entry, object_eq, done⟩ := bind_eq_ok.mp step_eq
      cases done
      refine ⟨tidy.replace (.inr (.inl (Nat.succ_ne_zero _))), ?_⟩
      exact areas_replace (object_ok object_eq) rfl
  | release id =>
      obtain ⟨entry, object_eq, done⟩ := bind_eq_ok.mp step_eq
      cases done
      exact .release tidy (object_ok object_eq)
  | getPage id offset disk supply =>
      obtain ⟨_, -, step_eq⟩ := bind_eq_ok.mp step_eq
      obtain ⟨⟨result, after⟩, request_eq, done⟩ := bind_eq_ok.mp step_eq
      cases done
      exact (Settles.request tidy request_eq).1
  | resize id newSize =>
      obtain ⟨entry, object_eq, step_eq⟩ := bind_eq_ok.mp step_eq
      split at step_eq
      next =>
        cases step_eq
        exact .of_eq tidy rfl rfl rfl
      next =>
        cases step_eq
        have entry_eq := object_ok object_eq
        exact ⟨tidy.recount entry_eq rfl rfl, areas_replace entry_eq rfl⟩
  | clone id offset len supply =>
      obtain ⟨entry, -, step_eq⟩ := bind_eq_ok.mp step_eq
      obtain ⟨_, -, step_eq⟩ := bind_eq_ok.mp step_eq
      obtain ⟨⟨result, rest⟩, -, done⟩ := bind_eq_ok.mp step_eq
      cases result with
      | error problem =>
          cases done
          exact .of_eq tidy rfl rfl rfl
      | ok child =>
          cases done
          exact .create tidy _ _
  | map pid id vaddr len flags nodePtr => exact .map tidy step_eq
  | unmap pid vaddr len => exact .unmap tidy step_eq
  | fault pid addr errorCode disk supply => exact .beginFault tidy step_eq
  | enter index tableFrames => exact .enterPage tidy step_eq
  | pin id offset len =>
      obtain ⟨entry, -, step_eq⟩ := bind_eq_ok.mp step_eq
      split at step_eq
      next =>
        cases step_eq
        exact .of_eq tidy rfl rfl rfl
      next =>
        cases step_eq
        refine ⟨⟨tidy.fresh, fun other found found_eq => ?_⟩, fun other => rfl⟩
        refine (tidy.kept other found found_eq).imp_right (Or.imp_right ?_)
        rintro ⟨pin, mem, vmo_eq⟩
        exact ⟨pin, List.mem_cons_of_mem _ mem, vmo_eq⟩
  | pinPage index disk supply => exact .pinPage tidy step_eq
  | unpin index =>
      obtain ⟨pin, pin_eq, step_eq⟩ := bind_eq_ok.mp step_eq
      obtain ⟨_, -, done⟩ := bind_eq_ok.mp step_eq
      cases done
      exact .unpin tidy (present_eq_ok.mp pin_eq)
  | take frame =>
      obtain ⟨_, -, done⟩ := bind_eq_ok.mp step_eq
      cases done
      exact .of_eq tidy rfl rfl rfl
  | give frame =>
      obtain ⟨_, -, done⟩ := bind_eq_ok.mp step_eq
      cases done
      exact .of_eq tidy rfl rfl rfl

end Steps

section Runs

variable {device : Nat → Bool} {boot state final : State} {actions : List Action} {id : Nat}

/-- The references of areas count the mapping calls that succeeded. -/
theorem Settles.run (tidy : Tidy state)
    (run_eq : (system device).run state actions = .ok final) :
    Settles state final fun id => placements device id state actions := by
  induction actions generalizing state with
  | nil =>
      obtain rfl : state = final := by simpa using run_eq
      exact ⟨tidy, fun id => rfl⟩
  | cons action actions ih =>
      obtain ⟨next, step_eq, rest_eq⟩ := (system device).run_cons_eq_ok run_eq
      have first := Settles.step tidy step_eq
      have rest := ih first.tidy rest_eq
      refine ⟨rest.tidy, fun id => ?_⟩
      have taken : FrameSystem.step device state action = .ok next := step_eq
      rw [placements, taken, rest.areas id, first.areas id, Nat.add_assoc]

theorem tidy_boot (booted : Boot device boot) : Tidy boot :=
  ⟨fun id _ => booted.vmos id, fun id entry entry_eq => by
    rw [booted.vmos id] at entry_eq
    cases entry_eq⟩

/-- Unmapping drops no reference. -/
theorem strong_unmap {pid vaddr len : Nat} {next : State}
    (unmap_eq : state.unmap pid vaddr len = .ok next) : next.strong id = state.strong id := by
  obtain ⟨_, -, unmap_eq⟩ := bind_eq_ok.mp unmap_eq
  obtain ⟨⟨result, after⟩, -, done⟩ := bind_eq_ok.mp unmap_eq
  cases done
  rfl

/-- Dropping an object returns its frames. -/
theorem release_frees {entry : Entry} {next : State} (entry_eq : state.vmos id = some entry)
    (step_eq : step device state (.release id) = .ok next) (dropped : next.vmos id = none) :
    ∀ frame ∈ entry.store.inner.drop, frame ∈ next.free := by
  obtain ⟨found, object_eq, done⟩ := bind_eq_ok.mp step_eq
  obtain rfl : found = entry := Option.some.inj ((object_ok object_eq).symm.trans entry_eq)
  cases done
  intro frame held
  rcases dropUnreferenced_cases
    (state.replace id (some { found with holders := found.holders - 1 }) [] []) id with
      ⟨same, -⟩ | ⟨left, left_eq, -, drop_eq⟩
  · rw [same, replace_same] at dropped
    cases dropped
  · rw [replace_same] at left_eq
    cases left_eq
    rw [drop_eq]
    exact List.mem_append_left _ held

/-- In every run, unmapping leaves the strong count of every object as it is; an object without
handles, pins and areas has been dropped if and only if it was never mapped; and the handle that
drops an object returns its frames. -/
theorem dropped_iff_never_mapped (booted : Boot device boot)
    (run_eq : (system device).run boot actions = .ok final) :
    (∀ pid vaddr len next, final.unmap pid vaddr len = .ok next →
        next.strong id = final.strong id) ∧
      (final.Unreferenced id →
        (final.vmos id = none ↔ placements device id boot actions = 0)) ∧
      ∀ entry next, final.vmos id = some entry → step device final (.release id) = .ok next →
        next.vmos id = none → ∀ frame ∈ entry.store.inner.drop, frame ∈ next.free := by
  have settles := Settles.run (tidy_boot booted) run_eq
  refine ⟨fun pid vaddr len next => strong_unmap, fun unreferenced => ?_,
    fun entry next => release_frees⟩
  have areas_eq := settles.areas id
  rw [State.areas, State.areas, booted.vmos id] at areas_eq
  cases entry_eq : final.vmos id with
  | none =>
      rw [entry_eq] at areas_eq
      constructor
      · intro _
        dsimp only at areas_eq
        omega
      · intro _
        rfl
  | some entry =>
      rw [entry_eq] at areas_eq
      have kept : entry.areas ≠ 0 := by
        rcases settles.tidy.kept id entry entry_eq with areas | holders | ⟨pin, mem, vmo_eq⟩
        · exact areas
        · exact absurd (unreferenced.handles entry entry_eq) holders
        · exact absurd vmo_eq (unreferenced.pins pin mem)
      constructor
      · intro absent
        cases absent
      · intro never
        dsimp only at areas_eq
        omega

/-- An object is made, gets a frame and is closed again. -/
def makeAndClose : List Action :=
  [.create 0x1000, .getPage 0 0 (fun _ => true) [0x5000], .release 0]

/-- An object that is never mapped is dropped. -/
theorem dropped_iff_never_mapped_closed :
    ∃ final, (system fun _ => false).run (bare [0x5000] []) makeAndClose = .ok final ∧
      final.vmos 0 = none ∧ 0x5000 ∈ final.free := by
  have evaluated : ((system fun _ => false).run (bare [0x5000] []) makeAndClose).map
      (fun final => (final.vmos 0, final.pins, final.processes, final.free)) =
        .ok (none, [], (bare [0x5000] []).processes, [0x5000]) := by
    rfl
  obtain ⟨final, run_eq, values⟩ := map_eq_ok.mp evaluated
  simp only [Prod.mk.injEq] at values
  obtain ⟨vmos_eq, pins_eq, processes_eq, free_eq⟩ := values
  have unreferenced : final.Unreferenced 0 := by
    refine ⟨fun entry entry_eq => ?_, fun pin mem => ?_, fun pid ptr mem => ?_⟩
    · rw [vmos_eq] at entry_eq
      cases entry_eq
    · rw [pins_eq] at mem
      cases mem
    · rw [processes_eq] at mem
      cases mem
  have booted : Boot (fun _ => false) (bare [0x5000] []) := bare_boot (by decide) (by decide)
  refine ⟨final, run_eq, ?_, by simp [free_eq]⟩
  exact ((dropped_iff_never_mapped booted run_eq).2.1 unreferenced).mpr rfl

/-- The same object is mapped and unmapped before it is closed. -/
def mapAndClose : List Action :=
  [.create 0x1000, .getPage 0 0 (fun _ => true) [0x5000], .map 0 0 0 0x1000 VM_FLAG_WRITE 0,
    .unmap 0 VM_BASE_ADDR 0x1000, .release 0]

/-- It is not dropped, and its frame does not return. -/
theorem unmapped_object_kept :
    ∃ final, (system fun _ => false).run (bare [0x5000] []) mapAndClose = .ok final ∧
      final.Unreferenced 0 ∧ final.strong 0 = 1 ∧ final.vmos 0 ≠ none ∧ final.free = [] := by
  have evaluated : ((system fun _ => false).run (bare [0x5000] []) mapAndClose).map
      (fun final => (final.strong 0, (final.vmos 0).map Entry.holders, final.pins,
        (final.processes 0).live, final.free)) = .ok (1, some 0, [], [], []) := by
    rfl
  have others : ((system fun _ => false).run (bare [0x5000] []) mapAndClose).map
      (fun final pid => (final.processes (pid + 1)).live) = .ok (fun _ => []) := by
    rfl
  obtain ⟨final, run_eq, values⟩ := map_eq_ok.mp evaluated
  simp only [Prod.mk.injEq] at values
  obtain ⟨strong_eq, holders_eq, pins_eq, live_eq, free_eq⟩ := values
  rw [run_eq] at others
  have others_eq (pid : Nat) : (final.processes (pid + 1)).live = [] :=
    congrFun (Except.ok.inj others) pid
  refine ⟨final, run_eq, ⟨fun entry entry_eq => ?_, fun pin mem => ?_, fun pid ptr mem => ?_⟩,
    strong_eq, fun absent => ?_, free_eq⟩
  · rw [entry_eq] at holders_eq
    exact Option.some.inj holders_eq
  · rw [pins_eq] at mem
    cases mem
  · cases pid with
    | zero =>
        rw [live_eq] at mem
        cases mem
    | succ pid =>
        rw [others_eq pid] at mem
        cases mem
  · rw [absent] at holders_eq
    cases holders_eq

end Runs

end Vespertine.FrameSystem
