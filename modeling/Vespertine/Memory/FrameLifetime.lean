import Vespertine.Memory.FrameSystem

/-!
# No frame is free while it is referred to

`Owned` gives every frame one place: the page allocator, the rest of the kernel, or one page of one
memory object.  `Referenced` says that whatever pages, page faults and pins refer to is still held
by a memory object that cannot be dropped.  Every action replaces at most one memory object, so
each invariant has one lemma about such a replacement.
-/

namespace Vespertine.FrameSystem

/-- A memory object holds the frame at an offset and will return it to the page allocator. -/
def State.Owns (state : State) (id offset frame : Nat) : Prop :=
  ∃ entry, state.vmos id = some entry ∧ entry.store.inner.isPhysical = false ∧
    entry.store.inner.frameAt offset = some frame

/-- Every frame has one place. -/
structure Owned (device : Nat → Bool) (state : State) : Prop where
  fresh : ∀ id ≥ state.nextVmo, state.vmos id = none
  regular : ∀ id entry, state.vmos id = some entry → entry.store.Regular
  physical : ∀ id entry, state.vmos id = some entry → entry.store.inner.isPhysical = true →
    ∀ offset frame, entry.store.inner.frameAt offset = some frame → device frame = true
  ordinary : ∀ frame, frame ∈ state.free ∨ frame ∈ state.taken → frame ≠ 0 ∧ device frame = false
  apart : ∀ frame ∈ state.taken, frame ∉ state.free
  owned : ∀ id offset frame, state.Owns id offset frame →
    frame ∉ state.free ∧ frame ∉ state.taken ∧ device frame = false
  unique : ∀ id offset other place frame, state.Owns id offset frame →
    state.Owns other place frame → id = other ∧ offset = place

/-- References are to frames of memory objects that stay. -/
structure Referenced (state : State) : Prop where
  areas : ∀ pid, ∃ known, (state.processes pid).Backed
    (fun _ backingVmo => ∃ id, backingVmo = some id ∧ state.Mapped id) known
  mapped : ∀ pid frame, state.Maps pid frame → state.Backs frame
  faulting : ∀ fault ∈ state.faults, state.Backs fault.frame
  pinned : ∀ pin ∈ state.pins, (∃ entry, state.vmos pin.vmo = some entry) ∧
    ∀ frame ∈ pin.physAddrs, state.Holds pin.vmo frame

section Returns

variable {α : Type}

theorem present_eq_ok {option : Option α} {value : α} :
    present option = .ok value ↔ option = some value := by
  cases option <;> simp [present]

theorem guarded_eq_ok {condition : Prop} [Decidable condition] {done : Unit} :
    guarded condition = .ok done ↔ condition := by
  rw [guarded]
  split <;> simp [*]

theorem panics_eq_ok {code : Kernel α} {value : α} :
    panics code = .ok value ↔ code = .ok value := by
  cases code <;> simp [panics]

theorem object_ok {state : State} {id : Nat} {entry : Entry}
    (object_eq : state.object id = .ok entry) : state.vmos id = some entry := by
  obtain ⟨found, present_eq, rest⟩ := bind_eq_ok.mp object_eq
  obtain ⟨-, -, done⟩ := bind_eq_ok.mp rest
  cases done
  exact present_eq_ok.mp present_eq

end Returns

section Ownership

variable {device : Nat → Bool} {state : State} {id : Nat} {entry : Option Entry}
  {freed used : List Nat}

theorem replace_same : (state.replace id entry freed used).vmos id = entry := by
  simp [State.replace]

theorem replace_other {other : Nat} (ne : other ≠ id) :
    (state.replace id entry freed used).vmos other = state.vmos other := by
  simp [State.replace, ne]

/-- A held frame is not free. -/
theorem Owned.not_free (owned : Owned device state) {frame : Nat} (held : state.Holds id frame) :
    frame ∉ state.free := by
  obtain ⟨entry, offset, entry_eq, found⟩ := held
  intro free
  cases physical : entry.store.inner.isPhysical with
  | true =>
      have memory := owned.physical id entry entry_eq physical offset frame found
      rw [(owned.ordinary frame (.inl free)).2] at memory
      cases memory
  | false => exact (owned.owned id offset frame ⟨entry, entry_eq, physical, found⟩).1 free

/-- The frames of a new version of a memory object: freed frames leave their pages, and new frames
come from the page allocator, each for one page. -/
structure Replaces (device : Nat → Bool) (state : State) (id : Nat) (entry : Option Entry)
    (freed used : List Nat) : Prop where
  regular : ∀ new, entry = some new → new.store.Regular
  physical : ∀ new, entry = some new → new.store.inner.isPhysical = true →
    ∀ offset frame, new.store.inner.frameAt offset = some frame → device frame = true
  was_free : ∀ frame ∈ used, frame ∈ state.free
  was_owned : ∀ frame ∈ freed, ∃ offset, state.Owns id offset frame ∧
    ∀ new, entry = some new → new.store.inner.frameAt offset = none
  kept : ∀ new, entry = some new → new.store.inner.isPhysical = false →
    ∀ offset frame, new.store.inner.frameAt offset = some frame →
      state.Owns id offset frame ∨ frame ∈ used
  once : ∀ new, entry = some new → ∀ left right, ∀ frame ∈ used,
    new.store.inner.frameAt left = some frame → new.store.inner.frameAt right = some frame →
      left = right

/-- An owned frame was owned before and has not been freed, or it is new. -/
theorem Owned.origin (owned : Owned device state)
    (replaces : Replaces device state id entry freed used) {other offset frame : Nat}
    (owns : (state.replace id entry freed used).Owns other offset frame) :
    state.Owns other offset frame ∧ frame ∉ freed ∨ other = id ∧ frame ∈ used := by
  obtain ⟨new, new_eq, ordinary, found⟩ := owns
  by_cases same : other = id
  · subst same
    rw [replace_same] at new_eq
    rcases replaces.kept new new_eq ordinary offset frame found with old | mem
    · refine .inl ⟨old, fun gone => ?_⟩
      obtain ⟨place, owner, absent⟩ := replaces.was_owned frame gone
      obtain ⟨-, rfl⟩ := owned.unique _ _ _ _ _ old owner
      rw [absent new new_eq] at found
      cases found
    · exact .inr ⟨rfl, mem⟩
  · rw [replace_other same] at new_eq
    have old : state.Owns other offset frame := ⟨new, new_eq, ordinary, found⟩
    refine .inl ⟨old, fun gone => ?_⟩
    obtain ⟨place, owner, -⟩ := replaces.was_owned frame gone
    exact same (owned.unique _ _ _ _ _ old owner).1

theorem mem_free_replace {frame : Nat} :
    frame ∈ (state.replace id entry freed used).free ↔
      frame ∈ freed ∨ frame ∈ state.free ∧ frame ∉ used := by
  simp [State.replace]

/-- Replacing a memory object keeps every frame in one place. -/
theorem Owned.replace (owned : Owned device state)
    (replaces : Replaces device state id entry freed used) :
    Owned device (state.replace id entry freed used) := by
  have gone (frame : Nat) (mem : frame ∈ freed) :
      ∃ offset, state.Owns id offset frame :=
    (replaces.was_owned frame mem).imp fun _ freed_at => freed_at.1
  have entries (other : Nat) (new : Entry)
      (new_eq : (state.replace id entry freed used).vmos other = some new) :
      entry = some new ∨ state.vmos other = some new := by
    by_cases same : other = id
    · subst same
      exact .inl (replace_same.symm.trans new_eq)
    · exact .inr ((replace_other same).symm.trans new_eq)
  refine ⟨?_, ?_, ?_, ?_, ?_, ?_, ?_⟩
  · intro other le
    replace le : max state.nextVmo (id + 1) ≤ other := le
    have ne : other ≠ id := by omega
    exact (replace_other ne).trans (owned.fresh other (by omega))
  · intro other new new_eq
    rcases entries other new new_eq with here | there
    · exact replaces.regular new here
    · exact owned.regular other new there
  · intro other new new_eq
    rcases entries other new new_eq with here | there
    · exact replaces.physical new here
    · exact owned.physical other new there
  · rintro frame (free | taken)
    · rcases mem_free_replace.mp free with mem | ⟨mem, -⟩
      · obtain ⟨offset, owns⟩ := gone frame mem
        obtain ⟨-, -, outside⟩ := owned.owned id offset frame owns
        obtain ⟨old, -, -, found⟩ := owns
        exact ⟨(Vmo.frameAt_eq_some.mp found).2, outside⟩
      · exact owned.ordinary frame (.inl mem)
    · exact owned.ordinary frame (.inr taken)
  · intro frame taken free
    rcases mem_free_replace.mp free with mem | ⟨mem, -⟩
    · obtain ⟨offset, owns⟩ := gone frame mem
      exact (owned.owned id offset frame owns).2.1 taken
    · exact owned.apart frame taken mem
  · intro other offset frame owns
    rcases owned.origin replaces owns with ⟨old, unfreed⟩ | ⟨-, new⟩
    · obtain ⟨not_free, not_taken, outside⟩ := owned.owned other offset frame old
      refine ⟨fun free => ?_, not_taken, outside⟩
      rcases mem_free_replace.mp free with mem | ⟨mem, -⟩
      · exact unfreed mem
      · exact not_free mem
    · have was_free := replaces.was_free frame new
      refine ⟨fun free => ?_, fun taken => owned.apart frame taken was_free,
        (owned.ordinary frame (.inl was_free)).2⟩
      rcases mem_free_replace.mp free with mem | ⟨-, unused⟩
      · obtain ⟨place, owner⟩ := gone frame mem
        exact (owned.owned id place frame owner).1 was_free
      · exact unused new
  · intro one left two right frame first second
    rcases owned.origin replaces first with ⟨old, -⟩ | ⟨rfl, new⟩
    · rcases owned.origin replaces second with ⟨other, -⟩ | ⟨-, new⟩
      · exact owned.unique _ _ _ _ _ old other
      · exact absurd (replaces.was_free frame new) (owned.owned _ _ _ old).1
    · rcases owned.origin replaces second with ⟨old, -⟩ | ⟨rfl, -⟩
      · exact absurd (replaces.was_free frame new) (owned.owned _ _ _ old).1
      · obtain ⟨here, here_eq, -, left_eq⟩ := first
        obtain ⟨there, there_eq, -, right_eq⟩ := second
        obtain rfl : here = there := Option.some.inj (here_eq.symm.trans there_eq)
        rw [replace_same] at here_eq
        exact ⟨rfl, replaces.once here here_eq left right frame new left_eq right_eq⟩

/-- Counting references differently replaces nothing. -/
theorem Owned.recounts (owned : Owned device state) {old new : Entry}
    (old_eq : state.vmos id = some old) (same : new.store = old.store) :
    Replaces device state id (some new) [] [] := by
  refine ⟨?_, ?_, by simp, by simp, ?_, by simp⟩
  · rintro other ⟨⟩
    rw [same]
    exact owned.regular id old old_eq
  · rintro other ⟨⟩
    rw [same]
    exact owned.physical id old old_eq
  · rintro other ⟨⟩ ordinary offset frame found
    rw [same] at ordinary found
    exact .inl ⟨old, old_eq, ordinary, found⟩

end Ownership

section References

variable {state : State} {id : Nat} {entry : Option Entry} {freed used : List Nat}

/-- A new version of a memory object keeps what areas and pins rely on: it stays, and it holds the
frames that are still referred to. -/
def Retains (state : State) (id : Nat) (entry : Option Entry) : Prop :=
  ∀ old, state.vmos id = some old → 0 < old.areas ∨ (∃ pin ∈ state.pins, pin.vmo = id) →
    ∃ new, entry = some new ∧ old.areas ≤ new.areas ∧
      ∀ offset frame, old.store.inner.frameAt offset = some frame → state.Reaches frame →
        new.store.inner.frameAt offset = some frame

theorem mapped_replace (retains : Retains state id entry) {other : Nat}
    (mapped : state.Mapped other) : (state.replace id entry freed used).Mapped other := by
  obtain ⟨old, old_eq, positive⟩ := mapped
  by_cases same : other = id
  · subst same
    obtain ⟨new, new_eq, le, -⟩ := retains old old_eq (.inl positive)
    exact ⟨new, replace_same.trans new_eq, by omega⟩
  · exact ⟨old, (replace_other same).trans old_eq, positive⟩

theorem holds_replace (retains : Retains state id entry) {other frame : Nat}
    (stays : state.Mapped other ∨ ∃ pin ∈ state.pins, pin.vmo = other)
    (reaches : state.Reaches frame) (held : state.Holds other frame) :
    (state.replace id entry freed used).Holds other frame := by
  obtain ⟨old, offset, old_eq, found⟩ := held
  by_cases same : other = id
  · subst same
    have needed : 0 < old.areas ∨ ∃ pin ∈ state.pins, pin.vmo = other := by
      refine stays.imp_left ?_
      rintro ⟨entry, entry_eq, positive⟩
      obtain rfl : old = entry := Option.some.inj (old_eq.symm.trans entry_eq)
      exact positive
    obtain ⟨new, new_eq, -, kept⟩ := retains old old_eq needed
    exact ⟨new, offset, replace_same.trans new_eq, kept offset frame found reaches⟩
  · exact ⟨old, offset, (replace_other same).trans old_eq, found⟩

/-- Replacing a memory object by one that retains what is relied on keeps all references. -/
theorem Referenced.replace (referenced : Referenced state) (retains : Retains state id entry) :
    Referenced (state.replace id entry freed used) := by
  have backs (frame : Nat) (reaches : state.Reaches frame) (backed : state.Backs frame) :
      (state.replace id entry freed used).Backs frame := by
    obtain ⟨other, mapped, held⟩ := backed
    exact ⟨other, mapped_replace retains mapped,
      holds_replace retains (.inl mapped) reaches held⟩
  refine ⟨fun pid => ?_, fun pid frame maps => ?_, fun fault mem => ?_, fun pin mem => ⟨?_, ?_⟩⟩
  · obtain ⟨known, backed⟩ := referenced.areas pid
    refine ⟨known, backed.weaken fun flags backingVmo => ?_⟩
    rintro ⟨other, rfl, mapped⟩
    exact ⟨other, rfl, mapped_replace retains mapped⟩
  · exact backs frame (.inl ⟨pid, maps⟩) (referenced.mapped pid frame maps)
  · exact backs fault.frame (.inr (.inl ⟨fault, mem, rfl⟩)) (referenced.faulting fault mem)
  · obtain ⟨old, old_eq⟩ := (referenced.pinned pin mem).1
    by_cases same : pin.vmo = id
    · rw [same] at old_eq ⊢
      obtain ⟨new, new_eq, -⟩ := retains old old_eq (.inr ⟨pin, mem, same⟩)
      exact ⟨new, replace_same.trans new_eq⟩
    · exact ⟨old, (replace_other same).trans old_eq⟩
  · intro frame listed
    exact holds_replace retains (.inr ⟨pin, mem, rfl⟩) (.inr (.inr ⟨pin, mem, listed⟩))
      ((referenced.pinned pin mem).2 frame listed)

theorem setProcess_same (state : State) (pid : Nat) (vmm : VirtMemManager) :
    (state.setProcess pid vmm).processes pid = vmm := by
  simp [State.setProcess]

theorem setProcess_other (state : State) {pid other : Nat} (vmm : VirtMemManager)
    (ne : other ≠ pid) : (state.setProcess pid vmm).processes other = state.processes other := by
  simp [State.setProcess, ne]

/-- A process may get a memory manager whose areas and pages are backed. -/
theorem Referenced.setProcess (referenced : Referenced state) {pid : Nat} {vmm : VirtMemManager}
    {known : Set Nat}
    (areas : vmm.Backed (fun _ backingVmo => ∃ id, backingVmo = some id ∧ state.Mapped id) known)
    (mapped : ∀ size page phys, mappedPages vmm.effects size page = some phys →
      ∀ frame ∈ coveredFrames phys size, state.Backs frame) :
    Referenced (state.setProcess pid vmm) := by
  refine ⟨fun other => ?_, fun other frame maps => ?_, referenced.faulting, referenced.pinned⟩
  · by_cases same : other = pid
    · subst same
      rw [setProcess_same]
      exact ⟨known, areas⟩
    · rw [setProcess_other state vmm same]
      exact referenced.areas other
  · obtain ⟨size, page, phys, page_eq, covered⟩ := maps
    by_cases same : other = pid
    · subst same
      rw [setProcess_same] at page_eq
      exact mapped size page phys page_eq frame covered
    · rw [setProcess_other state vmm same] at page_eq
      exact referenced.mapped other frame ⟨size, page, phys, page_eq, covered⟩

end References

/-- The invariant of the system. -/
structure Sound (device : Nat → Bool) (state : State) : Prop where
  owned : Owned device state
  referenced : Referenced state

section Actions

variable {device : Nat → Bool} {state next : State} {id : Nat}

/-- The invariant rules out free frames behind references. -/
theorem Sound.noneFree (sound : Sound device state) : NoneFree state := by
  refine ⟨fun pid frame maps => ?_, fun pin mem _ frame listed => ?_⟩
  · obtain ⟨id, -, held⟩ := sound.referenced.mapped pid frame maps
    exact sound.owned.not_free held
  · exact sound.owned.not_free ((sound.referenced.pinned pin mem).2 frame listed)

theorem Sound.replace (sound : Sound device state) {entry : Option Entry} {freed used : List Nat}
    (replaces : Replaces device state id entry freed used) (retains : Retains state id entry) :
    Sound device (state.replace id entry freed used) :=
  ⟨sound.owned.replace replaces, sound.referenced.replace retains⟩

/-- References may be counted differently as long as areas keep theirs. -/
theorem Sound.recount (sound : Sound device state) {old new : Entry}
    (old_eq : state.vmos id = some old) (same : new.store = old.store)
    (le : old.areas ≤ new.areas) : Sound device (state.replace id (some new) [] []) := by
  refine sound.replace (sound.owned.recounts old_eq same) fun entry entry_eq _ => ?_
  obtain rfl : old = entry := Option.some.inj (old_eq.symm.trans entry_eq)
  refine ⟨new, rfl, le, fun offset frame found _ => ?_⟩
  rw [same]
  exact found

/-- A new memory object may have frames of its own. -/
theorem Sound.create (sound : Sound device state) {new : Entry} {used : List Nat}
    (replaces : Replaces device state state.nextVmo (some new) [] used) :
    Sound device (state.replace state.nextVmo (some new) [] used) := by
  refine sound.replace replaces fun old old_eq => ?_
  rw [sound.owned.fresh state.nextVmo le_rfl] at old_eq
  cases old_eq

theorem Sound.dropUnreferenced (sound : Sound device state) (id : Nat) :
    Sound device (state.dropUnreferenced id) := by
  rw [State.dropUnreferenced]
  split
  · exact sound
  next entry entry_eq =>
    split
    next unreferenced =>
      obtain ⟨-, no_areas, no_pins⟩ := unreferenced
      refine sound.replace ⟨by simp, by simp, by simp, fun frame mem => ?_, by simp, by simp⟩
        fun old old_eq needed => ?_
      · rw [Vmo.drop] at mem
        split at mem
        · cases mem
        next ordinary =>
          obtain ⟨offset, -, found⟩ := Vmo.mem_framesFrom.mp mem
          exact ⟨offset, ⟨entry, entry_eq, by simpa using ordinary, found⟩, by simp⟩
      · obtain rfl : entry = old := Option.some.inj (entry_eq.symm.trans old_eq)
        rcases needed with positive | ⟨pin, mem, same⟩
        · omega
        · exact absurd same (no_pins pin mem)
    next => exact sound

/-- Ownership is about objects and frames only. -/
theorem Owned.congr (owned : Owned device state) (processes : Nat → VirtMemManager)
    (faults : List Fault) (pins : List Pin) :
    Owned device { state with processes, faults, pins } := by
  obtain ⟨fresh, regular, physical, ordinary, apart, owned, unique⟩ := owned
  exact ⟨fresh, regular, physical, ordinary, apart, owned, unique⟩

/-- Pins may change as long as they list frames of objects that stay. -/
theorem Sound.setPins (sound : Sound device state) {pins : List Pin}
    (pinned : ∀ pin ∈ pins, (∃ entry, state.vmos pin.vmo = some entry) ∧
      ∀ frame ∈ pin.physAddrs, state.Holds pin.vmo frame) : Sound device { state with pins } :=
  ⟨sound.owned.congr state.processes state.faults pins, sound.referenced.areas,
    sound.referenced.mapped, sound.referenced.faulting, pinned⟩

/-- Page faults may start with a frame of a mapped object, and end. -/
theorem Sound.setFaults (sound : Sound device state) {faults : List Fault}
    (faulting : ∀ fault ∈ faults, state.Backs fault.frame) : Sound device { state with faults } :=
  ⟨sound.owned.congr state.processes faults state.pins, sound.referenced.areas,
    sound.referenced.mapped, faulting, sound.referenced.pinned⟩

/-- Dropping a pin drops its memory object if nothing else refers to it. -/
theorem Sound.unpin (sound : Sound device state) (index id : Nat) :
    Sound device ({ state with pins := state.pins.eraseIdx index }.dropUnreferenced id) := by
  have fewer : Sound device { state with pins := state.pins.eraseIdx index } :=
    sound.setPins fun pin mem => sound.referenced.pinned pin (List.mem_of_mem_eraseIdx mem)
  exact fewer.dropUnreferenced id

/-- The frames a request takes are those in front of what it leaves. -/
theorem mem_used (front : List Nat) {rest : List Nat} (nodup : (front ++ rest).Nodup)
    {frame : Nat} :
    frame ∈ (front ++ rest).filter (· ∉ rest) ↔ frame ∈ front := by
  simp only [List.mem_filter, List.mem_append, decide_eq_true_eq]
  constructor
  · rintro ⟨mem, outside⟩
    exact mem.resolve_right outside
  · intro mem
    exact ⟨.inl mem, fun later => (List.disjoint_of_nodup_append nodup) mem later⟩

end Actions

section Requests

variable {device : Nat → Bool} {state next : State} {id : Nat}

/-- A memory object may take a free frame for one page. -/
theorem Sound.supply (sound : Sound device state) (offset : Nat) {entry : Entry}
    {store : PagedBackingStore} {used : List Nat} (entry_eq : state.vmos id = some entry)
    (regular : store.Regular)
    (physical_eq : store.inner.isPhysical = entry.store.inner.isPhysical)
    (was_free : ∀ frame ∈ used, frame ∈ state.free)
    (keeps : ∀ place frame, entry.store.inner.frameAt place = some frame →
      store.inner.frameAt place = some frame)
    (origin : ∀ place frame, store.inner.frameAt place = some frame →
      entry.store.inner.frameAt place = some frame ∨
        place = offset ∧ entry.store.inner.isPhysical = false ∧ frame ∈ used) :
    Sound device (state.replace id (some { entry with store }) [] used) ∧
      ∀ other, state.Mapped other →
        (state.replace id (some { entry with store }) [] used).Mapped other := by
  have here (place frame : Nat) (new : frame ∈ used)
      (found : store.inner.frameAt place = some frame) : place = offset := by
    rcases origin place frame found with old | ⟨same, -⟩
    · exact absurd (was_free frame new) (sound.owned.not_free ⟨entry, place, entry_eq, old⟩)
    · exact same
  have retains : Retains state id (some { entry with store }) := by
    intro old old_eq _
    obtain rfl : entry = old := Option.some.inj (entry_eq.symm.trans old_eq)
    exact ⟨_, rfl, le_rfl, fun place frame found _ => keeps place frame found⟩
  refine ⟨sound.replace ⟨?_, ?_, was_free, by simp, ?_, ?_⟩ retains,
    fun other mapped => mapped_replace retains mapped⟩
  · rintro new ⟨⟩
    exact regular
  · rintro new ⟨⟩ physical place frame found
    replace physical : entry.store.inner.isPhysical = true := physical_eq.symm.trans physical
    rcases origin place frame found with old | ⟨-, ordinary, -⟩
    · exact sound.owned.physical id entry entry_eq physical place frame old
    · rw [physical] at ordinary
      cases ordinary
  · rintro new ⟨⟩ ordinary place frame found
    rcases origin place frame found with old | ⟨-, -, mem⟩
    · exact .inl ⟨entry, entry_eq, physical_eq.symm.trans ordinary, old⟩
    · exact .inr mem
  · rintro new ⟨⟩ left right frame mem left_eq right_eq
    rw [here left frame mem left_eq, here right frame mem right_eq]

/-- A request keeps the invariant and the mapped objects; the frame it answers with is held by the
memory object. -/
theorem Sound.request (sound : Sound device state) {offset : Nat} {disk : Nat → Bool}
    {supply : List Nat} {result : Except Unit Nat}
    (request_eq : state.request id disk offset supply = .ok (result, next)) :
    (Sound device next ∧ ∀ other, state.Mapped other → next.Mapped other) ∧
      next.faults = state.faults ∧ next.pins = state.pins ∧
      ∀ frame, result = .ok frame → next.Holds id frame := by
  obtain ⟨entry, entry_eq, request_eq⟩ := bind_eq_ok.mp request_eq
  obtain ⟨_, supplies_eq, request_eq⟩ := bind_eq_ok.mp request_eq
  obtain ⟨⟨answer, store, rest⟩, page_eq, done⟩ := bind_eq_ok.mp request_eq
  cases done
  replace entry_eq := present_eq_ok.mp entry_eq
  obtain ⟨nodup, free⟩ := guarded_eq_ok.mp supplies_eq
  have regular := sound.owned.regular id entry entry_eq
  have was_free : ∀ frame ∈ supply.filter (· ∉ rest), frame ∈ state.free :=
    fun frame mem => free frame (List.mem_of_mem_filter mem)
  have unchanged := sound.supply offset entry_eq regular rfl was_free
    (fun _ _ found => found) (fun _ _ found => .inl found)
  cases PagedBackingStore.requestPage_requested regular (panics_eq_ok.mp page_eq) with
  | found found =>
      refine ⟨unchanged, rfl, rfl, ?_⟩
      rintro frame ⟨⟩
      exact ⟨_, offset, replace_same, found⟩
  | refused => exact ⟨unchanged, rfl, rfl, nofun⟩
  | lost taken => exact ⟨unchanged, rfl, rfl, nofun⟩
  | @stored frame rest taken absent ordinary =>
      subst taken
      have nonzero := (sound.owned.ordinary frame (.inl (free frame List.mem_cons_self))).1
      refine ⟨sound.supply offset entry_eq (regular.withInner rfl) ?_ was_free ?_ ?_,
        rfl, rfl, ?_⟩
      · rw [PagedBackingStore.inner_withInner]
      · intro place other found
        rw [PagedBackingStore.inner_withInner, Vmo.frameAt_insert_other, found]
        rintro rfl
        rw [absent] at found
        cases found
      · intro place other found
        rw [PagedBackingStore.inner_withInner] at found
        by_cases same : place = offset
        · subst same
          rw [Vmo.frameAt_insert_same nonzero] at found
          cases found
          exact .inr ⟨rfl, ordinary, (mem_used [frame] nodup).mpr (by simp)⟩
        · rw [Vmo.frameAt_insert_other same] at found
          exact .inl found
      · rintro answer ⟨⟩
        refine ⟨_, offset, replace_same, ?_⟩
        rw [PagedBackingStore.inner_withInner, Vmo.frameAt_insert_same nonzero]

end Requests

section Steps

variable {device : Nat → Bool} {state next : State} {id : Nat}

theorem Sound.resize (sound : Sound device state) {newSize : Nat} {entry : Entry}
    {store : PagedBackingStore} {freed : List Nat} (entry_eq : state.vmos id = some entry)
    (permitted : Permitted state (.resize id newSize))
    (resize_eq : entry.store.resizeObject newSize = .ok (store, freed)) :
    Sound device (state.replace id (some { entry with store }) freed []) := by
  have resized := PagedBackingStore.resizeObject_resized resize_eq
  have stored (offset frame : Nat) (found : store.inner.frameAt offset = some frame) :
      entry.store.inner.frameAt offset = some frame := by
    rcases resized.kept offset with same | ⟨-, -, absent⟩
    · exact same.symm.trans found
    · rw [absent] at found
      cases found
  refine sound.replace ⟨?_, ?_, by simp, fun frame mem => ?_, ?_, by simp⟩ fun old old_eq _ => ?_
  · rintro new ⟨⟩
    exact resized.regular (sound.owned.regular id entry entry_eq)
  · rintro new ⟨⟩ physical offset frame found
    exact sound.owned.physical id entry entry_eq (resized.physical_eq.symm.trans physical) offset
      frame (stored offset frame found)
  · obtain ⟨offset, found, absent⟩ := resized.freed frame mem
    refine ⟨offset, ⟨entry, entry_eq, resized.owned, found⟩, ?_⟩
    rintro new ⟨⟩
    exact absent
  · rintro new ⟨⟩ - offset frame found
    exact .inl ⟨entry, entry_eq, resized.owned, stored offset frame found⟩
  · obtain rfl : entry = old := Option.some.inj (entry_eq.symm.trans old_eq)
    refine ⟨_, rfl, le_rfl, fun offset frame found reaches => ?_⟩
    rcases resized.kept offset with same | ⟨shrinks, removed, -⟩
    · exact same.trans found
    · exact absurd reaches (permitted entry entry_eq resized.owned shrinks offset removed frame
        found)

theorem Sound.clone (sound : Sound device state) {offset len : Nat} {parent child : Vmo}
    {supply rest : List Nat} (nodup : supply.Nodup) (free : ∀ frame ∈ supply, frame ∈ state.free)
    (clone_eq : parent.cloneRange offset len supply = .ok (.ok child, rest)) :
    Sound device (state.replace state.nextVmo (some ⟨.plain child, 1, 0⟩) []
      (supply.filter (· ∉ rest))) := by
  obtain ⟨used, rfl, ordinary, origin, once⟩ := PagedBackingStore.cloneRange_spec clone_eq
  have new {frame : Nat} := @mem_used used rest nodup frame
  refine sound.create ⟨?_, ?_, fun frame mem => ?_, by simp, ?_, ?_⟩
  · rintro entry ⟨⟩ -
    exact ⟨child, rfl⟩
  · rintro entry ⟨⟩ physical
    rw [show child.isPhysical = true from physical] at ordinary
    cases ordinary
  · exact free frame (List.mem_of_mem_filter mem)
  · rintro entry ⟨⟩ - place frame found
    exact .inr (new.mpr (origin place frame found))
  · rintro entry ⟨⟩ left right frame - left_eq right_eq
    exact once (List.Nodup.of_append_left nodup) left right frame left_eq right_eq

/-- An object without frames is new. -/
theorem replaces_empty {new : Entry} (regular : new.store.Regular)
    (empty : ∀ offset, new.store.inner.frameAt offset = none) :
    Replaces device state id (some new) [] [] := by
  refine ⟨?_, ?_, by simp, by simp, ?_, by simp⟩
  · rintro entry ⟨⟩
    exact regular
  · rintro entry ⟨⟩ - offset frame found
    rw [empty] at found
    cases found
  · rintro entry ⟨⟩ - offset frame found
    rw [empty] at found
    cases found

theorem Sound.createPhys (sound : Sound device state) {physAddr size : Nat}
    (memory : ∀ offset ∈ Vmo.pageOffsets size, device (physAddr + offset) = true) :
    Sound device
      (state.replace state.nextVmo (some ⟨.plain (.newPhys physAddr size), 1, 0⟩) [] []) := by
  refine sound.create ⟨?_, ?_, by simp, by simp, ?_, by simp⟩
  · rintro entry ⟨⟩ -
    exact ⟨_, rfl⟩
  · rintro entry ⟨⟩ - offset frame found
    obtain ⟨mem, rfl⟩ := Vmo.frameAt_newPhys found
    exact memory offset mem
  · rintro entry ⟨⟩ ⟨⟩

end Steps

section Mappings

variable {device : Nat → Bool} {state next : State}

theorem Sound.setProcess (sound : Sound device state) {pid : Nat} {vmm : VirtMemManager}
    {known : Set Nat}
    (areas : vmm.Backed (fun _ backingVmo => ∃ id, backingVmo = some id ∧ state.Mapped id) known)
    (mapped : ∀ size page phys, mappedPages vmm.effects size page = some phys →
      ∀ frame ∈ coveredFrames phys size, state.Backs frame) :
    Sound device (state.setProcess pid vmm) :=
  ⟨sound.owned.congr _ state.faults state.pins, sound.referenced.setProcess areas mapped⟩

/-- Either way of placing an area keeps the areas backed and the pages as they are. -/
theorem place_backed {vmm after : VirtMemManager} {good : Nat → Option Nat → Prop}
    {known : Set Nat} (backed : vmm.Backed good known) {vaddr len flags id nodePtr : Nat}
    {addr : Option Nat} (suits : good flags (some id))
    (place_eq : (if vaddr = 0 then vmm.mmapVmo len flags id nodePtr
      else vmm.mmapVmoAt vaddr len flags id nodePtr) = .ok (addr, after)) :
    (∃ larger, after.Backed good larger) ∧ after.effects = vmm.effects ∧
      (addr = none → after = vmm) := by
  split at place_eq
  · exact backed.mmapVmo suits place_eq
  · exact backed.mmapVmoAt suits place_eq

theorem Sound.mapIntoProc (sound : Sound device state) {pid id vaddr len flags nodePtr : Nat}
    (map_eq : state.mapIntoProc pid id vaddr len flags nodePtr = .ok next) :
    Sound device next := by
  obtain ⟨entry, object_eq, map_eq⟩ := bind_eq_ok.mp map_eq
  obtain ⟨_, -, map_eq⟩ := bind_eq_ok.mp map_eq
  obtain ⟨⟨addr, after⟩, place_eq, done⟩ := bind_eq_ok.mp map_eq
  have entry_eq := object_ok object_eq
  -- The new area is the first reference of this kind to the object.
  have counted : Sound device
      (state.replace id (some { entry with areas := entry.areas + 1 }) [] []) :=
    sound.recount entry_eq rfl (Nat.le_succ _)
  have mapped : (state.replace id (some { entry with areas := entry.areas + 1 }) [] []).Mapped id :=
    ⟨_, replace_same, Nat.succ_pos _⟩
  obtain ⟨known, backed⟩ := counted.referenced.areas pid
  obtain ⟨⟨larger, placed⟩, effects_eq, none_eq⟩ :=
    place_backed backed ⟨id, rfl, mapped⟩ (panics_eq_ok.mp place_eq)
  cases addr with
  | none =>
      cases done
      rw [none_eq rfl]
      obtain ⟨before, areas⟩ := sound.referenced.areas pid
      exact sound.setProcess areas fun size page phys page_eq frame covered =>
        sound.referenced.mapped pid frame ⟨size, page, phys, page_eq, covered⟩
  | some start =>
      cases done
      refine counted.setProcess placed fun size page phys page_eq frame covered => ?_
      rw [effects_eq] at page_eq
      exact counted.referenced.mapped pid frame ⟨size, page, phys, page_eq, covered⟩

theorem freedFrames_of_clears {effects : List Effect}
    (clearing : ∀ effect ∈ effects, effect.isClearing = true) :
    effects.flatMap Effect.freedFrames = [] := by
  refine List.flatMap_eq_nil_iff.mpr fun effect mem => ?_
  have clears := clearing effect mem
  cases effect with
  | free addr size => cases clears
  | mapPage _ _ _ | unmapPage _ _ | changeFlags _ _ _ | flushTlb _ | shootdown _ _ => rfl

theorem Sound.unmap (sound : Sound device state) {pid vaddr len : Nat}
    (unmap_eq : state.unmap pid vaddr len = .ok next) : Sound device next := by
  obtain ⟨_, -, unmap_eq⟩ := bind_eq_ok.mp unmap_eq
  obtain ⟨⟨result, after⟩, call_eq, done⟩ := bind_eq_ok.mp unmap_eq
  cases done
  obtain ⟨known, backed⟩ := sound.referenced.areas pid
  have backs (flags : Nat) (backingVmo : Option Nat)
      (good : ∃ id, backingVmo = some id ∧ state.Mapped id) : backingVmo ≠ none := by
    obtain ⟨id, rfl, -⟩ := good
    nofun
  obtain ⟨areas, trace, effects_eq, clearing⟩ := backed.munmap backs (panics_eq_ok.mp call_eq)
  -- Every area has a memory object, so nothing is freed.
  rw [effects_eq, List.drop_left, freedFrames_of_clears clearing]
  refine sound.setProcess areas fun size page phys page_eq frame covered => ?_
  rw [effects_eq] at page_eq
  exact sound.referenced.mapped pid frame
    ⟨size, page, phys, mappedPages_of_clearing clearing page_eq, covered⟩

theorem Sound.beginFault (sound : Sound device state) {pid addr errorCode : Nat}
    {disk : Nat → Bool} {supply : List Nat}
    (fault_eq : state.beginFault pid addr errorCode disk supply = .ok next) :
    Sound device next := by
  obtain ⟨found, area_eq, fault_eq⟩ := bind_eq_ok.mp fault_eq
  cases found with
  | error problem =>
      cases fault_eq
      exact sound
  | ok node =>
      obtain ⟨id, id_eq, fault_eq⟩ := bind_eq_ok.mp fault_eq
      obtain ⟨⟨result, after⟩, request_eq, done⟩ := bind_eq_ok.mp fault_eq
      obtain ⟨⟨after_sound, mapped⟩, faults_eq, -, held⟩ := sound.request request_eq
      cases result with
      | error problem =>
          cases done
          exact after_sound
      | ok frame =>
          cases done
          obtain ⟨known, backed⟩ := sound.referenced.areas pid
          obtain ⟨ptr, ptr_known, rfl⟩ := backed.faultArea (panics_eq_ok.mp area_eq)
          obtain ⟨owner, owner_eq, owner_mapped⟩ := backed.good ptr ptr_known
          obtain rfl : id = owner :=
            Option.some.inj ((present_eq_ok.mp id_eq).symm.trans owner_eq)
          refine after_sound.setFaults fun fault mem => ?_
          rcases List.mem_cons.mp mem with rfl | mem
          · exact ⟨id, mapped id owner_mapped, held frame rfl⟩
          · exact after_sound.referenced.faulting fault mem

theorem Sound.enterPage (sound : Sound device state) {index : Nat} {tableFrames : List Nat}
    (permitted : Permitted state (.enter index tableFrames))
    (enter_eq : state.enterPage index tableFrames = .ok next) : Sound device next := by
  obtain ⟨fault, fault_eq, enter_eq⟩ := bind_eq_ok.mp enter_eq
  obtain ⟨_, -, enter_eq⟩ := bind_eq_ok.mp enter_eq
  obtain ⟨⟨result, after⟩, call_eq, done⟩ := bind_eq_ok.mp enter_eq
  cases done
  replace fault_eq := present_eq_ok.mp fault_eq
  have backs := sound.referenced.faulting fault (List.mem_of_getElem? fault_eq)
  obtain ⟨known, backed⟩ := sound.referenced.areas fault.pid
  have entered : Sound device (state.setProcess fault.pid after) := by
    rcases backed.handlePageFault (panics_eq_ok.mp call_eq) with
      rfl | ⟨ptr, ptr_known, virt, phys, tables, area_eq, answer, rfl⟩
    · exact sound.setProcess backed fun size page phys page_eq frame covered =>
        sound.referenced.mapped fault.pid frame ⟨size, page, phys, page_eq, covered⟩
    · obtain ⟨id, id_eq, -⟩ := backed.good ptr ptr_known
      obtain ⟨offset, phys_eq⟩ := answer id id_eq
      obtain rfl : fault.frame = phys := Option.some.inj phys_eq
      refine sound.setProcess (backed.congr rfl rfl) fun size page phys page_eq frame covered => ?_
      rcases mappedPages_of_mapPage page_eq with ⟨rfl, rfl⟩ | old
      · cases block : blockSize ((state.processes fault.pid).nodes ptr).flags with
        | Normal =>
            rw [block, coveredFrames_normal] at covered
            obtain rfl := List.mem_singleton.mp covered
            exact backs
        | Huge =>
            rw [block] at covered
            exact permitted fault fault_eq _ area_eq block frame covered
      · exact sound.referenced.mapped fault.pid frame ⟨size, page, phys, old, covered⟩
  exact entered.setFaults fun other mem =>
    entered.referenced.faulting other (List.mem_of_mem_eraseIdx mem)

end Mappings

section Runs

variable {device : Nat → Bool} {state next : State}

theorem Sound.pinPage (sound : Sound device state) {index : Nat} {disk : Nat → Bool}
    {supply : List Nat} (pin_eq : state.pinPage index disk supply = .ok next) :
    Sound device next := by
  obtain ⟨pin, index_eq, pin_eq⟩ := bind_eq_ok.mp pin_eq
  obtain ⟨offset, -, pin_eq⟩ := bind_eq_ok.mp pin_eq
  obtain ⟨⟨result, after⟩, request_eq, done⟩ := bind_eq_ok.mp pin_eq
  obtain ⟨⟨after_sound, -⟩, -, pins_eq, held⟩ := sound.request request_eq
  cases result with
  | error problem =>
      cases done
      exact after_sound.unpin index pin.vmo
  | ok frame =>
      cases done
      have listed : pin ∈ after.pins := by
        rw [pins_eq]
        exact List.mem_of_getElem? (present_eq_ok.mp index_eq)
      obtain ⟨stays, frames⟩ := after_sound.referenced.pinned pin listed
      refine after_sound.setPins fun other mem => ?_
      rcases List.mem_or_eq_of_mem_set mem with old | rfl
      · exact after_sound.referenced.pinned other old
      · refine ⟨stays, fun listed_frame mem => ?_⟩
        rcases List.mem_append.mp mem with earlier | last
        · exact frames listed_frame earlier
        · obtain rfl := List.mem_singleton.mp last
          exact held listed_frame rfl

/-- The rest of the kernel may take a free frame. -/
theorem Sound.take (sound : Sound device state) {frame : Nat} (free : frame ∈ state.free) :
    Sound device { state with
      free := state.free.filter (· ≠ frame), taken := frame :: state.taken } := by
  obtain ⟨⟨fresh, regular, physical, ordinary, apart, owned, unique⟩, referenced⟩ := sound
  refine ⟨⟨fresh, regular, physical, ?_, ?_, ?_, unique⟩, ⟨referenced.areas, referenced.mapped,
    referenced.faulting, referenced.pinned⟩⟩
  · rintro other (mem | mem)
    · exact ordinary other (.inl (List.mem_of_mem_filter mem))
    · rcases List.mem_cons.mp mem with rfl | mem
      · exact ordinary other (.inl free)
      · exact ordinary other (.inr mem)
  · intro other mem
    rcases List.mem_cons.mp mem with rfl | mem
    · simp
    · exact fun left => apart other mem (List.mem_of_mem_filter left)
  · intro id offset other owns
    obtain ⟨not_free, not_taken, outside⟩ := owned id offset other owns
    refine ⟨fun left => not_free (List.mem_of_mem_filter left), fun mem => ?_, outside⟩
    rcases List.mem_cons.mp mem with rfl | mem
    · exact not_free free
    · exact not_taken mem

/-- The rest of the kernel may free a frame it has taken. -/
theorem Sound.give (sound : Sound device state) {frame : Nat} (taken : frame ∈ state.taken) :
    Sound device { state with
      free := frame :: state.free, taken := state.taken.filter (· ≠ frame) } := by
  obtain ⟨⟨fresh, regular, physical, ordinary, apart, owned, unique⟩, referenced⟩ := sound
  refine ⟨⟨fresh, regular, physical, ?_, ?_, ?_, unique⟩, ⟨referenced.areas, referenced.mapped,
    referenced.faulting, referenced.pinned⟩⟩
  · rintro other (mem | mem)
    · rcases List.mem_cons.mp mem with rfl | mem
      · exact ordinary other (.inr taken)
      · exact ordinary other (.inl mem)
    · exact ordinary other (.inr (List.mem_of_mem_filter mem))
  · intro other mem left
    obtain ⟨old, ne⟩ := List.mem_filter.mp mem
    rcases List.mem_cons.mp left with rfl | free
    · simp at ne
    · exact apart other old free
  · intro id offset other owns
    obtain ⟨not_free, not_taken, outside⟩ := owned id offset other owns
    refine ⟨fun left => ?_, fun mem => not_taken (List.mem_of_mem_filter mem), outside⟩
    rcases List.mem_cons.mp left with rfl | free
    · exact not_taken taken
    · exact not_free free

/-- Every permitted action keeps the invariant. -/
theorem Sound.step (sound : Sound device state) {action : Action}
    (permitted : Permitted state action) (step_eq : step device state action = .ok next) :
    Sound device next := by
  cases action with
  | create size =>
      cases step_eq
      exact sound.create (replaces_empty (by nofun) (Vmo.frameAt_new size))
  | createFile size blockSize =>
      cases step_eq
      exact sound.create (replaces_empty (by nofun) (Vmo.frameAt_new size))
  | createPhys physAddr size =>
      obtain ⟨_, memory, done⟩ := bind_eq_ok.mp step_eq
      cases done
      exact sound.createPhys (guarded_eq_ok.mp memory)
  | retain id =>
      obtain ⟨entry, object_eq, done⟩ := bind_eq_ok.mp step_eq
      cases done
      exact sound.recount (object_ok object_eq) rfl le_rfl
  | release id =>
      obtain ⟨entry, object_eq, done⟩ := bind_eq_ok.mp step_eq
      cases done
      have released : Sound device
          (state.replace id (some { entry with holders := entry.holders - 1 }) [] []) :=
        sound.recount (object_ok object_eq) rfl le_rfl
      exact released.dropUnreferenced id
  | getPage id offset disk supply =>
      obtain ⟨entry, -, step_eq⟩ := bind_eq_ok.mp step_eq
      obtain ⟨⟨result, after⟩, request_eq, done⟩ := bind_eq_ok.mp step_eq
      cases done
      exact (sound.request request_eq).1.1
  | resize id newSize =>
      obtain ⟨entry, object_eq, done⟩ := bind_eq_ok.mp step_eq
      split at done
      · cases done
        exact sound
      next store freed resize_eq =>
        cases done
        exact sound.resize (object_ok object_eq) permitted resize_eq
  | clone id offset len supply =>
      obtain ⟨entry, object_eq, step_eq⟩ := bind_eq_ok.mp step_eq
      obtain ⟨_, supplies_eq, step_eq⟩ := bind_eq_ok.mp step_eq
      obtain ⟨⟨result, rest⟩, clone_eq, done⟩ := bind_eq_ok.mp step_eq
      obtain ⟨nodup, free⟩ := guarded_eq_ok.mp supplies_eq
      cases result with
      | error problem =>
          cases done
          exact sound
      | ok child =>
          cases done
          exact sound.clone nodup free (panics_eq_ok.mp clone_eq)
  | map pid id vaddr len flags nodePtr => exact sound.mapIntoProc step_eq
  | unmap pid vaddr len => exact sound.unmap step_eq
  | fault pid addr errorCode disk supply => exact sound.beginFault step_eq
  | enter index tableFrames => exact sound.enterPage permitted step_eq
  | pin id offset len =>
      obtain ⟨entry, object_eq, done⟩ := bind_eq_ok.mp step_eq
      split at done
      · cases done
        exact sound
      next offsets offsets_eq =>
        cases done
        refine sound.setPins fun pin mem => ?_
        rcases List.mem_cons.mp mem with rfl | mem
        · exact ⟨⟨entry, object_ok object_eq⟩, by simp⟩
        · exact sound.referenced.pinned pin mem
  | pinPage index disk supply => exact sound.pinPage step_eq
  | unpin index =>
      obtain ⟨pin, -, step_eq⟩ := bind_eq_ok.mp step_eq
      obtain ⟨_, -, done⟩ := bind_eq_ok.mp step_eq
      cases done
      exact sound.unpin index pin.vmo
  | take frame =>
      obtain ⟨_, free, done⟩ := bind_eq_ok.mp step_eq
      cases done
      exact sound.take (guarded_eq_ok.mp free)
  | give frame =>
      obtain ⟨_, taken, done⟩ := bind_eq_ok.mp step_eq
      cases done
      exact sound.give (guarded_eq_ok.mp taken)

theorem Sound.boot (boot : Boot device state) : Sound device state := by
  have empty (pid : Nat) : (state.processes pid).head = none ∧
      (state.processes pid).effects = [] := by
    obtain ⟨nodes, l4Addr, tables, process_eq⟩ := boot.processes pid
    rw [process_eq]
    exact ⟨rfl, rfl⟩
  have absent (id : Nat) (entry : Entry) : state.vmos id ≠ some entry := by
    rw [boot.vmos id]
    nofun
  refine ⟨⟨fun id _ => boot.vmos id, fun id entry entry_eq => absurd entry_eq (absent id entry),
    fun id entry entry_eq => absurd entry_eq (absent id entry), fun frame mem => ?_, boot.apart,
    ?_, ?_⟩, fun pid => ⟨∅, ?_, ?_, ?_, ?_⟩, ?_, ?_, ?_⟩
  · exact boot.ordinary frame (List.mem_append.mpr mem)
  · rintro id offset frame ⟨entry, entry_eq, -⟩
    exact absurd entry_eq (absent id entry)
  · rintro id offset other place frame ⟨entry, entry_eq, -⟩
    exact absurd entry_eq (absent id entry)
  · intro ptr head_eq
    rw [(empty pid).1] at head_eq
    cases head_eq
  · simp
  · simp
  · simp
  · rintro pid frame ⟨size, page, phys, page_eq, -⟩
    rw [(empty pid).2] at page_eq
    cases page_eq
  · simp [boot.faults]
  · simp [boot.pins]

/-- In every run in which shrinking a memory object removes no page that is still referred to, and
2 MiB pages are entered only over frames of mapped memory objects, no frame that a process maps or
a `PinnedVmo` lists is ever free. -/
theorem reachable_frames_not_free {device : Nat → Bool} {state final : State}
    {actions : List Action} (boot : Boot device state)
    (permits : (system device).Permits state actions)
    (run_eq : (system device).run state actions = .ok final) : NoneFree final := by
  have keeps (state : State) (action : Action) (next : State) (sound : Sound device state)
      (permitted : (system device).permitted state action)
      (step_eq : (system device).step state action = .ok next) : Sound device next :=
    sound.step permitted step_eq
  exact ((system device).run_keeps keeps (Sound.boot boot) permits run_eq).noneFree

/-- No memory objects yet, one process, and no device memory. -/
def bare (free taken : List Nat) : State where
  processes _ := .new (fun _ => ⟨0, 0, 0, none, none, none, 0⟩) 0x1000 fun _ _ => .unused
  vmos _ := none
  nextVmo := 0
  free := free
  taken := taken
  faults := []
  pins := []

theorem bare_boot {free taken : List Nat} (nonzero : ∀ frame ∈ free ++ taken, frame ≠ 0)
    (apart : ∀ frame ∈ taken, frame ∉ free) : Boot (fun _ => false) (bare free taken) :=
  ⟨fun _ => ⟨_, _, _, rfl⟩, fun _ => rfl, rfl, rfl, fun frame mem => ⟨nonzero frame mem, rfl⟩,
    apart⟩

/-- Map the first memory object and enter its first page. -/
def mapFirst : List Action :=
  [.map 0 0 0 0x1000 VM_FLAG_WRITE 0, .fault 0 VM_BASE_ADDR 0 (fun _ => true) [0x5000],
    .enter 0 [0x6000, 0x7000, 0x8000]]

/-- A memory object loses its second page, and its first page is then mapped. -/
def shrinkThenMap : List Action :=
  [.create 0x2000, .getPage 0 0x1000 (fun _ => true) [0x9000], .resize 0 0x1000] ++ mapFirst

/-- The frame of the first page is mapped and not free. -/
theorem reachable_frames_not_free_shrunk :
    ∃ final, (system fun _ => false).run (bare [0x5000, 0x9000] [0x6000, 0x7000, 0x8000])
        shrinkThenMap = .ok final ∧ final.Maps 0 0x5000 ∧ NoneFree final := by
  have permits : (system fun _ => false).Permits
      (bare [0x5000, 0x9000] [0x6000, 0x7000, 0x8000]) shrinkThenMap := by
    refine Machine.permits_cons _ trivial rfl (Machine.permits_cons _ trivial rfl
      (Machine.permits_cons _ ?_ rfl (Machine.permits_cons _ trivial rfl
        (Machine.permits_cons _ trivial rfl (Machine.permits_cons _ ?_ rfl trivial)))))
    · rintro entry - - - offset - frame - (⟨pid, size, page, phys, page_eq, -⟩ | ⟨fault, mem, -⟩ |
        ⟨pin, mem, -⟩)
      · cases page_eq
      · cases mem
      · cases mem
    · intro fault fault_eq node area_eq huge
      cases fault_eq
      cases area_eq
      cases huge
  have evaluated : ((system fun _ => false).run (bare [0x5000, 0x9000] [0x6000, 0x7000, 0x8000])
      shrinkThenMap).map (fun final =>
        mappedPages (final.processes 0).effects .Normal (VM_BASE_ADDR / NORMAL_PAGE_SIZE)) =
      .ok (some 0x5000) := by
    rfl
  obtain ⟨final, run_eq, page_eq⟩ := map_eq_ok.mp evaluated
  refine ⟨final, run_eq, ⟨.Normal, _, _, page_eq, by simp [coveredFrames_normal]⟩, ?_⟩
  exact reachable_frames_not_free (bare_boot (by decide) (by decide)) permits run_eq

/-- Shrinking a memory object frees a frame that a process still maps. -/
theorem mapped_frame_freed :
    ¬∀ (device : Nat → Bool) (state final : State) (actions : List Action), Boot device state →
      (system device).run state actions = .ok final → NoneFree final := by
  intro always
  have evaluated : ((system fun _ => false).run (bare [0x5000] [0x6000, 0x7000, 0x8000])
      (.create 0x1000 :: mapFirst ++ [.resize 0 0])).map
        (fun final => (final.free,
          mappedPages (final.processes 0).effects .Normal (VM_BASE_ADDR / NORMAL_PAGE_SIZE))) =
      .ok ([0x5000], some 0x5000) := by
    rfl
  obtain ⟨final, run_eq, values⟩ := map_eq_ok.mp evaluated
  obtain ⟨free_eq, page_eq⟩ := Prod.mk.inj values
  have none_free := always _ _ final _ (bare_boot (by decide) (by decide))
    run_eq
  refine none_free.mapped 0 0x5000 ⟨.Normal, _, _, page_eq, ?_⟩ ?_
  · simp [coveredFrames_normal]
  · simp [free_eq]

end Runs

end Vespertine.FrameSystem
