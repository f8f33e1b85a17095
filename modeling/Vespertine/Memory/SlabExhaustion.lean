import Vespertine.Memory.Slab

/-!
# The slab heap without pages

The page provider answers with a null pointer when it has no page.  `refill` does not look at the
answer: it divides the page at address 0 into objects and hands out the first of them, which happens
to be null.  Only a cache whose objects are whole pages writes nothing and keeps nothing.
-/

namespace Vespertine.Slab

variable {heap : Heap} {layout : Layout} {index : Fin 10}

/-- The first free object of a cache, null if there is none. -/
def MemCache.first (cache : MemCache) : Nat := cache.freelistHead.getD 0

/-- If the provider is asked and has no page, `alloc` returns null and changes nothing. -/
def Survives (heap : Heap) (layout : Layout) : Prop :=
  ∀ ptr calls after, heap.alloc layout 0 = .ok (ptr, calls, after) →
    (∃ size, .allocatePages size 0 ∈ calls) →
      ptr = 0 ∧ after.memory = heap.memory ∧
        ∀ index, (after.caches index).first = (heap.caches index).first

/-- The cache of the layout, if there is one, has a free object, or objects of a page. -/
def Spared (heap : Heap) (layout : Layout) : Prop :=
  ∀ index, sizeClass layout = some index → (heap.caches index).first = 0 →
    CACHE_SIZES index = NORMAL_PAGE_SIZE

section Call

/-- A division of the null page whose objects are pages. -/
theorem refill_page (size_eq : (heap.caches index).objectSize = CACHE_SIZES index)
    (page : CACHE_SIZES index = NORMAL_PAGE_SIZE) (answer : Nat) :
    heap.refill index answer = (answer, [.allocatePages NORMAL_PAGE_SIZE answer],
      { caches := Function.update heap.caches index ⟨CACHE_SIZES index, none⟩
        memory := heap.memory
        regions := ⟨answer, NORMAL_PAGE_SIZE⟩ :: heap.regions }) := by
  have one : NORMAL_PAGE_SIZE / CACHE_SIZES index = 1 := by
    rw [page]
    decide
  rw [Heap.refill_eq answer size_eq, dividedMemory, one]
  rfl

theorem many_objects : ∀ index, CACHE_SIZES index ≠ NORMAL_PAGE_SIZE →
    NORMAL_PAGE_SIZE / CACHE_SIZES index > 1 := by
  decide

/-- A cache with smaller objects keeps an address of the null page. -/
theorem refill_first (size_eq : (heap.caches index).objectSize = CACHE_SIZES index)
    (small : CACHE_SIZES index ≠ NORMAL_PAGE_SIZE) :
    ((heap.refill index 0).2.2.caches index).first = CACHE_SIZES index := by
  rw [Heap.refill_eq 0 size_eq]
  simp only [Function.update_self, MemCache.first, if_pos (many_objects index small),
    Option.getD_some, Nat.zero_add]

theorem update_first {head : Option Nat} (same : head.getD 0 = (heap.caches index).first)
    (size : Nat) (other : Fin 10) :
    (Function.update heap.caches index ⟨size, head⟩ other).first = (heap.caches other).first := by
  by_cases other_eq : other = index
  · rw [other_eq, Function.update_self]
    exact same
  · rw [Function.update_of_ne other_eq]

/-- The heap survives a null answer exactly if the layout is spared. -/
theorem survives_iff (sizes : ∀ index, (heap.caches index).objectSize = CACHE_SIZES index) :
    Survives heap layout ↔ Spared heap layout := by
  cases class_eq : sizeClass layout with
  | none =>
      refine iff_of_true (fun ptr calls after alloc_eq _ => ?_) fun index some_eq => ?_
      · rw [Heap.alloc_large class_eq] at alloc_eq
        cases alloc_eq
        exact ⟨rfl, rfl, fun _ => rfl⟩
      · cases class_eq.symm.trans some_eq
  | some index =>
      have alloc_eq : heap.alloc layout 0 = _ := Heap.alloc_small class_eq 0
      rcases heap.allocate_cases index 0 with ⟨block, head_eq, ne, pop_eq⟩ | ⟨null, refill_eq⟩
      · -- The provider is not asked.
        refine iff_of_true (fun ptr calls after ok asked => ?_) fun other some_eq empty => ?_
        · rw [alloc_eq, pop_eq] at ok
          cases ok
          obtain ⟨size, mem⟩ := asked
          cases mem
        · cases class_eq.symm.trans some_eq
          rw [MemCache.first, head_eq] at empty
          exact absurd empty ne
      · rw [refill_eq] at alloc_eq
        constructor
        · intro survives other some_eq _
          cases class_eq.symm.trans some_eq
          by_contra small
          obtain ⟨-, -, same⟩ := survives _ _ _ alloc_eq ⟨_, List.mem_cons_self⟩
          have kept : ((heap.refill index 0).2.2.caches index).first = _ := same index
          rw [refill_first (sizes index) small, MemCache.first, null] at kept
          exact (CACHE_SIZES_pos index).ne' kept
        · intro spared ptr calls after ok _
          rw [alloc_eq, refill_page (sizes index) (spared index class_eq null)] at ok
          cases ok
          have first_eq : Option.getD none 0 = _ := null.symm
          exact ⟨rfl, rfl, fun other => update_first first_eq _ other⟩

end Call

/-! ## Runs with a provider that runs out of pages -/

/-- An event with an answer of the provider that is not null, or a call of `alloc` during which the
provider has no page. -/
inductive Turn
  | event (event : Event)
  | refused (layout : Layout)

/-- One turn; a null answer is no region, and a null pointer is no block. -/
def turn (sys : System) : Turn → Kernel System
  | .event event => (step sys event).map Prod.snd
  | .refused layout => do
      let (ptr, _, heap) ← sys.heap.alloc layout 0
      let heap := { heap with regions := sys.heap.regions }
      return if ptr = 0 then
        { sys with heap }
      else
        { sys with heap, live := ⟨ptr, layout⟩ :: sys.live }

/-- Each layout that meets a null answer is spared. -/
def starved : Machine System Turn Panic where
  step := turn
  permitted
    | sys, .event event => permitted sys event
    | sys, .refused layout => Spared sys.heap layout

section Runs

variable {sys : System} {slabs lists : Fin 10 → List Nat}

/-- An empty cache stays empty if its objects are pages. -/
theorem Holds.dry (holds : Holds sys slabs lists) (null : (sys.heap.caches index).first = 0) :
    Holds
      { sys with
        heap := { sys.heap with
          caches := Function.update sys.heap.caches index ⟨CACHE_SIZES index, none⟩ } }
      slabs lists := by
  refine { holds with object_size := fun other => ?_, threaded := fun other => ?_ }
  · by_cases same : other = index
    · subst same
      simp
    · simp [same, holds.object_size]
  · have first_eq : (Function.update sys.heap.caches index ⟨CACHE_SIZES index, none⟩ other).first =
        (sys.heap.caches other).first :=
      update_first (show Option.getD none 0 = _ from null.symm) _ other
    have threaded := holds.threaded other
    rw [← MemCache.first, ← first_eq] at threaded
    exact threaded

theorem Sound.refused (sound : Sound sys) (spared : Spared sys.heap layout) :
    ∃ next, turn sys (.refused layout) = .ok next ∧ Sound next := by
  obtain ⟨slabs, lists, holds⟩ := sound
  cases class_eq : sizeClass layout with
  | none =>
      rw [turn, Heap.alloc_large class_eq]
      exact ⟨_, rfl, slabs, lists, holds⟩
  | some index =>
      rw [turn, Heap.alloc_small class_eq]
      rcases sys.heap.allocate_cases index 0 with ⟨block, head_eq, ne, pop_eq⟩ | ⟨null, refill_eq⟩
      · obtain ⟨lists, popped⟩ := holds.pop class_eq head_eq ne
        rw [pop_eq]
        exact ⟨_, congrArg Except.ok (if_neg ne), slabs, lists, popped⟩
      · rw [refill_eq, refill_page (holds.object_size index) (spared index class_eq null)]
        exact ⟨_, rfl, slabs, lists, holds.dry null⟩

/-- A heap survives a null answer exactly if the layout is spared, and where all layouts that meet
one are, it goes on handing out memory of the provider only. -/
theorem heap_survives_iff (heap : Heap) (layout : Layout)
    (sizes : ∀ index, (heap.caches index).objectSize = CACHE_SIZES index) :
    (Survives heap layout ↔ Spared heap layout) ∧
      ∀ memory turns, starved.Permits (System.new memory) turns →
        ∃ final, starved.run (System.new memory) turns = .ok final ∧ Kept final := by
  refine ⟨survives_iff sizes, fun memory turns permits => ?_⟩
  have keeps : ∀ sys turn, Sound sys → starved.permitted sys turn →
      ∃ next, starved.step sys turn = .ok next ∧ Sound next := by
    intro sys turn sound allowed
    cases turn with
    | event event =>
        obtain ⟨calls, next, step_eq, kept⟩ := sound.step allowed
        exact ⟨next, map_eq_ok.mpr ⟨_, step_eq, rfl⟩, kept⟩
    | refused layout => exact sound.refused allowed
  obtain ⟨final, run_eq, slabs, lists, holds⟩ := starved.run_ok keeps (Sound.new memory) permits
  exact ⟨final, run_eq, holds.kept⟩

/-- There is no page for a large block, and later one for a small one. -/
theorem heap_survives_iff_large :
    Survives (System.new fun _ => 0).heap twoPages ∧ ∃ final,
      starved.run (System.new fun _ => 0) [.refused twoPages, .event (.alloc halfPage 0x1000)] =
        .ok final ∧ final.live = [⟨0x1000, halfPage⟩] ∧ Kept final := by
  have spared : Spared (System.new fun _ => 0).heap twoPages := by
    intro index class_eq _
    cases (show sizeClass twoPages = none from rfl).symm.trans class_eq
  have permits : starved.Permits (System.new fun _ => 0)
      [.refused twoPages, .event (.alloc halfPage 0x1000)] := by
    refine starved.permits_cons spared rfl <| starved.permits_cons ?_ rfl trivial
    rintro ptr calls heap ⟨⟩ size given mem
    obtain ⟨rfl, rfl⟩ := Call.allocatePages.inj (List.mem_singleton.mp mem)
    exact ⟨by decide, by decide, by decide, nofun⟩
  obtain ⟨survives_iff, runs⟩ :=
    heap_survives_iff (System.new fun _ => 0).heap twoPages fun _ => rfl
  obtain ⟨final, run_eq, kept⟩ := runs (fun _ => 0) _ permits
  refine ⟨survives_iff.mpr spared, final, run_eq, ?_, kept⟩
  cases run_eq
  rfl

/-- The provider has no page for half a page.  The call returns null, and the next one the middle of
the null page, without asking the provider. -/
theorem null_page_divided :
    ∃ after again, (System.new fun _ => 0).heap.alloc halfPage 0 =
        .ok (0, [.allocatePages NORMAL_PAGE_SIZE 0], after) ∧
      (after.caches 8).first = 0x800 ∧ after.alloc halfPage 0x1000 = .ok (0x800, [], again) ∧
      ¬Survives (System.new fun _ => 0).heap halfPage := by
  refine ⟨_, _, rfl, rfl, rfl, fun survives => ?_⟩
  obtain ⟨-, -, same⟩ := survives _ _ _ rfl ⟨_, List.mem_cons_self⟩
  exact absurd (same 8) (by decide)

end Runs

end Vespertine.Slab
