import Mathlib.Data.List.AList
import Mathlib.Data.List.Sort
import Vespertine.Kernel
import Vespertine.Library.Transition

/-!
# Memory objects

A memory object (VMO) owns physical frames and hands them out by page offset.  Anonymous objects
take a frame from the page allocator when a page is first requested, file objects also fill it from
disk, and physical objects stand for fixed device memory.  The page allocator is given by the frames
it returns next; it stops the kernel when it has none.
-/

namespace Vespertine

/-- `ALLOCATOR.alloc(BlockSize::Normal)`. -/
def allocFrame : List Nat → Kernel (Nat × List Nat)
  | [] => .error .outOfMemory
  | frame :: supply => .ok (frame, supply)

/-- Frames by page offset; 0 stands for a page without a frame. -/
abbrev PageMap := AList fun _ : Nat => Nat

/-- An anonymous or physical memory object. -/
structure Vmo where
  size : Nat
  pages : PageMap
  isPhysical : Bool
deriving DecidableEq

/-- Pages of an object of the given size. -/
def pageCount (size : Nat) : Nat := (size + (NORMAL_PAGE_SIZE - 1)) / NORMAL_PAGE_SIZE

namespace Vmo

/-- The frame of a page that has one. -/
def frameAt (vmo : Vmo) (offset : Nat) : Option Nat :=
  (vmo.pages.lookup offset).filter (· ≠ 0)

/-- Offsets of the pages of an object of the given size. -/
def pageOffsets (size : Nat) : List Nat := (List.range (pageCount size)).map (· * NORMAL_PAGE_SIZE)

/-- Enter a page at every given offset. -/
def enterPages (pages : PageMap) (frame : Nat → Nat) (offsets : List Nat) : PageMap :=
  offsets.foldl (fun pages offset => pages.insert offset (frame offset)) pages

/-- An anonymous object without frames. -/
def new (size : Nat) : Vmo := ⟨size, enterPages ∅ (fun _ => 0) (pageOffsets size), false⟩

/-- An object for the device memory at an address. -/
def newPhys (physAddr size : Nat) : Vmo :=
  ⟨size, enterPages ∅ (physAddr + ·) (pageOffsets size), true⟩

/-- The frame of a page, allocated on the first request. -/
def requestPage (vmo : Vmo) (offset : Nat) (supply : List Nat) :
    Kernel (Except Unit Nat × Vmo × List Nat) :=
  if offset ≥ vmo.size then
    .ok (.error (), vmo, supply)
  else
    match vmo.frameAt offset with
    | some pfn => .ok (.ok pfn, vmo, supply)
    | none =>
        if vmo.isPhysical then
          .ok (.error (), vmo, supply)
        else do
          let (pfn, supply) ← allocFrame supply
          return (.ok pfn, { vmo with pages := vmo.pages.insert offset pfn }, supply)

/-- The pages in the order of their offsets, in which the map iterates over them. -/
def ascending (pages : PageMap) : List (Sigma fun _ : Nat => Nat) :=
  pages.entries.insertionSort fun page other => page.1 ≤ other.1

/-- Frames of the pages from an offset on. -/
def framesFrom (vmo : Vmo) (start : Nat) : List Nat :=
  ((ascending vmo.pages).filter fun page => page.1 ≥ start ∧ page.2 ≠ 0).map (·.2)

/-- Remove the pages from an offset on. -/
def removeFrom (pages : PageMap) (start : Nat) : PageMap :=
  (pages.keys.filter (· ≥ start)).foldl (fun pages offset => pages.erase offset) pages

/-- Enter an empty page at every given offset that has none. -/
def padPages (pages : PageMap) (offsets : List Nat) : PageMap :=
  offsets.foldl (fun pages offset => if offset ∈ pages then pages else pages.insert offset 0) pages

/-- Change the size; the result carries the frames returned to the page allocator. -/
def resizeObject (vmo : Vmo) (newSize : Nat) : Except Unit (Vmo × List Nat) :=
  if vmo.isPhysical then
    .error ()
  else if newSize = vmo.size then
    .ok (vmo, [])
  else if newSize < vmo.size then
    .ok ({ vmo with size := newSize, pages := removeFrom vmo.pages newSize },
      vmo.framesFrom newSize)
  else
    .ok ({ vmo with size := newSize, pages := padPages vmo.pages (pageOffsets newSize) }, [])

/-- A new frame for every page of a clone. -/
def clonePages : PageMap → List Nat → List Nat → Kernel (PageMap × List Nat)
  | pages, [], supply => .ok (pages, supply)
  | pages, offset :: offsets, supply => do
      let (pfn, supply) ← allocFrame supply
      clonePages (pages.insert offset pfn) offsets supply

/-- An anonymous copy of a range. -/
def cloneRange (vmo : Vmo) (offset len : Nat) (supply : List Nat) :
    Kernel (Except Unit Vmo × List Nat) :=
  if vmo.isPhysical then
    .ok (.error (), supply)
  else if wrappingAdd offset len > vmo.size then
    .ok (.error (), supply)
  else do
    let (pages, supply) ← clonePages ∅ (pageOffsets len) supply
    return (.ok ⟨len, pages, false⟩, supply)

/-- Frames returned to the page allocator when the last reference goes. -/
def drop (vmo : Vmo) : List Nat := if vmo.isPhysical then [] else vmo.framesFrom 0

/-- Offsets of the pages that `pin` requests, in order. -/
def pinOffsets (vmo : Vmo) (offset len : Nat) : Except Unit (List Nat) :=
  if wrappingAdd offset len > vmo.size then
    .error ()
  else
    let startPage := offset / NORMAL_PAGE_SIZE
    let endPage := pageCount (wrappingAdd offset len)
    .ok ((List.range' startPage (endPage - startPage)).map (· * NORMAL_PAGE_SIZE))

end Vmo

/-- A memory object filled from a file, with the block size of its file system. -/
structure FileVmo where
  anonymousVmo : Vmo
  blockSize : Nat
deriving DecidableEq

namespace FileVmo

/-- Whether every block of a page can be read; `disk` says so for each block of the file. -/
def loadPage (file : FileVmo) (disk : Nat → Bool) (offset : Nat) : Bool :=
  (List.range (NORMAL_PAGE_SIZE / file.blockSize)).all fun block =>
    disk (offset / file.blockSize + block)

/-- The frame of a page, allocated and filled on the first request.  When a block cannot be read
the frame is neither stored nor returned. -/
def requestPage (file : FileVmo) (disk : Nat → Bool) (offset : Nat) (supply : List Nat) :
    Kernel (Except Unit Nat × FileVmo × List Nat) :=
  if offset ≥ file.anonymousVmo.size then
    .ok (.error (), file, supply)
  else
    match file.anonymousVmo.frameAt offset with
    | some pfn => .ok (.ok pfn, file, supply)
    | none => do
        let (pagePhys, supply) ← allocFrame supply
        if pagePhys = 0 then
          return (.error (), file, supply)
        else if file.loadPage disk offset then
          let pages := file.anonymousVmo.pages.insert offset pagePhys
          let anonymousVmo := { file.anonymousVmo with pages }
          return (.ok pagePhys, { file with anonymousVmo }, supply)
        else
          return (.error (), file, supply)

end FileVmo

/-- The implementations of the `PagedBackingStore` trait. -/
inductive PagedBackingStore
  | plain (vmo : Vmo)
  | fileBacked (file : FileVmo)
deriving DecidableEq

section Frames

variable {vmo : Vmo} {offset frame : Nat}

theorem Vmo.frameAt_eq_some :
    vmo.frameAt offset = some frame ↔ vmo.pages.lookup offset = some frame ∧ frame ≠ 0 := by
  simp [frameAt, Option.filter_eq_some_iff]

theorem Vmo.frameAt_insert_same (nonzero : frame ≠ 0) :
    { vmo with pages := vmo.pages.insert offset frame }.frameAt offset = some frame :=
  frameAt_eq_some.mpr ⟨AList.lookup_insert _, nonzero⟩

theorem Vmo.frameAt_insert_other {other : Nat} (ne : other ≠ offset) :
    { vmo with pages := vmo.pages.insert offset frame }.frameAt other = vmo.frameAt other := by
  rw [frameAt, frameAt, AList.lookup_insert_ne ne]

/-- A frame is entered in a page map only at the given offsets. -/
theorem Vmo.lookup_enterPages {offsets : List Nat} (pages : PageMap) (value : Nat → Nat) :
    (enterPages pages value offsets).lookup offset =
      if offset ∈ offsets then some (value offset) else pages.lookup offset := by
  induction offsets generalizing pages with
  | nil => simp [enterPages]
  | cons first offsets ih =>
      rw [enterPages, List.foldl_cons, ← enterPages, ih]
      by_cases later : offset ∈ offsets
      · simp [later]
      · by_cases same : offset = first
        · subst same
          simp [later]
        · simp [later, same, AList.lookup_insert_ne same]

theorem Vmo.frameAt_new (size offset : Nat) : (new size).frameAt offset = none := by
  rw [frameAt, new, lookup_enterPages]
  split <;> simp

theorem Vmo.frameAt_newPhys {physAddr size : Nat}
    (found : (newPhys physAddr size).frameAt offset = some frame) :
    offset ∈ pageOffsets size ∧ frame = physAddr + offset := by
  obtain ⟨stored, -⟩ := frameAt_eq_some.mp found
  rw [newPhys, lookup_enterPages] at stored
  split at stored
  next mem =>
    cases stored
    exact ⟨mem, rfl⟩
  next => simp at stored

theorem Vmo.mem_ascending {pages : PageMap} {page : Sigma fun _ : Nat => Nat} :
    page ∈ ascending pages ↔ page ∈ pages.entries :=
  (List.perm_insertionSort _ _).mem_iff

/-- Each offset is visited once. -/
theorem Vmo.nodup_ascending (pages : PageMap) : ((ascending pages).map (·.1)).Nodup :=
  ((List.perm_insertionSort _ _).map _).nodup_iff.mpr pages.nodupKeys

/-- The frames listed from an offset on are those of its pages. -/
theorem Vmo.mem_framesFrom {start : Nat} :
    frame ∈ vmo.framesFrom start ↔ ∃ offset ≥ start, vmo.frameAt offset = some frame := by
  simp only [framesFrom, List.mem_map, List.mem_filter, frameAt_eq_some, mem_ascending]
  constructor
  · rintro ⟨⟨offset, stored⟩, ⟨mem, kept⟩, rfl⟩
    simp only [decide_eq_true_eq] at kept
    exact ⟨offset, kept.1, AList.mem_lookup_iff.mpr mem, kept.2⟩
  · rintro ⟨offset, le, stored, nonzero⟩
    exact ⟨⟨offset, frame⟩, ⟨AList.mem_lookup_iff.mp stored, by simpa using ⟨le, nonzero⟩⟩, rfl⟩

theorem Vmo.lookup_eraseAll (offsets : List Nat) (pages : PageMap) :
    (offsets.foldl (fun pages offset => pages.erase offset) pages).lookup offset =
      if offset ∈ offsets then none else pages.lookup offset := by
  induction offsets generalizing pages with
  | nil => simp
  | cons first offsets ih =>
      rw [List.foldl_cons, ih]
      by_cases later : offset ∈ offsets
      · simp [later]
      · by_cases same : offset = first
        · subst same
          simp [later]
        · simp [later, same, AList.lookup_erase_ne same]

theorem Vmo.lookup_removeFrom (pages : PageMap) (start : Nat) :
    (removeFrom pages start).lookup offset =
      if start ≤ offset then none else pages.lookup offset := by
  rw [removeFrom, lookup_eraseAll]
  simp only [List.mem_filter, decide_eq_true_eq, ge_iff_le]
  by_cases le : start ≤ offset
  · simp only [le, and_true, if_true]
    split
    · rfl
    next absent => exact AList.lookup_eq_none.mpr fun mem => absent (AList.mem_keys.mp mem)
  · simp [le]

theorem Vmo.frameAt_padPages (offsets : List Nat) :
    { vmo with pages := padPages vmo.pages offsets }.frameAt offset = vmo.frameAt offset := by
  suffices padded : ∀ pages : PageMap,
      ((padPages pages offsets).lookup offset).filter (· ≠ 0) =
        (pages.lookup offset).filter (· ≠ 0) from padded vmo.pages
  induction offsets with
  | nil => exact fun pages => rfl
  | cons first offsets ih =>
      intro pages
      rw [padPages, List.foldl_cons, ← padPages, ih]
      split
      · rfl
      next absent =>
        by_cases same : offset = first
        · subst same
          simp [AList.lookup_eq_none.mpr absent]
        · rw [AList.lookup_insert_ne same]

end Frames

namespace PagedBackingStore

/-- The object that holds the pages. -/
def inner : PagedBackingStore → Vmo
  | .plain vmo => vmo
  | .fileBacked file => file.anonymousVmo

/-- Replace the object that holds the pages. -/
def withInner : PagedBackingStore → Vmo → PagedBackingStore
  | .plain _, vmo => .plain vmo
  | .fileBacked file, vmo => .fileBacked { file with anonymousVmo := vmo }

/-- `request_page` of either implementation. -/
def requestPage (store : PagedBackingStore) (disk : Nat → Bool) (offset : Nat)
    (supply : List Nat) : Kernel (Except Unit Nat × PagedBackingStore × List Nat) :=
  match store with
  | .plain vmo => do
      let (result, vmo, supply) ← vmo.requestPage offset supply
      return (result, .plain vmo, supply)
  | .fileBacked file => do
      let (result, file, supply) ← file.requestPage disk offset supply
      return (result, .fileBacked file, supply)

/-- `resize_object` of either implementation. -/
def resizeObject (store : PagedBackingStore) (newSize : Nat) :
    Except Unit (PagedBackingStore × List Nat) := do
  let (vmo, freed) ← store.inner.resizeObject newSize
  return (store.withInner vmo, freed)

section Specifications

variable {store next : PagedBackingStore} {disk : Nat → Bool} {offset : Nat}
  {supply rest : List Nat} {result : Except Unit Nat}

/-- Only plain objects are physical. -/
def Regular (store : PagedBackingStore) : Prop :=
  store.inner.isPhysical = true → ∃ vmo, store = .plain vmo

/-- What a request can do: answer from the pages it has, refuse, take a frame and lose it, or take
a frame and store it. -/
inductive Requested (store : PagedBackingStore) (offset : Nat) (supply : List Nat) :
    Except Unit Nat → PagedBackingStore → List Nat → Prop
  | found {frame : Nat} (found : store.inner.frameAt offset = some frame) :
      Requested store offset supply (.ok frame) store supply
  | refused : Requested store offset supply (.error ()) store supply
  | lost {frame : Nat} {rest : List Nat} (taken : supply = frame :: rest) :
      Requested store offset supply (.error ()) store rest
  | stored {frame : Nat} {rest : List Nat} (taken : supply = frame :: rest)
      (absent : store.inner.frameAt offset = none) (owned : store.inner.isPhysical = false) :
      Requested store offset supply (.ok frame) (store.withInner
        { store.inner with pages := store.inner.pages.insert offset frame }) rest

theorem allocFrame_ok {frame : Nat} (alloc_eq : allocFrame supply = .ok (frame, rest)) :
    supply = frame :: rest := by
  cases supply with
  | nil => cases alloc_eq
  | cons first supply =>
      cases alloc_eq
      rfl

theorem requested_plain {vmo after : Vmo}
    (request_eq : vmo.requestPage offset supply = .ok (result, after, rest)) :
    Requested (.plain vmo) offset supply result (.plain after) rest := by
  rw [Vmo.requestPage] at request_eq
  split at request_eq
  · cases request_eq
    exact .refused
  · split at request_eq
    next pfn found =>
      cases request_eq
      exact .found found
    next absent =>
      split at request_eq
      · cases request_eq
        exact .refused
      next owned =>
        obtain ⟨⟨pfn, left⟩, alloc_eq, done⟩ := bind_eq_ok.mp request_eq
        cases done
        exact .stored (allocFrame_ok alloc_eq) absent (Bool.eq_false_of_not_eq_true owned)

theorem requested_file {file after : FileVmo} (regular : Regular (.fileBacked file))
    (request_eq : file.requestPage disk offset supply = .ok (result, after, rest)) :
    Requested (.fileBacked file) offset supply result (.fileBacked after) rest := by
  have owned : file.anonymousVmo.isPhysical = false := by
    by_contra physical
    obtain ⟨vmo, ⟨⟩⟩ := regular (Bool.eq_true_of_not_eq_false physical)
  rw [FileVmo.requestPage] at request_eq
  split at request_eq
  · cases request_eq
    exact .refused
  · split at request_eq
    next pfn found =>
      cases request_eq
      exact .found found
    next absent =>
      obtain ⟨⟨pagePhys, left⟩, alloc_eq, done⟩ := bind_eq_ok.mp request_eq
      have taken := allocFrame_ok alloc_eq
      dsimp only at done
      split_ifs at done
      · cases done
        exact .lost taken
      · cases done
        exact .stored taken absent owned
      · cases done
        exact .lost taken

theorem requestPage_requested (regular : Regular store)
    (request_eq : store.requestPage disk offset supply = .ok (result, next, rest)) :
    Requested store offset supply result next rest := by
  cases store with
  | plain vmo =>
      obtain ⟨⟨answer, after, left⟩, inner_eq, done⟩ := bind_eq_ok.mp request_eq
      cases done
      exact requested_plain inner_eq
  | fileBacked file =>
      obtain ⟨⟨answer, after, left⟩, inner_eq, done⟩ := bind_eq_ok.mp request_eq
      cases done
      exact requested_file regular inner_eq

@[simp] theorem inner_withInner (vmo : Vmo) : (store.withInner vmo).inner = vmo := by
  cases store <;> rfl

theorem Regular.withInner {vmo : Vmo} (regular : Regular store)
    (same : vmo.isPhysical = store.inner.isPhysical) : Regular (store.withInner vmo) := by
  intro physical
  rw [inner_withInner, same] at physical
  obtain ⟨inner, rfl⟩ := regular physical
  exact ⟨vmo, rfl⟩

/-- What a change of size does: pages from the new size on may go, and the frames returned are
frames of pages that went. -/
structure Resized (store : PagedBackingStore) (newSize : Nat) (next : PagedBackingStore)
    (freed : List Nat) : Prop where
  owned : store.inner.isPhysical = false
  physical_eq : next.inner.isPhysical = store.inner.isPhysical
  regular : Regular store → Regular next
  kept : ∀ offset, next.inner.frameAt offset = store.inner.frameAt offset ∨
    newSize < store.inner.size ∧ newSize ≤ offset ∧ next.inner.frameAt offset = none
  freed : ∀ frame ∈ freed, ∃ offset, store.inner.frameAt offset = some frame ∧
    next.inner.frameAt offset = none

theorem resizeObject_resized {newSize : Nat} {freed : List Nat}
    (resize_eq : store.resizeObject newSize = .ok (next, freed)) :
    Resized store newSize next freed := by
  obtain ⟨⟨vmo, frames⟩, inner_eq, done⟩ := bind_eq_ok.mp resize_eq
  cases done
  rw [Vmo.resizeObject] at inner_eq
  split_ifs at inner_eq with physical equal shrinks
  · cases inner_eq
    refine ⟨by simpa using physical, by rw [inner_withInner], fun regular => ?_, fun offset => ?_,
      by simp⟩
    · exact regular.withInner rfl
    · exact .inl (by rw [inner_withInner])
  · cases inner_eq
    have removed (offset : Nat) :
        { store.inner with
          size := newSize, pages := Vmo.removeFrom store.inner.pages newSize }.frameAt offset =
          if newSize ≤ offset then none else store.inner.frameAt offset := by
      rw [Vmo.frameAt, Vmo.lookup_removeFrom]
      split <;> rfl
    refine ⟨by simpa using physical, by rw [inner_withInner], fun regular => ?_, fun offset => ?_,
      fun frame mem => ?_⟩
    · exact regular.withInner rfl
    · rw [inner_withInner, removed]
      split
      next le => exact .inr ⟨shrinks, le, rfl⟩
      next => exact .inl rfl
    · obtain ⟨offset, le, found⟩ := Vmo.mem_framesFrom.mp mem
      refine ⟨offset, found, ?_⟩
      rw [inner_withInner, removed, if_pos le]
  · cases inner_eq
    refine ⟨by simpa using physical, by rw [inner_withInner], fun regular => ?_, fun offset => ?_,
      by simp⟩
    · exact regular.withInner rfl
    · refine .inl ?_
      rw [inner_withInner]
      exact Vmo.frameAt_padPages (Vmo.pageOffsets newSize)

theorem clonePages_spec {pages after : PageMap} {offsets : List Nat}
    (clone_eq : Vmo.clonePages pages offsets supply = .ok (after, rest)) :
    ∃ used, supply = used ++ rest ∧
      (∀ offset frame, after.lookup offset = some frame →
        pages.lookup offset = some frame ∨ frame ∈ used) ∧
      (used.Nodup → (∀ offset frame, pages.lookup offset = some frame → frame ∉ used) →
        (∀ left right frame, pages.lookup left = some frame → pages.lookup right = some frame →
          left = right) →
        ∀ left right frame, after.lookup left = some frame → after.lookup right = some frame →
          left = right) := by
  induction offsets generalizing pages supply with
  | nil =>
      cases clone_eq
      exact ⟨[], rfl, fun _ _ found => .inl found, fun _ _ injective => injective⟩
  | cons first offsets ih =>
      obtain ⟨⟨pfn, left⟩, alloc_eq, done⟩ := bind_eq_ok.mp clone_eq
      obtain rfl := allocFrame_ok alloc_eq
      obtain ⟨used, rfl, origin, unique⟩ := ih done
      have inserted (offset frame : Nat)
          (found : (pages.insert first pfn).lookup offset = some frame) :
          offset = first ∧ frame = pfn ∨ offset ≠ first ∧ pages.lookup offset = some frame := by
        by_cases same : offset = first
        · subst same
          rw [AList.lookup_insert] at found
          exact .inl ⟨rfl, (Option.some.inj found).symm⟩
        · rw [AList.lookup_insert_ne same] at found
          exact .inr ⟨same, found⟩
      refine ⟨pfn :: used, rfl, fun offset frame found => ?_, fun nodup apart injective => ?_⟩
      · rcases origin offset frame found with earlier | later
        · rcases inserted offset frame earlier with ⟨-, rfl⟩ | ⟨-, old⟩
          · exact .inr List.mem_cons_self
          · exact .inl old
        · exact .inr (List.mem_cons_of_mem _ later)
      · obtain ⟨unused, used_nodup⟩ := List.nodup_cons.mp nodup
        refine unique used_nodup (fun offset frame found => ?_) fun one two frame first_eq
          second_eq => ?_
        · rcases inserted offset frame found with ⟨-, rfl⟩ | ⟨-, old⟩
          · exact unused
          · exact fun mem => apart offset frame old (List.mem_cons_of_mem _ mem)
        · rcases inserted one frame first_eq with ⟨rfl, rfl⟩ | ⟨one_ne, old⟩
          · rcases inserted two frame second_eq with ⟨rfl, -⟩ | ⟨-, old⟩
            · rfl
            · exact absurd List.mem_cons_self (apart two frame old)
          · rcases inserted two frame second_eq with ⟨rfl, rfl⟩ | ⟨-, other⟩
            · exact absurd List.mem_cons_self (apart one frame old)
            · exact injective one two frame old other

/-- A clone owns frames that were taken for it, each at one offset. -/
theorem cloneRange_spec {vmo child : Vmo} {len : Nat}
    (clone_eq : vmo.cloneRange offset len supply = .ok (.ok child, rest)) :
    ∃ used, supply = used ++ rest ∧ child.isPhysical = false ∧
      (∀ place frame, child.frameAt place = some frame → frame ∈ used) ∧
      (used.Nodup → ∀ left right frame, child.frameAt left = some frame →
        child.frameAt right = some frame → left = right) := by
  rw [Vmo.cloneRange] at clone_eq
  split_ifs at clone_eq
  · cases clone_eq
  · cases clone_eq
  · obtain ⟨⟨pages, left⟩, pages_eq, done⟩ := bind_eq_ok.mp clone_eq
    cases done
    obtain ⟨used, supply_eq, origin, unique⟩ := clonePages_spec pages_eq
    refine ⟨used, supply_eq, rfl, fun place frame found => ?_,
      fun nodup left right frame one two => ?_⟩
    · rcases origin place frame (Vmo.frameAt_eq_some.mp found).1 with old | mem
      · simp at old
      · exact mem
    · exact unique nodup (by simp) (by simp) left right frame (Vmo.frameAt_eq_some.mp one).1
        (Vmo.frameAt_eq_some.mp two).1

end Specifications

end PagedBackingStore
end Vespertine
