import Vespertine.Memory.Backing
import Vespertine.Memory.VmoLedger

/-!
# The page keys of a memory object

The page map of an object is meant to have one entry for each page.  Its keys are the offsets that
callers ask for, and `request_page` takes them as they are: creation, growth, clones and pins use
page multiples, a request of user space or a fault in an area that does not start on a page may use
any offset below the size.
-/

namespace Vespertine

namespace Vmo

/-- Frames are at page multiples below the size, and not more of them than the size has pages. -/
def HoldsPages (vmo : Vmo) : Prop :=
  (∀ offset frame, vmo.frameAt offset = some frame →
      NORMAL_PAGE_SIZE ∣ offset ∧ offset < vmo.size) ∧
    (vmo.framesFrom 0).length ≤ pageCount vmo.size

/-- The pages of a pin are requested one after another, up to the first that is refused. -/
def pinPages : List Nat → Vmo → List Nat → Kernel (Except Unit (List Nat) × Vmo × List Nat)
  | [], vmo, supply => .ok (.ok [], vmo, supply)
  | offset :: offsets, vmo, supply => do
      let (addr, vmo, supply) ← vmo.requestPage offset supply
      match addr with
      | .error () => return (.error (), vmo, supply)
      | .ok addr => do
          let (rest, vmo, supply) ← pinPages offsets vmo supply
          return (rest.map (addr :: ·), vmo, supply)

/-- `Vmo::pin`, up to the flags of the frames. -/
def pin (vmo : Vmo) (offset len : Nat) (supply : List Nat) :
    Kernel (Except Unit (List Nat) × Vmo × List Nat) :=
  match vmo.pinOffsets offset len with
  | .error () => .ok (.error (), vmo, supply)
  | .ok offsets => pinPages offsets vmo supply

/-- Requests to an object: by its handles, by pins, and by faults in the areas that map it. -/
inductive Request
  | getPage (offset : Nat)
  | resize (newSize : Nat)
  | pin (offset len : Nat)
  | fault (node : VmaNode) (addr : Nat)

/-- An object, and the frames that the page allocator returns next. -/
structure Supplied where
  vmo : Vmo
  supply : List Nat

/-- A request for one page. -/
def Supplied.requestPage (state : Supplied) (offset : Nat) : Kernel Supplied := do
  let (_, vmo, supply) ← state.vmo.requestPage offset state.supply
  return ⟨vmo, supply⟩

/-- One request. -/
def serve (state : Supplied) : Request → Kernel Supplied
  | .getPage offset => state.requestPage offset
  | .resize newSize =>
      match state.vmo.resizeObject newSize with
      | .error () => .ok state
      | .ok (vmo, _) => .ok { state with vmo }
  | .pin offset len => do
      let (_, vmo, supply) ← state.vmo.pin offset len state.supply
      return ⟨vmo, supply⟩
  | .fault node addr => state.requestPage (VirtMemManager.faultOffset node addr)

/-- The page that is requested starts at a page multiple, or is refused. -/
def AsksPage (vmo : Vmo) (offset : Nat) : Prop := NORMAL_PAGE_SIZE ∣ offset ∨ vmo.size ≤ offset

/-- The offsets that come from outside are those of pages. -/
def AsksPages (state : Supplied) : Request → Prop
  | .getPage offset => AsksPage state.vmo offset
  | .fault node addr => AsksPage state.vmo (VirtMemManager.faultOffset node addr)
  | _ => True

/-- An object serving requests for pages. -/
def paging : Machine Supplied Request Panic where
  step := serve
  permitted := AsksPages

/-- The objects that `Vmo::new` and `clone_range` make. -/
inductive Created : Vmo → Prop
  | new (size : Nat) : Created (.new size)
  | clone {parent child : Vmo} {offset len : Nat} {supply rest : List Nat}
      (clone_eq : parent.cloneRange offset len supply = .ok (.ok child, rest)) : Created child

variable {vmo next : Vmo} {offset : Nat} {supply rest : List Nat} {result : Except Unit Nat}

/-- Frames at page multiples below the size are at most as many as its pages. -/
theorem holdsPages_iff : vmo.HoldsPages ↔ ∀ offset frame, vmo.frameAt offset = some frame →
    NORMAL_PAGE_SIZE ∣ offset ∧ offset < vmo.size := by
  refine and_iff_left_of_imp fun inside => ?_
  have keys_nodup : (((ascending vmo.pages).filter fun page => page.1 ≥ 0 ∧ page.2 ≠ 0).map
      (·.1)).Nodup := (nodup_ascending vmo.pages).sublist (List.filter_sublist.map _)
  have keys_subset : (((ascending vmo.pages).filter fun page => page.1 ≥ 0 ∧ page.2 ≠ 0).map
      (·.1)) ⊆ pageOffsets vmo.size := by
    intro offset mem
    obtain ⟨⟨key, frame⟩, entry_mem, rfl⟩ := List.mem_map.mp mem
    obtain ⟨stored, kept⟩ := List.mem_filter.mp entry_mem
    simp only [decide_eq_true_eq] at kept
    have entered := AList.mem_lookup_iff.mpr (mem_ascending.mp stored)
    obtain ⟨⟨page, rfl⟩, lt⟩ := inside key frame (frameAt_eq_some.mpr ⟨entered, kept.2⟩)
    rw [pageOffsets, List.mem_map]
    refine ⟨page, List.mem_range.mpr ?_, Nat.mul_comm _ _⟩
    simp only [pageCount, NORMAL_PAGE_SIZE] at lt ⊢
    omega
  have bound := (keys_nodup.subperm keys_subset).length_le
  simpa [framesFrom, pageOffsets] using bound

theorem paged_new (size : Nat) : (Vmo.new size).HoldsPages := by
  refine holdsPages_iff.mpr fun offset frame found => ?_
  rw [frameAt_new] at found
  cases found

/-- Created objects are not physical and have frames at their pages only. -/
theorem Created.holdsPages (created : Created vmo) : vmo.isPhysical = false ∧ vmo.HoldsPages := by
  cases created with
  | new size => exact ⟨rfl, paged_new size⟩
  | @clone parent _ offset len supply rest clone_eq =>
      rw [cloneRange] at clone_eq
      split_ifs at clone_eq
      · cases clone_eq
      · cases clone_eq
      · obtain ⟨⟨pages, left⟩, pages_eq, done⟩ := bind_eq_ok.mp clone_eq
        cases done
        obtain ⟨used, -, -, others, -⟩ := clonePages_zip pages_eq (nodup_pageOffsets len)
        refine ⟨rfl, holdsPages_iff.mpr fun place frame found => ?_⟩
        have mem : place ∈ pageOffsets len := by
          by_contra absent
          rw [frameAt, others place absent] at found
          simp at found
        refine ⟨?_, lt_of_mem_pageOffsets mem⟩
        obtain ⟨page, -, rfl⟩ := List.mem_map.mp mem
        exact Nat.dvd_mul_left _ _

/-- A request for one page keeps the keys in order exactly when it asks for a page. -/
theorem requestPage_iff (plain : vmo.isPhysical = false) (nonzero : 0 ∉ supply)
    (holds : vmo.HoldsPages)
    (request_eq : vmo.requestPage offset supply = .ok (result, next, rest)) :
    (next.HoldsPages ↔ vmo.AsksPage offset) ∧ next.isPhysical = false ∧ next.size = vmo.size ∧
      0 ∉ rest := by
  rw [requestPage] at request_eq
  split at request_eq
  next outside =>
    cases request_eq
    exact ⟨iff_of_true holds (.inr outside), plain, rfl, nonzero⟩
  next inside =>
    split at request_eq
    next pfn found =>
      cases request_eq
      exact ⟨iff_of_true holds (.inl (holds.1 offset pfn found).1), plain, rfl, nonzero⟩
    next absent =>
      rw [if_neg (by simp [plain])] at request_eq
      obtain ⟨⟨pfn, left⟩, alloc_eq, done⟩ := bind_eq_ok.mp request_eq
      cases done
      obtain rfl := PagedBackingStore.allocFrame_ok alloc_eq
      have pfn_ne : pfn ≠ 0 := fun zero => nonzero (zero ▸ List.mem_cons_self)
      refine ⟨⟨fun after => ?_, fun asks => ?_⟩, plain, rfl,
        fun mem => nonzero (List.mem_cons_of_mem _ mem)⟩
      · exact .inl (after.1 offset pfn (frameAt_insert_same pfn_ne)).1
      · refine holdsPages_iff.mpr fun place frame found => ?_
        by_cases same : place = offset
        · rw [same]
          exact ⟨asks.resolve_right inside, Nat.lt_of_not_le inside⟩
        · rw [frameAt_insert_other same] at found
          exact holds.1 place frame found

/-- A change of size keeps the keys in order. -/
theorem HoldsPages.resize {newSize : Nat} {freed : List Nat} (holds : vmo.HoldsPages)
    (resize_eq : vmo.resizeObject newSize = .ok (next, freed)) : next.HoldsPages := by
  rcases resizeObject_cases resize_eq with ⟨-, rfl, -⟩ | ⟨-, rfl, -⟩ | ⟨grows, rfl, -⟩
  · exact holds
  · refine holdsPages_iff.mpr fun offset frame found => ?_
    obtain ⟨lt, old⟩ := frameAt_of_shrink found
    exact ⟨(holds.1 offset frame old).1, lt⟩
  · refine holdsPages_iff.mpr fun offset frame found => ?_
    rw [frameAt_pad] at found
    obtain ⟨aligned, lt⟩ := holds.1 offset frame found
    exact ⟨aligned, lt.trans grows⟩

/-- A pin of page multiples keeps the keys in order. -/
theorem HoldsPages.pinPages {offsets : List Nat} {answer : Except Unit (List Nat)}
    (plain : vmo.isPhysical = false) (nonzero : 0 ∉ supply) (holds : vmo.HoldsPages)
    (aligned : ∀ offset ∈ offsets, NORMAL_PAGE_SIZE ∣ offset)
    (pin_eq : Vmo.pinPages offsets vmo supply = .ok (answer, next, rest)) :
    next.HoldsPages ∧ next.isPhysical = false ∧ 0 ∉ rest := by
  induction offsets generalizing vmo supply answer with
  | nil =>
      cases pin_eq
      exact ⟨holds, plain, nonzero⟩
  | cons offset offsets ih =>
      obtain ⟨⟨addr, middle, left⟩, request_eq, rest_eq⟩ := bind_eq_ok.mp pin_eq
      obtain ⟨holds_iff, middle_plain, -, left_nonzero⟩ :=
        requestPage_iff plain nonzero holds request_eq
      have middle_holds := holds_iff.mpr (.inl (aligned offset List.mem_cons_self))
      cases addr with
      | error refusal =>
          cases rest_eq
          exact ⟨middle_holds, middle_plain, left_nonzero⟩
      | ok addr =>
          obtain ⟨⟨later, after, remaining⟩, later_eq, done⟩ := bind_eq_ok.mp rest_eq
          cases done
          exact ih middle_plain left_nonzero middle_holds
            (fun other mem => aligned other (List.mem_cons_of_mem _ mem)) later_eq

/-- What every request keeps. -/
def Plain (state : Supplied) : Prop := state.vmo.isPhysical = false ∧ 0 ∉ state.supply

/-- A request that returns keeps the keys in order exactly when it asks for pages. -/
theorem serve_iff (state : Supplied) (request : Request) (after : Supplied) (plain : Plain state)
    (holds : state.vmo.HoldsPages) (serve_eq : serve state request = .ok after) :
    Plain after ∧ (after.vmo.HoldsPages ↔ AsksPages state request) := by
  have single (offset : Nat) (single_eq : state.requestPage offset = .ok after) :
      Plain after ∧ (after.vmo.HoldsPages ↔ state.vmo.AsksPage offset) := by
    obtain ⟨⟨addr, vmo, supply⟩, request_eq, done⟩ := bind_eq_ok.mp single_eq
    cases done
    obtain ⟨holds_iff, after_plain, -, nonzero⟩ := requestPage_iff plain.1 plain.2 holds request_eq
    exact ⟨⟨after_plain, nonzero⟩, holds_iff⟩
  cases request with
  | getPage offset => exact single offset serve_eq
  | fault node addr => exact single _ serve_eq
  | resize newSize =>
      rw [serve] at serve_eq
      split at serve_eq
      next =>
        cases serve_eq
        exact ⟨plain, iff_of_true holds trivial⟩
      next vmo freed resize_eq =>
        cases serve_eq
        refine ⟨⟨?_, plain.2⟩, iff_of_true (holds.resize resize_eq) trivial⟩
        rcases resizeObject_cases resize_eq with ⟨-, rfl, -⟩ | ⟨-, rfl, -⟩ | ⟨-, rfl, -⟩
        all_goals exact plain.1
  | pin offset len =>
      obtain ⟨⟨answer, vmo, supply⟩, pin_eq, done⟩ := bind_eq_ok.mp serve_eq
      cases done
      rw [pin] at pin_eq
      split at pin_eq
      next =>
        cases pin_eq
        exact ⟨plain, iff_of_true holds trivial⟩
      next offsets offsets_eq =>
        have aligned (place : Nat) (mem : place ∈ offsets) : NORMAL_PAGE_SIZE ∣ place := by
          rw [pinOffsets] at offsets_eq
          split at offsets_eq
          next => cases offsets_eq
          next =>
            cases offsets_eq
            obtain ⟨page, -, rfl⟩ := List.mem_map.mp mem
            exact Nat.dvd_mul_left _ _
        obtain ⟨pinned, after_plain, nonzero⟩ := holds.pinPages plain.1 plain.2 aligned pin_eq
        exact ⟨⟨after_plain, nonzero⟩, iff_of_true pinned trivial⟩

/-- An object has frames at its pages only, throughout a run of requests, exactly when every offset
that comes from outside is a page multiple or refused. -/
theorem holds_pages_iff {vmo : Vmo} {supply : List Nat} {requests : List Request} {final : Supplied}
    (created : Created vmo) (nonzero : 0 ∉ supply)
    (run_eq : paging.run ⟨vmo, supply⟩ requests = .ok final) :
    paging.Always (fun state => state.vmo.HoldsPages) ⟨vmo, supply⟩ requests ↔
      paging.Permits ⟨vmo, supply⟩ requests := by
  have start := created.holdsPages
  exact paging.always_iff_permits serve_iff ⟨start.1, nonzero⟩ start.2 run_eq

/-- An object of one page is asked for its page, pinned, grown and asked for the next one. -/
theorem holds_pages_one_page :
    paging.Always (fun state => state.vmo.HoldsPages) ⟨.new 4096, [0x5000, 0x6000]⟩
      [.getPage 0, .pin 0 10, .resize 8192, .getPage 4096] := by
  have run_eq : ∃ final, paging.run ⟨.new 4096, [0x5000, 0x6000]⟩
      [.getPage 0, .pin 0 10, .resize 8192, .getPage 4096] = .ok final := ⟨_, rfl⟩
  obtain ⟨final, run_eq⟩ := run_eq
  refine (holds_pages_iff (.new 4096) (by decide) run_eq).mpr ?_
  exact paging.permits_of_mem _ (by simp [paging, AsksPages, AsksPage, NORMAL_PAGE_SIZE])

/-- An object of one page holds two frames after its first and its second byte were asked for. -/
theorem two_frames_one_page :
    ∃ final, paging.run ⟨.new 4096, [0x5000, 0x6000]⟩ [.getPage 0, .getPage 1] = .ok final ∧
      final.vmo.size = 4096 ∧ final.vmo.framesFrom 0 = [0x5000, 0x6000] ∧
        ¬final.vmo.HoldsPages := by
  refine ⟨_, rfl, rfl, rfl, fun holds => ?_⟩
  exact absurd holds.2 (by decide)

end Vmo
end Vespertine
