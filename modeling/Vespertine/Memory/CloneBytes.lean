import Vespertine.Drivers.FileReads
import Vespertine.Library.Word
import Vespertine.Memory.VmoLedger

/-!
# The bytes of a clone

`clone_range` takes a frame for every page of the child and copies a page of the parent into it when
the parent has a frame at the offset where the page of the child starts.  A file object clones the
object that holds its pages.

A page of the child that has nothing to be copied keeps what its frame held before, and an offset
that is not a page multiple is looked up as it is.
-/

namespace Vespertine
namespace CloneBytes

open FileReads (Ram)

/-- Copy a page of the parent into a frame, if the parent has a frame for it. -/
def copyPage (vmo : Vmo) (parentOffset childPfn : Nat) (bytes : Memory) : Memory :=
  match vmo.frameAt parentOffset with
  | some parentPfn => bytes.copy parentPfn childPfn NORMAL_PAGE_SIZE
  | none => bytes

/-- The loop of `clone_range`. -/
def copyPages (vmo : Vmo) (offset : Nat) : List Nat → PageMap → Ram → Kernel (PageMap × Ram)
  | [], childPages, ram => .ok (childPages, ram)
  | pageOffset :: rest, childPages, ram => do
      let parentOffset := wrappingAdd offset pageOffset
      let (childPfn, supply) ← allocFrame ram.supply
      let bytes := copyPage vmo parentOffset childPfn ram.bytes
      copyPages vmo offset rest (childPages.insert pageOffset childPfn) { bytes, supply }

/-- `Vmo::clone_range`, with what it does to memory. -/
def cloneVmo (vmo : Vmo) (offset len : Nat) (ram : Ram) : Kernel (Except Unit Vmo × Ram) :=
  if vmo.isPhysical then
    .ok (.error (), ram)
  else if wrappingAdd offset len > vmo.size then
    .ok (.error (), ram)
  else do
    let (childPages, ram) ← copyPages vmo offset (Vmo.pageOffsets len) ∅ ram
    return (.ok ⟨len, childPages, false⟩, ram)

/-- `clone_range` of either implementation; a file object clones the pages it has in memory, and
the child is anonymous. -/
def cloneRange (store : PagedBackingStore) (offset len : Nat) (ram : Ram) :
    Kernel (Except Unit PagedBackingStore × Ram) := do
  let (child, ram) ← cloneVmo store.inner offset len ram
  return (child.map .plain, ram)

/-- The byte at a position of an object: the one in the frame of its page or, when the page has
none, the byte of the file, and 0 in an anonymous object. -/
def byteAt (store : PagedBackingStore) (contents : Nat → UInt8) (bytes : Memory) (pos : Nat) :
    UInt8 :=
  match store.inner.frameAt (pos / NORMAL_PAGE_SIZE * NORMAL_PAGE_SIZE) with
  | some frame => bytes (frame + pos % NORMAL_PAGE_SIZE)
  | none =>
      match store with
      | .plain _ => 0
      | .fileBacked _ => contents pos

/-- The frame whose bytes a page of the child has after the call: the frame that is copied, or else
the new frame as it was. -/
def sourceFrame (vmo : Vmo) (offset : Nat) (supply : List Nat) (page : Nat) : Nat :=
  (vmo.frameAt (offset + page * NORMAL_PAGE_SIZE)).getD (supply.getD page 0)

/-- Frames are pages, and the allocator returns each once and none that the object has. -/
structure Separate (vmo : Vmo) (supply : List Nat) : Prop where
  nodup : supply.Nodup
  nonzero : 0 ∉ supply
  aligned : ∀ frame ∈ supply, NORMAL_PAGE_SIZE ∣ frame
  owned_aligned : ∀ offset frame, vmo.frameAt offset = some frame → NORMAL_PAGE_SIZE ∣ frame
  unused : ∀ offset frame, vmo.frameAt offset = some frame → frame ∉ supply

/-- Every byte of the child is the byte of the parent at the time of the call. -/
def Copies (store : PagedBackingStore) (contents : Nat → UInt8) (ram : Ram) (offset len : Nat)
    (child : PagedBackingStore) (after : Ram) : Prop :=
  ∀ i < len, offset + i < store.inner.size ∧
    byteAt child contents after.bytes i = byteAt store contents ram.bytes (offset + i)

/-- The range lies in the parent; and for each page of the child the offset is a page multiple and
the parent has the page in memory, or the frame that is copied or left as it is happens to hold the
bytes of the parent. -/
structure Covered (store : PagedBackingStore) (contents : Nat → UInt8) (ram : Ram)
    (offset len : Nat) : Prop where
  inside : len = 0 ∨ offset + len ≤ store.inner.size
  pages : ∀ page < pageCount len,
    NORMAL_PAGE_SIZE ∣ offset ∧
        (store.inner.frameAt (offset + page * NORMAL_PAGE_SIZE)).isSome ∨
      ∀ i < NORMAL_PAGE_SIZE, page * NORMAL_PAGE_SIZE + i < len →
        ram.bytes (sourceFrame store.inner offset ram.supply page + i) =
          byteAt store contents ram.bytes (offset + (page * NORMAL_PAGE_SIZE + i))

variable {vmo : Vmo} {store child : PagedBackingStore} {contents : Nat → UInt8}
  {ram after : Ram} {offset len : Nat}

/-- A clone takes the same frames whatever memory holds. -/
theorem copyPages_forget (vmo : Vmo) (offset : Nat) (offsets : List Nat) (pages : PageMap)
    (ram : Ram) :
    (copyPages vmo offset offsets pages ram).map (fun done => (done.1, done.2.supply)) =
      Vmo.clonePages pages offsets ram.supply := by
  induction offsets generalizing pages ram with
  | nil => rfl
  | cons first offsets ih =>
      rw [copyPages, Vmo.clonePages]
      cases ram.supply with
      | nil => rfl
      | cons frame supply => exact ih (pages.insert first frame) ⟨_, supply⟩

theorem cloneVmo_forget (vmo : Vmo) (offset len : Nat) (ram : Ram) :
    (cloneVmo vmo offset len ram).map (fun answer => (answer.1, answer.2.supply)) =
      vmo.cloneRange offset len ram.supply := by
  rw [cloneVmo, Vmo.cloneRange, ← copyPages_forget vmo offset]
  split
  next => rfl
  next =>
    split
    next => rfl
    next => cases copyPages vmo offset (Vmo.pageOffsets len) ∅ ram <;> rfl

theorem byteAt_page (store : PagedBackingStore) (contents : Nat → UInt8) (bytes : Memory)
    {start frame i : Nat} (aligned : NORMAL_PAGE_SIZE ∣ start)
    (found : store.inner.frameAt start = some frame) (below : i < NORMAL_PAGE_SIZE) :
    byteAt store contents bytes (start + i) = bytes (frame + i) := by
  obtain ⟨page, rfl⟩ := aligned
  have start_eq : (NORMAL_PAGE_SIZE * page + i) / NORMAL_PAGE_SIZE * NORMAL_PAGE_SIZE =
      NORMAL_PAGE_SIZE * page := by
    rw [Nat.mul_add_div (by decide), Nat.div_eq_of_lt below, Nat.add_zero, Nat.mul_comm]
  simp only [byteAt, start_eq, found, Nat.mul_add_mod, Nat.mod_eq_of_lt below]

/-- Two frames that differ have no byte in common. -/
theorem apart_of_ne {left right i : Nat} (left_aligned : NORMAL_PAGE_SIZE ∣ left)
    (right_aligned : NORMAL_PAGE_SIZE ∣ right) (ne : left ≠ right) (below : i < NORMAL_PAGE_SIZE) :
    left + i < right ∨ right + NORMAL_PAGE_SIZE ≤ left + i := by
  obtain ⟨m, rfl⟩ := left_aligned
  obtain ⟨n, rfl⟩ := right_aligned
  simp only [NORMAL_PAGE_SIZE] at ne below ⊢
  omega

theorem copyPage_inside (vmo : Vmo) (parentOffset childPfn : Nat) (bytes : Memory) {i : Nat}
    (below : i < NORMAL_PAGE_SIZE) : copyPage vmo parentOffset childPfn bytes (childPfn + i) =
      bytes ((vmo.frameAt parentOffset).getD childPfn + i) := by
  rw [copyPage]
  cases vmo.frameAt parentOffset with
  | none => rfl
  | some parentPfn => exact bytes.copy_inside parentPfn below

theorem copyPage_outside (vmo : Vmo) (parentOffset : Nat) {childPfn addr : Nat} (bytes : Memory)
    (outside : addr < childPfn ∨ childPfn + NORMAL_PAGE_SIZE ≤ addr) :
    copyPage vmo parentOffset childPfn bytes addr = bytes addr := by
  rw [copyPage]
  cases vmo.frameAt parentOffset with
  | none => rfl
  | some parentPfn => exact bytes.copy_outside addr parentPfn outside

theorem Separate.rest {frame : Nat} {supply : List Nat}
    (separate : Separate vmo (frame :: supply)) : Separate vmo supply where
  nodup := separate.nodup.of_cons
  nonzero mem := separate.nonzero (List.mem_cons_of_mem _ mem)
  aligned frame mem := separate.aligned frame (List.mem_cons_of_mem _ mem)
  owned_aligned := separate.owned_aligned
  unused offset frame found mem := separate.unused offset frame found (List.mem_cons_of_mem _ mem)

/-- The loop leaves in each new frame the page that it copies, or what was there, and no other byte
changes. -/
theorem copyPages_bytes {offsets : List Nat} {pages childPages : PageMap}
    (separate : Separate vmo ram.supply)
    (copy_eq : copyPages vmo offset offsets pages ram = .ok (childPages, after)) :
    ∃ used, ram.supply = used ++ after.supply ∧ used.length = offsets.length ∧
      (∀ pair ∈ offsets.zip used, ∀ i < NORMAL_PAGE_SIZE, after.bytes (pair.2 + i) =
        ram.bytes ((vmo.frameAt (wrappingAdd offset pair.1)).getD pair.2 + i)) ∧
      ∀ addr, (∀ frame ∈ used, addr < frame ∨ frame + NORMAL_PAGE_SIZE ≤ addr) →
        after.bytes addr = ram.bytes addr := by
  induction offsets generalizing pages ram with
  | nil =>
      cases copy_eq
      exact ⟨[], rfl, rfl, by simp, fun _ _ => rfl⟩
  | cons first offsets ih =>
      obtain ⟨bytes, supply⟩ := ram
      obtain ⟨⟨frame, supply⟩, alloc_eq, rest_eq⟩ := bind_eq_ok.mp copy_eq
      obtain rfl := PagedBackingStore.allocFrame_ok alloc_eq
      obtain ⟨used, taken_eq, length_eq, copied, kept⟩ := ih separate.rest rest_eq
      dsimp only at taken_eq copied kept
      obtain rfl := taken_eq
      have frame_aligned := separate.aligned frame List.mem_cons_self
      have not_later : frame ∉ used := fun mem =>
        (List.nodup_cons.mp separate.nodup).1 (List.mem_append_left _ mem)
      have other_aligned (other : Nat) (mem : other ∈ used) : NORMAL_PAGE_SIZE ∣ other :=
        separate.aligned other (List.mem_cons_of_mem _ (List.mem_append_left _ mem))
      refine ⟨frame :: used, rfl, by simp [length_eq], fun pair mem i below => ?_,
        fun addr outside => ?_⟩
      · rcases List.mem_cons.mp mem with rfl | mem
        · rw [kept, copyPage_inside vmo _ frame bytes below]
          intro other other_mem
          refine apart_of_ne frame_aligned (other_aligned other other_mem) ?_ below
          rintro rfl
          exact not_later other_mem
        · have pair_mem := (List.of_mem_zip mem).2
          rw [copied pair mem i below, copyPage_outside]
          cases parent_eq : vmo.frameAt (wrappingAdd offset pair.1) with
          | none =>
              refine apart_of_ne (other_aligned _ pair_mem) frame_aligned ?_ below
              rintro rfl
              exact not_later pair_mem
          | some parent =>
              refine apart_of_ne (separate.owned_aligned _ _ parent_eq) frame_aligned ?_ below
              rintro rfl
              exact separate.unused _ _ parent_eq List.mem_cons_self
      · rw [kept addr fun other mem => outside other (List.mem_cons_of_mem _ mem),
          copyPage_outside vmo _ bytes (outside frame List.mem_cons_self)]

/-- What the child has in memory after the call. -/
theorem byteAt_child {child : Vmo} (separate : Separate vmo ram.supply)
    (fits : offset + len < wordSize)
    (clone_eq : cloneVmo vmo offset len ram = .ok (.ok child, after)) {page i : Nat}
    (below : i < NORMAL_PAGE_SIZE) (inside : page * NORMAL_PAGE_SIZE + i < len) :
    byteAt (.plain child) contents after.bytes (page * NORMAL_PAGE_SIZE + i) =
      ram.bytes (sourceFrame vmo offset ram.supply page + i) := by
  rw [cloneVmo] at clone_eq
  split_ifs at clone_eq
  · cases clone_eq
  · cases clone_eq
  · obtain ⟨⟨childPages, last⟩, copy_eq, done⟩ := bind_eq_ok.mp clone_eq
    cases done
    obtain ⟨used, taken_eq, length_eq, copied, -⟩ := copyPages_bytes separate copy_eq
    have forget_eq := copyPages_forget vmo offset (Vmo.pageOffsets len) ∅ ram
    rw [copy_eq] at forget_eq
    obtain ⟨entered, entered_eq, -, -, entries⟩ :=
      Vmo.clonePages_zip forget_eq.symm (Vmo.nodup_pageOffsets len)
    obtain rfl : entered = used := List.append_cancel_right (entered_eq.symm.trans taken_eq)
    have page_lt : page < pageCount len := by
      simp only [pageCount, NORMAL_PAGE_SIZE] at inside ⊢
      omega
    have page_used : page < entered.length := by
      simpa [length_eq, Vmo.pageOffsets] using page_lt
    have mem : (page * NORMAL_PAGE_SIZE, entered[page]) ∈
        (Vmo.pageOffsets len).zip entered := by
      have both : page < ((Vmo.pageOffsets len).zip entered).length := by
        simpa [Vmo.pageOffsets] using ⟨page_lt, page_used⟩
      exact List.mem_iff_getElem.mpr ⟨page, both, by simp [Vmo.pageOffsets]⟩
    have frame_mem : entered[page] ∈ ram.supply := by
      rw [taken_eq]
      exact List.mem_append_left _ (List.getElem_mem page_used)
    have found : (Vmo.mk len childPages false).frameAt (page * NORMAL_PAGE_SIZE) =
        some entered[page] :=
      Vmo.frameAt_eq_some.mpr ⟨entries _ mem, fun zero => separate.nonzero (zero ▸ frame_mem)⟩
    have supply_eq : ram.supply.getD page 0 = entered[page] := by
      rw [taken_eq, List.getD_eq_getElem?_getD, List.getElem?_append_left page_used,
        List.getElem?_eq_getElem page_used, Option.getD_some]
    have place_lt : offset + page * NORMAL_PAGE_SIZE < wordSize := by omega
    rw [byteAt_page (.plain _) contents _ (Nat.dvd_mul_left _ _) found below, copied _ mem i below,
      sourceFrame, supply_eq, wrappingAdd_of_lt place_lt]

theorem cloneRange_ok (clone_eq : cloneRange store offset len ram = .ok (.ok child, after)) :
    ∃ vmo, child = .plain vmo ∧ cloneVmo store.inner offset len ram = .ok (.ok vmo, after) := by
  obtain ⟨⟨answer, last⟩, inner_eq, done⟩ := bind_eq_ok.mp clone_eq
  cases answer with
  | error refusal => cases done
  | ok vmo =>
      cases done
      exact ⟨vmo, rfl, inner_eq⟩

/-- A clone shows the bytes of its parent exactly when its range lies in the parent, and every page
of it is copied from a page of the parent or finds the bytes of the parent where it looks. -/
theorem copies_bytes_iff (separate : Separate store.inner ram.supply)
    (size_lt : store.inner.size < wordSize)
    (clone_eq : cloneRange store offset len ram = .ok (.ok child, after)) :
    Copies store contents ram offset len child after ↔ Covered store contents ram offset len := by
  obtain ⟨vmo, rfl, inner_eq⟩ := cloneRange_ok clone_eq
  constructor
  · intro copies
    have inside : len = 0 ∨ offset + len ≤ store.inner.size := by
      by_contra outside
      have last_byte := (copies (len - 1) (by omega)).1
      omega
    refine ⟨inside, fun page _ => .inr fun i below in_child => ?_⟩
    have fits : offset + len < wordSize := by omega
    rw [← (copies _ in_child).2, byteAt_child separate fits inner_eq below in_child]
  · intro covered i in_child
    have fits : offset + len ≤ store.inner.size := covered.inside.resolve_left (by omega)
    refine ⟨by omega, ?_⟩
    have fits_word : offset + len < wordSize := by omega
    obtain ⟨page, j, below, rfl⟩ :
        ∃ page j, j < NORMAL_PAGE_SIZE ∧ i = page * NORMAL_PAGE_SIZE + j :=
      ⟨_, _, Nat.mod_lt _ (by decide), (Nat.div_add_mod' i NORMAL_PAGE_SIZE).symm⟩
    rw [byteAt_child separate fits_word inner_eq below in_child]
    have page_lt : page < pageCount len := by
      simp only [pageCount, NORMAL_PAGE_SIZE] at in_child below ⊢
      omega
    rcases covered.pages page page_lt with ⟨aligned, present⟩ | holds
    · obtain ⟨frame, found⟩ := Option.isSome_iff_exists.mp present
      have start_aligned : NORMAL_PAGE_SIZE ∣ offset + page * NORMAL_PAGE_SIZE :=
        Nat.dvd_add aligned (Nat.dvd_mul_left _ _)
      rw [← Nat.add_assoc, byteAt_page store contents _ start_aligned found below, sourceFrame,
        found, Option.getD_some]
    · exact holds j below in_child

/-- Memory with a page of sevens at `0x5000`, and a free frame behind it that holds nines. -/
def sevens : Ram := ⟨fun addr => if addr < 0x6000 then 7 else 9, [0x6000]⟩

/-- An anonymous object whose first page is in memory. -/
def written : PagedBackingStore := .plain ⟨8192, (Vmo.new 8192).pages.insert 0 0x5000, false⟩

/-- A clone of the page shows its bytes. -/
theorem copies_bytes_first_page : ∃ child after,
    cloneRange written 0 4096 sevens = .ok (.ok child, after) ∧
      Copies written (fun _ => 0) sevens 0 4096 child after := by
  have separate : Separate written.inner sevens.supply := by
    have owned (offset frame : Nat) (found : written.inner.frameAt offset = some frame) :
        frame = 0x5000 := by
      by_cases first : offset = 0
      · subst first
        exact (Option.some.inj found).symm
      · have none_eq : (Vmo.new 8192).frameAt offset = none := Vmo.frameAt_new 8192 offset
        have same : written.inner.frameAt offset = (Vmo.new 8192).frameAt offset :=
          Vmo.frameAt_insert_other first
        rw [same, none_eq] at found
        cases found
    refine ⟨by decide, by decide, by decide, fun offset frame found => ?_,
      fun offset frame found => ?_⟩
    · rw [owned offset frame found]
      decide
    · rw [owned offset frame found]
      decide
  refine ⟨_, _, rfl, (copies_bytes_iff separate (by decide) rfl).mpr ⟨by decide, ?_⟩⟩
  intro page page_lt
  have page_zero : page = 0 := by
    have count_eq : pageCount 4096 = 1 := rfl
    omega
  subst page_zero
  exact .inl ⟨by decide, by decide⟩

/-- The page of a clone holds what its frame held before when the page of the parent was never
touched, when the offset is not a page multiple, and when the page of a file is not in memory. -/
theorem clone_shows_old_frame :
    (∃ child after, cloneRange (.plain (.new 4096)) 0 1 sevens = .ok (.ok child, after) ∧
      byteAt child (fun _ => 0) after.bytes 0 = 9 ∧
      ¬ Copies (.plain (.new 4096)) (fun _ => 0) sevens 0 1 child after) ∧
    (∃ child after, cloneRange written 1 1 sevens = .ok (.ok child, after) ∧
      byteAt written (fun _ => 0) sevens.bytes 1 = 7 ∧
      byteAt child (fun _ => 0) after.bytes 0 = 9 ∧
      ¬ Copies written (fun _ => 0) sevens 1 1 child after) ∧
    (∃ child after, cloneRange (.fileBacked ⟨.new 4096, 1024⟩) 0 1 sevens =
        .ok (.ok child, after) ∧
      byteAt child (fun _ => 5) after.bytes 0 = 9 ∧
      ¬ Copies (.fileBacked ⟨.new 4096, 1024⟩) (fun _ => 5) sevens 0 1 child after) := by
  refine ⟨⟨_, _, rfl, by decide, fun copies => ?_⟩,
    ⟨_, _, rfl, by decide, by decide, fun copies => ?_⟩, ⟨_, _, rfl, by decide, fun copies => ?_⟩⟩
  all_goals exact absurd (copies 0 (by decide)).2 (by decide)

end CloneBytes
end Vespertine
