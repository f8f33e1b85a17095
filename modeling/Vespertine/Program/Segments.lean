import Vespertine.Memory.VmaList
import Vespertine.Program.Elf

/-!
# Loading segments one by one

What the loop of `load_elf` does to a list of program headers: each segment takes frames for its
pages, fills them, and goes into the list of areas or is refused by it.  The list refuses an area
for its neighbours only, so that the areas by themselves, in their order, decide.
-/

namespace Vespertine

open VirtMemManager

/-! ## Where an area goes -/

/-- The areas of an address space are linked in this order, and are the nodes in use. -/
structure Listed (vmm : VirtMemManager) (vmas : List Nat) : Prop where
  linked : (links vmm.nodes).IsList vmm.head vmas
  heap : vmas.Perm vmm.live

/-- The areas without their pointers. -/
def areasOf (vmm : VirtMemManager) (vmas : List Nat) : List VmaNode :=
  vmas.map fun ptr => content (vmm.nodes ptr)

/-- The area starts at or before an address. -/
def begun (startAddr : Nat) (area : VmaNode) : Bool := area.start ≤ startAddr

/-- `mmap_vmo_at` refuses an area that overlaps a neighbour. -/
def refuses (areas : List VmaNode) (startAddr size : Nat) : Bool :=
  ((areas.takeWhile (begun startAddr)).getLast?.any fun prev =>
      decide (wrappingAdd prev.start prev.size > startAddr)) ||
    ((areas.dropWhile (begun startAddr)).head?.any fun next =>
      decide (wrappingAdd startAddr size > next.start))

/-- The areas with a new one in its place. -/
def place (areas : List VmaNode) (area : VmaNode) : List VmaNode :=
  areas.takeWhile (begun area.start) ++ area :: areas.dropWhile (begun area.start)

section Placing

variable {vmm : VirtMemManager} {vmas : List Nat} {startAddr size flags vmo nodePtr : Nat}

/-- The loop stops at the first area behind the address. -/
theorem spotLoop_eq {front rest : List Nat} {fuel : Nat}
    (linked : (links vmm.nodes).IsList vmm.head (front ++ rest)) (enough : rest.length ≤ fuel) :
    vmm.spotLoop startAddr fuel front.getLast? rest.head? =
      .ok ((front ++ rest.takeWhile fun ptr => begun startAddr (vmm.nodes ptr)).getLast?,
        (rest.dropWhile fun ptr => begun startAddr (vmm.nodes ptr)).head?) := by
  induction rest generalizing front fuel with
  | nil => simp [spotLoop]
  | cons curr rest ih =>
      obtain ⟨fuel, rfl⟩ : ∃ less, fuel = less + 1 := ⟨fuel - 1, by simp at enough; omega⟩
      have shifted : front ++ curr :: rest = (front ++ [curr]) ++ rest := by simp
      have next_eq : (vmm.nodes curr).next = rest.head? := linked.neighbours.2
      simp only [List.head?_cons, spotLoop, next_eq]
      split
      next beyond =>
        have unbegun : ¬begun startAddr (vmm.nodes curr) = true := by
          simp only [begun, decide_eq_true_eq]
          omega
        rw [List.takeWhile_cons, List.dropWhile_cons, if_neg unbegun, if_neg unbegun,
          List.append_nil, List.head?_cons]
      next within =>
        have is_begun : begun startAddr (vmm.nodes curr) = true := by
          simp only [begun, decide_eq_true_eq]
          omega
        have later := @ih (front ++ [curr]) fuel (shifted ▸ linked) (by simpa using enough)
        rw [List.getLast?_concat] at later
        rw [later, List.takeWhile_cons, List.dropWhile_cons, if_pos is_begun, if_pos is_begun,
          List.append_assoc, List.singleton_append]

theorem takeWhile_areasOf (vmm : VirtMemManager) (vmas : List Nat) (startAddr : Nat) :
    (areasOf vmm vmas).takeWhile (begun startAddr) =
      areasOf vmm (vmas.takeWhile fun ptr => begun startAddr (vmm.nodes ptr)) := by
  rw [areasOf, List.takeWhile_map]
  rfl

theorem dropWhile_areasOf (vmm : VirtMemManager) (vmas : List Nat) (startAddr : Nat) :
    (areasOf vmm vmas).dropWhile (begun startAddr) =
      areasOf vmm (vmas.dropWhile fun ptr => begun startAddr (vmm.nodes ptr)) := by
  rw [areasOf, List.dropWhile_map]
  rfl

/-- The areas decide whether an area is refused. -/
theorem refuses_eq (vmm : VirtMemManager) (vmas : List Nat) (startAddr size : Nat) :
    refuses (areasOf vmm vmas) startAddr size =
      (vmm.overlapsPrev startAddr
          (vmas.takeWhile fun ptr => begun startAddr (vmm.nodes ptr)).getLast? ||
        vmm.overlapsNext startAddr size
          (vmas.dropWhile fun ptr => begun startAddr (vmm.nodes ptr)).head?) := by
  rw [refuses, takeWhile_areasOf, dropWhile_areasOf, areasOf, areasOf, List.getLast?_map,
    List.head?_map]
  congr 1
  · cases (vmas.takeWhile fun ptr => begun startAddr (vmm.nodes ptr)).getLast? <;> rfl
  · cases (vmas.dropWhile fun ptr => begun startAddr (vmm.nodes ptr)).head? <;> rfl

/-- Placing an area at a chosen address. -/
theorem mmapVmoAt_listed (listed : Listed vmm vmas) (fresh : nodePtr ∉ vmm.live)
    (size_eq : roundUp size (NORMAL_PAGE_SIZE - 1) = size) :
    (refuses (areasOf vmm vmas) startAddr size = true ∧
        vmm.mmapVmoAt startAddr size flags vmo nodePtr = .ok (none, vmm)) ∨
      refuses (areasOf vmm vmas) startAddr size = false ∧
        ∃ next vmas', vmm.mmapVmoAt startAddr size flags vmo nodePtr = .ok (some startAddr, next) ∧
          Listed next vmas' ∧ vmas'.Perm (nodePtr :: vmas) ∧ next.live = nodePtr :: vmm.live ∧
          (∀ ptr ∈ vmas, content (next.nodes ptr) = content (vmm.nodes ptr)) ∧
          content (next.nodes nodePtr) = ⟨startAddr, size, flags, none, none, some vmo, 0⟩ ∧
          areasOf next vmas' =
            place (areasOf vmm vmas) ⟨startAddr, size, flags, none, none, some vmo, 0⟩ := by
  have loop_eq := @spotLoop_eq vmm startAddr [] vmas vmm.live.length listed.linked
    listed.heap.length_eq.le
  rw [List.getLast?_nil, ← listed.linked.head_eq, List.nil_append] at loop_eq
  rw [refuses_eq]
  simp only [VirtMemManager.mmapVmoAt, loop_eq, bind, Except.bind, size_eq]
  by_cases prev_overlap : vmm.overlapsPrev startAddr
      (vmas.takeWhile fun ptr => begun startAddr (vmm.nodes ptr)).getLast? = true
  · rw [if_pos prev_overlap, prev_overlap]
    exact .inl ⟨rfl, rfl⟩
  rw [if_neg prev_overlap, Bool.eq_false_of_not_eq_true prev_overlap]
  by_cases next_overlap : vmm.overlapsNext startAddr size
      (vmas.dropWhile fun ptr => begun startAddr (vmm.nodes ptr)).head? = true
  · rw [if_pos next_overlap, next_overlap]
    exact .inl ⟨rfl, rfl⟩
  rw [if_neg next_overlap, Bool.eq_false_of_not_eq_true next_overlap]
  obtain ⟨front, back, front_eq, back_eq, rfl⟩ : ∃ front back,
      vmas.takeWhile (fun ptr => begun startAddr (vmm.nodes ptr)) = front ∧
        vmas.dropWhile (fun ptr => begun startAddr (vmm.nodes ptr)) = back ∧
        front ++ back = vmas :=
    ⟨_, _, rfl, rfl, List.takeWhile_append_dropWhile⟩
  have unlisted : nodePtr ∉ front ++ back := fun mem => fresh (listed.heap.mem_iff.mp mem)
  let node : VmaNode := ⟨startAddr, size, flags, front.getLast?, back.head?, some vmo, 0⟩
  have contents : ∀ ptr ∈ front ++ back,
      content ((vmm.insertNode nodePtr node).nodes ptr) = content (vmm.nodes ptr) := by
    intro ptr mem
    have ptr_ne : ptr ≠ nodePtr := fun equal => unlisted (equal ▸ mem)
    rw [insertNode_content, Function.update_of_ne ptr_ne]
  have own : content ((vmm.insertNode nodePtr node).nodes nodePtr) = content node := by
    rw [insertNode_content, Function.update_self]
  rw [front_eq, back_eq]
  refine .inr ⟨rfl, vmm.insertNode nodePtr node, front ++ nodePtr :: back, rfl,
    ⟨insertNode_isList listed.linked unlisted rfl rfl, ?_⟩, List.perm_middle, insertNode_live _ _ _,
    contents, own, ?_⟩
  · rw [insertNode_live]
    exact List.perm_middle.trans (listed.heap.cons nodePtr)
  · rw [place, takeWhile_areasOf, dropWhile_areasOf, front_eq, back_eq, areasOf,
      List.map_append, List.map_cons, own]
    congr 1
    · exact List.map_congr_left fun ptr mem => contents ptr (List.mem_append_left back mem)
    · congr 1
      exact List.map_congr_left fun ptr mem => contents ptr (List.mem_append_right front mem)

end Placing

/-! ## Filling the pages of a segment -/

namespace Elf64Phdr

variable (ph : Elf64Phdr)

/-- `aligned_vaddr`. -/
def alignedVaddr : Nat := andNot ph.pVaddr 0xFFF

/-- `offset_in_first_page`. -/
def offsetInFirstPage : Nat := ph.pVaddr &&& 0xFFF

/-- `total_map_size`. -/
def totalMapSize : Nat := alignUp (wrappingAdd ph.offsetInFirstPage ph.pMemsz)

/-- Pages of the segment. -/
def pages : Nat := ph.totalMapSize / NORMAL_PAGE_SIZE

theorem totalMapSize_dvd : NORMAL_PAGE_SIZE ∣ ph.totalMapSize := by
  rw [totalMapSize, alignUp, roundUp, show (0xFFF : Nat) = 2 ^ 12 - 1 from rfl, andNot_two_pow]
  exact Nat.dvd_mul_left _ _

theorem pages_mul : ph.pages * NORMAL_PAGE_SIZE = ph.totalMapSize :=
  Nat.div_mul_cancel ph.totalMapSize_dvd

theorem totalMapSize_lt : ph.totalMapSize < wordSize := by
  rw [totalMapSize, alignUp, roundUp, show (0xFFF : Nat) = 2 ^ 12 - 1 from rfl, andNot_two_pow]
  exact (Nat.div_mul_le_self _ _).trans_lt (Nat.mod_lt _ (by decide))

theorem roundUp_totalMapSize :
    roundUp ph.totalMapSize (NORMAL_PAGE_SIZE - 1) = ph.totalMapSize := by
  have below := ph.totalMapSize_lt
  obtain ⟨count, size_eq⟩ := ph.totalMapSize_dvd
  have word : wordSize = 2 ^ 64 := rfl
  have page : NORMAL_PAGE_SIZE = 2 ^ 12 := rfl
  rw [page] at size_eq
  rw [roundUp, wrappingAdd_of_lt (by omega), page, andNot_two_pow]
  omega

end Elf64Phdr

/-- Frames given to the pages of an object, from an offset on. -/
def enterFrames : (pageOffset : Nat) → List Nat → Vmo → Vmo
  | _, [], vmo => vmo
  | pageOffset, pfn :: frames, vmo =>
      enterFrames (pageOffset + NORMAL_PAGE_SIZE) frames
        { vmo with pages := vmo.pages.insert pageOffset pfn }

/-- Frames filled with the pages of a segment, from an offset on. -/
def fillFrames (file : FileBytes) (ph : Elf64Phdr) :
    (pageOffset : Nat) → List Nat → (Nat → BitVec 8) → Nat → BitVec 8
  | _, [], memory => memory
  | pageOffset, pfn :: frames, memory =>
      fillFrames file ph (pageOffset + NORMAL_PAGE_SIZE) frames
        (Image.fillPage memory file ph ph.offsetInFirstPage pageOffset pfn)

section Filling

variable {file : FileBytes} {ph : Elf64Phdr}

/-- The pages of a segment are filled if there are frames for all of them. -/
theorem fillPages_eq {pages pageOffset : Nat} {vmo : Vmo} {image : Image}
    (inside : pageOffset + pages * NORMAL_PAGE_SIZE ≤ vmo.size) (anonymous : vmo.isPhysical = false)
    (absent : ∀ offset ≥ pageOffset, vmo.frameAt offset = none) :
    image.fillPages file ph ph.offsetInFirstPage pages pageOffset vmo =
      if image.supply.length < pages then .error .outOfMemory
      else .ok (.ok (), enterFrames pageOffset (image.supply.take pages) vmo,
        { image with
          supply := image.supply.drop pages
          memory := fillFrames file ph pageOffset (image.supply.take pages) image.memory }) := by
  induction pages generalizing pageOffset vmo image with
  | zero =>
      rw [if_neg (Nat.not_lt_zero _)]
      rfl
  | succ pages ih =>
      have request_eq : vmo.requestPage pageOffset image.supply =
          (allocFrame image.supply >>= fun taken =>
            .ok (.ok taken.1, { vmo with pages := vmo.pages.insert pageOffset taken.1 },
              taken.2)) := by
        have within : ¬pageOffset ≥ vmo.size := by
          unfold NORMAL_PAGE_SIZE at inside
          omega
        rw [Vmo.requestPage, if_neg within, absent pageOffset le_rfl]
        simp only [anonymous]
        rfl
      rw [Image.fillPages, request_eq]
      cases supply_eq : image.supply with
      | nil =>
          rw [if_pos (by simp)]
          rfl
      | cons pfn supply =>
          have rest_eq := @ih (pageOffset + NORMAL_PAGE_SIZE)
            { vmo with pages := vmo.pages.insert pageOffset pfn }
            { image with
              supply
              memory := Image.fillPage image.memory file ph ph.offsetInFirstPage pageOffset pfn }
            (by dsimp only; rw [Nat.add_mul] at inside; omega) anonymous (by
              intro offset beyond
              have page_pos : 0 < NORMAL_PAGE_SIZE := by decide
              have ne : offset ≠ pageOffset := by omega
              rw [Vmo.frameAt_insert_other ne]
              exact absent offset (by omega))
          simp only [allocFrame, bind, Except.bind, rest_eq, List.length_cons,
            Nat.add_lt_add_iff_right, List.take_succ_cons, List.drop_succ_cons]
          rfl

end Filling

/-! ## One segment and the next -/

/-- The area of a segment. -/
def areaOf (ph : Elf64Phdr) (vmo : Nat) : VmaNode :=
  ⟨ph.alignedVaddr, ph.totalMapSize, Image.segmentFlags ph, none, none, some vmo, 0⟩

/-- The memory object of a segment, with the frames that its pages take. -/
def segmentVmo (ph : Elf64Phdr) (supply : List Nat) : Vmo :=
  enterFrames 0 (supply.take ph.pages) (.new ph.totalMapSize)

/-- What there is to load a segment with: the areas are linked, and the node is not in use. -/
structure Ready (image : Image) (vmas : List Nat) (nodePtr : Nat) (areaNodes : List Nat) :
    Prop where
  listed : Listed image.vmm vmas
  nodes_eq : image.areaNodes = nodePtr :: areaNodes
  fresh : nodePtr ∉ image.vmm.live

/-- A segment has been loaded. -/
structure SegmentLoaded (file : FileBytes) (ph : Elf64Phdr) (image next : Image)
    (vmas after : List Nat) (nodePtr : Nat) (areaNodes : List Nat) : Prop where
  listed : Listed next.vmm after
  perm : after.Perm (nodePtr :: vmas)
  live_eq : next.vmm.live = nodePtr :: image.vmm.live
  kept : ∀ ptr ∈ vmas, content (next.vmm.nodes ptr) = content (image.vmm.nodes ptr)
  own : content (next.vmm.nodes nodePtr) = areaOf ph image.nextVmo
  areas_eq : areasOf next.vmm after = place (areasOf image.vmm vmas) (areaOf ph image.nextVmo)
  nodes_eq : next.areaNodes = areaNodes
  supply_eq : next.supply = image.supply.drop ph.pages
  memory_eq : next.memory = fillFrames file ph 0 (image.supply.take ph.pages) image.memory
  vmos_eq : next.vmos =
    Function.update image.vmos image.nextVmo (some (segmentVmo ph image.supply))
  nextVmo_eq : next.nextVmo = image.nextVmo + 1

section Segments

variable {file : FileBytes} {ph : Elf64Phdr} {image : Image} {vmas : List Nat} {nodePtr : Nat}
  {areaNodes : List Nat}

/-- The pages of a segment are filled, if there are frames for them, and then it is placed. -/
theorem loadSegment_eq (image : Image) (file : FileBytes) (ph : Elf64Phdr) :
    image.loadSegment file ph =
      if image.supply.length < ph.pages then .error .outOfMemory
      else { image with
        supply := image.supply.drop ph.pages
        memory := fillFrames file ph 0 (image.supply.take ph.pages) image.memory }.mapSegment
          ph.alignedVaddr ph.totalMapSize (Image.segmentFlags ph) (segmentVmo ph image.supply) := by
  have filled_eq := @fillPages_eq file ph ph.pages 0 (.new ph.totalMapSize) image
    (by rw [Nat.zero_add, ph.pages_mul]; rfl) rfl fun offset _ => Vmo.frameAt_new _ offset
  change image.fillPages file ph ph.offsetInFirstPage ph.pages 0 (.new ph.totalMapSize) >>= _ = _
  rw [filled_eq]
  split <;> rfl

theorem loadSegment_nodeless (nodeless : image.areaNodes = []) :
    image.loadSegment file ph = .error .outOfMemory := by
  rw [loadSegment_eq, Image.mapSegment, nodeless]
  exact ite_self _

/-- A segment runs out of frames, is refused, or is loaded. -/
theorem loadSegment_cases (ready : Ready image vmas nodePtr areaNodes) :
    (image.supply.length < ph.pages ∧ image.loadSegment file ph = .error .outOfMemory) ∨
      (ph.pages ≤ image.supply.length ∧
        refuses (areasOf image.vmm vmas) ph.alignedVaddr ph.totalMapSize = true ∧
        ∃ next, image.loadSegment file ph = .ok (.error .FileReadError, next)) ∨
      (ph.pages ≤ image.supply.length ∧
        refuses (areasOf image.vmm vmas) ph.alignedVaddr ph.totalMapSize = false ∧
        ∃ next after, image.loadSegment file ph = .ok (.ok (), next) ∧
          SegmentLoaded file ph image next vmas after nodePtr areaNodes) := by
  rw [loadSegment_eq]
  split
  next short => exact .inl ⟨short, rfl⟩
  next enough =>
    refine .inr ?_
    simp only [bind, Except.bind, Image.mapSegment, ready.nodes_eq]
    rcases @mmapVmoAt_listed _ _ ph.alignedVaddr _ (Image.segmentFlags ph) image.nextVmo _
      ready.listed ready.fresh ph.roundUp_totalMapSize with
      ⟨refused, map_eq⟩ | ⟨accepted, vmm, after, map_eq, listed, perm, live_eq, kept, own, areas_eq⟩
    · rw [map_eq]
      exact .inl ⟨not_lt.mp enough, refused, _, rfl⟩
    · rw [map_eq]
      exact .inr ⟨not_lt.mp enough, accepted, _, after, rfl, listed, perm, live_eq, kept, own,
        areas_eq, rfl, rfl, rfl, rfl, rfl⟩

end Segments

/-- The loop of `load_elf` over the segments to be loaded. -/
def loadList (file : FileBytes) :
    List Elf64Phdr → Image → Kernel (Except LoaderError Unit × Image)
  | [], image => .ok (.ok (), image)
  | ph :: rest, image => do
      let (result, image) ← image.loadSegment file ph
      match result with
      | .error problem => return (.error problem, image)
      | .ok () => loadList file rest image

/-- The program headers that are left. -/
def ProgHeaderIter.headers (iter : ProgHeaderIter) : List Elf64Phdr :=
  (List.range' iter.current (iter.total - iter.current)).map fun i =>
    .read iter.byte (iter.phOff + i * iter.phSize)

/-- The segments to be loaded. -/
def Elf64Ehdr.segments (header : Elf64Ehdr) (file : FileBytes) : List Elf64Phdr :=
  ((List.range header.ePhnum).map fun i =>
    Elf64Phdr.read file.byte (header.ePhoff + i * Elf64Phdr.bytes)).filter (·.pType = PT_LOAD)

section Lists

variable {file : FileBytes}

/-- The loop goes over the headers in order and passes those that are not to be loaded. -/
theorem loadSegments_eq {fuel : Nat} {iter : ProgHeaderIter} (image : Image)
    (enough : iter.total - iter.current ≤ fuel) :
    image.loadSegments file fuel iter =
      loadList file (iter.headers.filter (·.pType = PT_LOAD)) image := by
  induction fuel generalizing iter image with
  | zero =>
      have none_left : iter.total - iter.current = 0 := by omega
      rw [ProgHeaderIter.headers, none_left]
      rfl
  | succ fuel ih =>
      rw [Image.loadSegments, ProgHeaderIter.next]
      split
      next finished =>
        have none_left : iter.total - iter.current = 0 := by
          split at finished
          next => omega
          next => cases finished
        rw [ProgHeaderIter.headers, none_left]
        rfl
      next ph rest next_eq =>
        split at next_eq
        next => cases next_eq
        next unfinished =>
          cases next_eq
          obtain ⟨left, left_eq⟩ : ∃ left, iter.total - iter.current = left + 1 :=
            ⟨iter.total - iter.current - 1, by omega⟩
          have rest_left : iter.total - (iter.current + 1) = left := by omega
          rw [ProgHeaderIter.headers, left_eq, List.range'_succ, List.map_cons]
          have rest_eq (image : Image) :=
            @ih { iter with current := iter.current + 1 } image (by dsimp only; omega)
          simp only [ProgHeaderIter.headers, rest_left] at rest_eq
          split
          next loadable =>
            rw [List.filter_cons_of_pos (by simpa using loadable), loadList]
            congr 1
            funext answer
            obtain ⟨result, next⟩ := answer
            cases result with
            | error problem => rfl
            | ok _ => exact rest_eq next
          next other =>
            rw [List.filter_cons_of_neg (by simpa using other)]
            exact rest_eq image

/-- The table of program headers has entries of the right size and lies in the file. -/
def Elf64Ehdr.TableInside (header : Elf64Ehdr) (file : FileBytes) : Prop :=
  header.ePhentsize = Elf64Phdr.bytes ∧
    header.ePhoff + header.ePhnum * Elf64Phdr.bytes ≤ file.size

theorem Elf64Ehdr.progHeaders_eq (header : Elf64Ehdr) (sized : file.size < wordSize) :
    (header.TableInside file ∧ header.progHeaders file =
        some ⟨file.byte, header.ePhoff, Elf64Phdr.bytes, 0, header.ePhnum⟩) ∨
      ¬header.TableInside file ∧ header.progHeaders file = none := by
  by_cases size_eq : header.ePhentsize = Elf64Phdr.bytes
  · by_cases inside : header.ePhoff + header.ePhnum * Elf64Phdr.bytes ≤ file.size
    · refine .inl ⟨⟨size_eq, inside⟩, ?_⟩
      have add_lt : header.ePhoff + header.ePhnum * Elf64Phdr.bytes < wordSize :=
        inside.trans_lt sized
      have mul_lt : header.ePhnum * Elf64Phdr.bytes < wordSize :=
        (Nat.le_add_left _ _).trans_lt add_lt
      simp [Elf64Ehdr.progHeaders, size_eq, checkedMul, checkedAdd, mul_lt, add_lt,
        Nat.not_lt.mpr inside]
    · refine .inr ⟨fun whole => inside whole.2, ?_⟩
      have beyond := Nat.lt_of_not_le inside
      simp only [Elf64Ehdr.progHeaders, size_eq, checkedMul, checkedAdd]
      grind
  · refine .inr ⟨fun whole => size_eq whole.1, ?_⟩
    simp [Elf64Ehdr.progHeaders, size_eq]

/-- A file with a sound header and table has its segments loaded in order. -/
theorem loadFile_eq {header : Elf64Ehdr} (image : Image) (sized : file.size < wordSize)
    (header_eq : Elf64Ehdr.fromBytes file = .ok header) (inside : header.TableInside file) :
    image.loadFile file = (loadList file (header.segments file) image).map
      fun (result, image) => (result.map fun _ => header.eEntry, image) := by
  have iter_eq : header.progHeaders file =
      some ⟨file.byte, header.ePhoff, Elf64Phdr.bytes, 0, header.ePhnum⟩ := by
    rcases header.progHeaders_eq sized with ⟨-, iter_eq⟩ | ⟨outside, -⟩
    · exact iter_eq
    · exact absurd inside outside
  have list_eq : image.loadSegments file header.ePhnum
      ⟨file.byte, header.ePhoff, Elf64Phdr.bytes, 0, header.ePhnum⟩ =
        loadList file (header.segments file) image := by
    rw [loadSegments_eq image (by exact Nat.sub_le _ _), ProgHeaderIter.headers,
      Elf64Ehdr.segments, List.range_eq_range']
    rfl
  rw [Image.loadFile, header_eq]
  simp only [iter_eq, list_eq]
  cases loadList file (header.segments file) image <;> rfl

end Lists

end Vespertine
