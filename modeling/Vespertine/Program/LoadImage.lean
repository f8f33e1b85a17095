import Vespertine.Program.LoadSafety

/-!
# The image of a program

A well-formed file gives each segment an area of its own, whose memory object holds the bytes of
the file and zeros.  No later segment writes to the frames of an earlier one, and the list of areas
refuses none: its areas are those of earlier segments, with other pages.
-/

namespace Vespertine

open VirtMemManager

/-! ## Bytes of a segment -/

/-- Two frames have no byte in common. -/
def Apart (left right : Nat) : Prop :=
  left + NORMAL_PAGE_SIZE ≤ right ∨ right + NORMAL_PAGE_SIZE ≤ left

/-- The byte of a segment at an offset from its first page. -/
def segmentByte (file : FileBytes) (ph : Elf64Phdr) (offset : Nat) : BitVec 8 :=
  if ph.offsetInFirstPage ≤ offset ∧ offset < ph.offsetInFirstPage + ph.pFilesz then
    file.byte (ph.pOffset + (offset - ph.offsetInFirstPage))
  else
    0

/-- What well-formedness of a file says about a segment. -/
structure WellFormedSegment (file : FileBytes) (ph : Elf64Phdr) : Prop where
  inside : ph.pOffset + ph.pFilesz ≤ file.size
  filed : ph.pFilesz ≤ ph.pMemsz
  nonempty : 0 < ph.pMemsz
  addressed : ph.pVaddr + ph.pMemsz ≤ wordSize
  /-- The size can be rounded up to pages. -/
  rounded : ph.offsetInFirstPage + ph.pMemsz + 0xFFF < wordSize

section Bytes

variable {file : FileBytes} {ph : Elf64Phdr} {pageOffset : Nat} {frames : List Nat}
  {memory : Nat → BitVec 8}

/-- A page takes its part of the file, and zeros around it. -/
theorem fillPage_eq {pfn : Nat} (sized : file.size < wordSize)
    (wellFormed : WellFormedSegment file ph) (addr : Nat) :
    Image.fillPage memory file ph ph.offsetInFirstPage pageOffset pfn addr =
      if pfn ≤ addr ∧ addr < pfn + NORMAL_PAGE_SIZE then
        segmentByte file ph (pageOffset + (addr - pfn))
      else
        memory addr := by
  obtain ⟨inside, filed, -, -, rounded⟩ := wellFormed
  have file_end : wrappingAdd ph.offsetInFirstPage ph.pFilesz =
      ph.offsetInFirstPage + ph.pFilesz := wrappingAdd_of_lt (by omega)
  have zeroed : writeBytes memory pfn 0 NORMAL_PAGE_SIZE addr =
      if pfn ≤ addr ∧ addr < pfn + NORMAL_PAGE_SIZE then 0 else memory addr := rfl
  simp only [Image.fillPage, file_end, segmentByte]
  split
  next overlap =>
    rw [copyNonoverlapping, zeroed, wrappingAdd_of_lt (by omega)]
    split
    next copied =>
      rw [if_pos (by omega), if_pos (by omega)]
      congr 1
      omega
    next around =>
      split
      next own => rw [if_neg (by omega)]
      next => rfl
  next =>
    rw [zeroed]
    split
    next own => rw [if_neg (by omega)]
    next => rfl

theorem fillFrames_outside {addr : Nat} (sized : file.size < wordSize)
    (wellFormed : WellFormedSegment file ph)
    (outside : ∀ pfn ∈ frames, addr < pfn ∨ pfn + NORMAL_PAGE_SIZE ≤ addr) :
    fillFrames file ph pageOffset frames memory addr = memory addr := by
  induction frames generalizing pageOffset memory with
  | nil => rfl
  | cons pfn frames ih =>
      rw [fillFrames, ih fun other mem => outside other (List.mem_cons_of_mem _ mem),
        fillPage_eq sized wellFormed, if_neg]
      rcases outside pfn (List.mem_cons_self ..) with before | behind
      · omega
      · omega

theorem fillFrames_inside {page i : Nat} (sized : file.size < wordSize)
    (wellFormed : WellFormedSegment file ph) (apart : frames.Pairwise Apart)
    (inside : page < frames.length) (below : i < NORMAL_PAGE_SIZE) :
    fillFrames file ph pageOffset frames memory (frames[page] + i) =
      segmentByte file ph (pageOffset + page * NORMAL_PAGE_SIZE + i) := by
  induction frames generalizing pageOffset memory page with
  | nil => cases inside
  | cons pfn frames ih =>
      obtain ⟨first, rest⟩ := List.pairwise_cons.mp apart
      cases page with
      | zero =>
          rw [fillFrames, List.getElem_cons_zero, fillFrames_outside sized wellFormed,
            fillPage_eq sized wellFormed, if_pos (by omega), Nat.zero_mul, Nat.add_zero,
            Nat.add_sub_cancel_left]
          intro other mem
          rcases first other mem with before | behind
          · omega
          · omega
      | succ page =>
          rw [fillFrames, List.getElem_cons_succ,
            ih rest (Nat.lt_of_succ_lt_succ (by simpa using inside)), Nat.succ_mul]
          congr 1
          omega

theorem enterFrames_before {offset : Nat} {vmo : Vmo} (before : offset < pageOffset) :
    (enterFrames pageOffset frames vmo).frameAt offset = vmo.frameAt offset := by
  induction frames generalizing pageOffset vmo with
  | nil => rfl
  | cons pfn frames ih =>
      rw [enterFrames, ih (by omega), Vmo.frameAt_insert_other (Nat.ne_of_lt before)]

theorem enterFrames_frameAt {page : Nat} {vmo : Vmo} (nonzero : 0 ∉ frames)
    (inside : page < frames.length) :
    (enterFrames pageOffset frames vmo).frameAt (pageOffset + page * NORMAL_PAGE_SIZE) =
      some frames[page] := by
  induction frames generalizing pageOffset vmo page with
  | nil => cases inside
  | cons pfn frames ih =>
      rw [List.mem_cons, not_or] at nonzero
      cases page with
      | zero =>
          rw [enterFrames, Nat.zero_mul, Nat.add_zero, enterFrames_before
            (Nat.lt_add_of_pos_right (by decide)), Vmo.frameAt_insert_same (Ne.symm nonzero.1)]
          rfl
      | succ page =>
          rw [enterFrames, List.getElem_cons_succ, Nat.succ_mul, Nat.add_comm (page * _),
            ← Nat.add_assoc, ih nonzero.2 (Nat.lt_of_succ_lt_succ (by simpa using inside))]

theorem enterFrames_size (vmo : Vmo) : (enterFrames pageOffset frames vmo).size = vmo.size := by
  induction frames generalizing pageOffset vmo with
  | nil => rfl
  | cons pfn frames ih => rw [enterFrames, ih]

end Bytes

/-! ## Pages of a segment -/

namespace Elf64Phdr

/-- The segment has a byte in the page. -/
def Touches (ph : Elf64Phdr) (page : Nat) : Prop :=
  ∃ addr, ph.pVaddr ≤ addr ∧ addr < ph.pVaddr + ph.pMemsz ∧ addr / NORMAL_PAGE_SIZE = page

section Pages

variable {file : FileBytes} {ph other : Elf64Phdr}

theorem alignedVaddr_eq (ph : Elf64Phdr) : ph.alignedVaddr = ph.pVaddr / 4096 * 4096 :=
  andNot_two_pow ph.pVaddr 12

theorem offsetInFirstPage_eq (ph : Elf64Phdr) : ph.offsetInFirstPage = ph.pVaddr % 4096 :=
  Nat.and_two_pow_sub_one_eq_mod ph.pVaddr 12

theorem totalMapSize_eq (wellFormed : WellFormedSegment file ph) :
    ph.totalMapSize = (ph.pVaddr % 4096 + ph.pMemsz + 4095) / 4096 * 4096 := by
  have rounded := wellFormed.rounded
  rw [totalMapSize, wrappingAdd_of_lt (by omega), alignUp, roundUp, wrappingAdd_of_lt rounded,
    show (0xFFF : Nat) = 2 ^ 12 - 1 from rfl, andNot_two_pow, offsetInFirstPage_eq]
  rfl

/-- The area of a segment has exactly the pages that the segment touches. -/
theorem touches_iff (wellFormed : WellFormedSegment file ph) (addr : Nat) :
    ph.alignedVaddr ≤ addr ∧ addr < ph.alignedVaddr + ph.totalMapSize ↔
      ph.Touches (addr / NORMAL_PAGE_SIZE) := by
  have nonempty := wellFormed.nonempty
  rw [totalMapSize_eq wellFormed, alignedVaddr_eq, Touches, NORMAL_PAGE_SIZE]
  constructor
  · rintro ⟨above, below⟩
    by_cases early : addr < ph.pVaddr
    · exact ⟨ph.pVaddr, by omega⟩
    · by_cases late : addr < ph.pVaddr + ph.pMemsz
      · exact ⟨addr, by omega⟩
      · exact ⟨ph.pVaddr + ph.pMemsz - 1, by omega⟩
  · rintro ⟨touched, above, below, same⟩
    omega

theorem totalMapSize_pos (wellFormed : WellFormedSegment file ph) : 0 < ph.totalMapSize := by
  have nonempty := wellFormed.nonempty
  rw [totalMapSize_eq wellFormed]
  omega

/-- Areas of segments that have no page in common lie side by side. -/
theorem beside (wellFormed : WellFormedSegment file ph)
    (other_wellFormed : WellFormedSegment file other)
    (disjoint : ∀ page, ¬(ph.Touches page ∧ other.Touches page)) :
    ph.alignedVaddr + ph.totalMapSize ≤ other.alignedVaddr ∨
      other.alignedVaddr + other.totalMapSize ≤ ph.alignedVaddr := by
  have size_pos := totalMapSize_pos wellFormed
  have other_pos := totalMapSize_pos other_wellFormed
  by_contra overlap
  rw [not_or, Nat.not_le, Nat.not_le] at overlap
  refine disjoint (max ph.alignedVaddr other.alignedVaddr / NORMAL_PAGE_SIZE) ⟨?_, ?_⟩
  · exact (touches_iff wellFormed _).mp (by omega)
  · exact (touches_iff other_wellFormed _).mp (by omega)

end Pages
end Elf64Phdr

/-- An area beside all others is not refused. -/
theorem refuses_eq_false {areas : List VmaNode} {startAddr size : Nat} (nonempty : 0 < size)
    (start_lt : startAddr < wordSize) (starts_lt : ∀ area ∈ areas, area.start < wordSize)
    (beside : ∀ area ∈ areas, area.start + area.size ≤ startAddr ∨ startAddr + size ≤ area.start) :
    refuses areas startAddr size = false := by
  rw [refuses, Bool.or_eq_false_iff, Option.any_eq_false, Option.any_eq_false]
  constructor
  · intro prev last
    have mem := List.mem_of_getLast? last
    have is_begun : begun startAddr prev = true := List.all_eq_true.mp List.all_takeWhile prev mem
    have le : prev.start ≤ startAddr := of_decide_eq_true is_begun
    have clear := beside prev ((List.takeWhile_prefix _).mem mem)
    apply decide_eq_false
    rw [wrappingAdd_of_lt (by omega)]
    omega
  · intro next first
    have mem := (List.dropWhile_suffix (begun startAddr)).mem (List.mem_of_head? first)
    have unbegun : begun startAddr next = false := by
      have front := List.head?_dropWhile_not (begun startAddr) areas
      rw [first] at front
      simpa using front
    have gt : ¬next.start ≤ startAddr := of_decide_eq_false unbegun
    have next_lt := starts_lt next mem
    have clear := beside next mem
    apply decide_eq_false
    rw [wrappingAdd_of_lt (by omega)]
    omega

theorem mem_place {areas : List VmaNode} {area other : VmaNode} (mem : other ∈ place areas area) :
    other = area ∨ other ∈ areas := by
  rcases List.mem_append.mp mem with front | back
  · exact .inr ((List.takeWhile_prefix _).mem front)
  · rcases List.mem_cons.mp back with rfl | back
    · exact .inl rfl
    · exact .inr ((List.dropWhile_suffix _).mem back)

/-! ## Segments in place -/

/-- A segment is in place: an area of its own, an object of its own, and frames that hold its bytes
and will not be given to another segment. -/
structure Placed (file : FileBytes) (image : Image) (ph : Elf64Phdr) (ptr number : Nat)
    (frames : List Nat) : Prop where
  live : ptr ∈ image.vmm.live
  area_eq : content (image.vmm.nodes ptr) = areaOf ph number
  numbered : number < image.nextVmo
  vmo_eq : image.vmos number = some (enterFrames 0 frames (.new ph.totalMapSize))
  covers : frames.length = ph.pages
  nonzero : 0 ∉ frames
  apart : ∀ pfn ∈ frames, ∀ other ∈ image.supply, Apart pfn other
  filled : ∀ page, (inside : page < frames.length) → ∀ i < NORMAL_PAGE_SIZE,
    image.memory (frames[page] + i) = segmentByte file ph (page * NORMAL_PAGE_SIZE + i)

section Placing

variable {file : FileBytes} {ph other : Elf64Phdr} {image next : Image} {vmas after : List Nat}
  {ptr nodePtr number : Nat} {areaNodes frames : List Nat}

/-- Loading another segment leaves a segment in place. -/
theorem Placed.keep (placed : Placed file image ph ptr number frames)
    (sized : file.size < wordSize) (wellFormed : WellFormedSegment file other)
    (listed : Listed image.vmm vmas)
    (loaded : SegmentLoaded file other image next vmas after nodePtr areaNodes) :
    Placed file next ph ptr number frames where
  live := by
    rw [loaded.live_eq]
    exact List.mem_cons_of_mem _ placed.live
  area_eq := (loaded.kept ptr (listed.heap.mem_iff.mpr placed.live)).trans placed.area_eq
  numbered := by
    rw [loaded.nextVmo_eq]
    exact Nat.lt_succ_of_lt placed.numbered
  vmo_eq := by
    rw [loaded.vmos_eq, Function.update_of_ne (Nat.ne_of_lt placed.numbered), placed.vmo_eq]
  covers := placed.covers
  nonzero := placed.nonzero
  apart := by
    intro pfn mem taken taken_mem
    rw [loaded.supply_eq] at taken_mem
    exact placed.apart pfn mem taken (List.mem_of_mem_drop taken_mem)
  filled := by
    intro page inside i below
    rw [loaded.memory_eq, fillFrames_outside sized wellFormed, placed.filled page inside i below]
    intro pfn mem
    rcases placed.apart _ (List.getElem_mem inside) pfn (List.mem_of_mem_take mem) with
      before | behind
    · omega
    · omega

/-- A segment that has been loaded is in place. -/
theorem SegmentLoaded.placed
    (loaded : SegmentLoaded file ph image next vmas after nodePtr areaNodes)
    (sized : file.size < wordSize) (wellFormed : WellFormedSegment file ph)
    (enough : ph.pages ≤ image.supply.length) (nonzero : 0 ∉ image.supply)
    (apart : image.supply.Pairwise Apart) :
    Placed file next ph nodePtr image.nextVmo (image.supply.take ph.pages) where
  live := by
    rw [loaded.live_eq]
    exact List.mem_cons_self ..
  area_eq := loaded.own
  numbered := by
    rw [loaded.nextVmo_eq]
    exact Nat.lt_succ_self _
  vmo_eq := by
    rw [loaded.vmos_eq, Function.update_self]
    rfl
  covers := List.length_take_of_le enough
  nonzero := fun mem => nonzero (List.mem_of_mem_take mem)
  apart := by
    rw [← List.take_append_drop ph.pages image.supply, List.pairwise_append] at apart
    rw [loaded.supply_eq]
    exact apart.2.2
  filled := by
    intro page inside i below
    rw [loaded.memory_eq, fillFrames_inside sized wellFormed (apart.sublist (List.take_sublist ..))
      inside below, Nat.zero_add]

/-- The segments of a list have no page in common. -/
def DisjointPages (left right : Elf64Phdr) : Prop :=
  ∀ page, ¬(left.Touches page ∧ right.Touches page)

/-- The list of areas, which holds segments without a page of the next one, takes it. -/
theorem refuses_segment {areas : List VmaNode} {done : List Elf64Phdr}
    (origin : ∀ area ∈ areas, ∃ earlier ∈ done, ∃ number, area = areaOf earlier number)
    (done_wellFormed : ∀ earlier ∈ done, WellFormedSegment file earlier)
    (wellFormed : WellFormedSegment file ph)
    (disjoint : ∀ earlier ∈ done, DisjointPages earlier ph) :
    refuses areas ph.alignedVaddr ph.totalMapSize = false := by
  have start_lt {segment : Elf64Phdr} (wellFormed : WellFormedSegment file segment) :
      segment.alignedVaddr < wordSize := by
    have addressed := wellFormed.addressed
    have nonempty := wellFormed.nonempty
    rw [Elf64Phdr.alignedVaddr_eq]
    omega
  apply refuses_eq_false (Elf64Phdr.totalMapSize_pos wellFormed) (start_lt wellFormed)
  · intro area mem
    obtain ⟨earlier, done_mem, number, rfl⟩ := origin area mem
    exact start_lt (done_wellFormed earlier done_mem)
  · intro area mem
    obtain ⟨earlier, done_mem, number, rfl⟩ := origin area mem
    exact Elf64Phdr.beside (done_wellFormed earlier done_mem) wellFormed (disjoint earlier done_mem)

/-- How far the image of a program has come. -/
structure Partial (file : FileBytes) (image : Image) (done : List Elf64Phdr)
    (vmas ptrs : List Nat) : Prop where
  supplied : Supplied image vmas
  perm : vmas.Perm ptrs
  origin : ∀ area ∈ areasOf image.vmm vmas, ∃ earlier ∈ done, ∃ number,
    area = areaOf earlier number
  placed : List.Forall₂ (fun ph ptr => ∃ number frames, Placed file image ph ptr number frames)
    done ptrs

/-- The next segment is loaded. -/
theorem Partial.step {done : List Elf64Phdr} {ptrs : List Nat}
    (held : Partial file image done vmas ptrs) (sized : file.size < wordSize)
    (done_wellFormed : ∀ earlier ∈ done, WellFormedSegment file earlier)
    (wellFormed : WellFormedSegment file ph)
    (disjoint : ∀ earlier ∈ done, DisjointPages earlier ph)
    (enough : ph.pages ≤ image.supply.length) (nonzero : 0 ∉ image.supply)
    (apart : image.supply.Pairwise Apart) (node : 0 < image.areaNodes.length) :
    ∃ next after ptrs', image.loadSegment file ph = .ok (.ok (), next) ∧
      next.supply = image.supply.drop ph.pages ∧ next.areaNodes = image.areaNodes.tail ∧
      Partial file next (done ++ [ph]) after ptrs' := by
  obtain ⟨supplied, perm, origin, placed⟩ := held
  obtain ⟨nodePtr, areaNodes, nodes_eq⟩ := List.exists_cons_of_length_pos node
  have accepted := refuses_segment origin done_wellFormed wellFormed disjoint
  rcases @loadSegment_cases file ph _ _ _ _ (supplied.ready nodes_eq) with
    ⟨short, -⟩ | ⟨-, refused, -⟩ | ⟨-, -, next, after, load_eq, loaded⟩
  · omega
  · rw [accepted] at refused
    cases refused
  refine ⟨next, after, ptrs ++ [nodePtr], load_eq, loaded.supply_eq,
    by rw [loaded.nodes_eq, nodes_eq, List.tail_cons], supplied.next nodes_eq loaded, ?_, ?_, ?_⟩
  · exact loaded.perm.trans
      ((perm.cons nodePtr).trans (List.perm_append_singleton nodePtr ptrs).symm)
  · intro area mem
    rw [loaded.areas_eq] at mem
    rcases mem_place mem with rfl | mem
    · exact ⟨ph, by simp, image.nextVmo, rfl⟩
    · obtain ⟨earlier, done_mem, number, area_eq⟩ := origin area mem
      exact ⟨earlier, List.mem_append_left _ done_mem, number, area_eq⟩
  · refine List.rel_append (placed.imp ?_) (.cons ⟨_, _, loaded.placed sized wellFormed enough
      nonzero apart⟩ .nil)
    rintro earlier ptr ⟨number, frames, placed⟩
    exact ⟨number, frames, placed.keep sized wellFormed supplied.listed loaded⟩

/-- All segments are loaded. -/
theorem Partial.run {rest done : List Elf64Phdr} {ptrs : List Nat}
    (held : Partial file image done vmas ptrs) (sized : file.size < wordSize)
    (wellFormed : ∀ segment ∈ done ++ rest, WellFormedSegment file segment)
    (disjoint : (done ++ rest).Pairwise DisjointPages)
    (enough : (rest.map Elf64Phdr.pages).sum ≤ image.supply.length) (nonzero : 0 ∉ image.supply)
    (apart : image.supply.Pairwise Apart) (nodes : rest.length ≤ image.areaNodes.length) :
    ∃ next after ptrs', loadList file rest image = .ok (.ok (), next) ∧
      Partial file next (done ++ rest) after ptrs' := by
  induction rest generalizing done image vmas ptrs with
  | nil => exact ⟨image, vmas, ptrs, rfl, by rwa [List.append_nil]⟩
  | cons ph rest ih =>
      rw [List.map_cons, List.sum_cons] at enough
      rw [List.length_cons] at nodes
      have before := (List.pairwise_append.mp disjoint).2.2
      obtain ⟨mid, vmas', ptrs', load_eq, supply_eq, nodes_eq, mid_held⟩ := held.step sized
        (fun earlier mem => wellFormed earlier (List.mem_append_left _ mem))
        (wellFormed ph (by simp)) (fun earlier mem => before earlier mem ph (List.mem_cons_self ..))
        (by omega) nonzero apart (by omega)
      have shifted : done ++ ph :: rest = done ++ [ph] ++ rest := by simp
      rw [shifted] at wellFormed disjoint ⊢
      rw [loadList_cons, load_eq]
      apply ih mid_held wellFormed disjoint
      · rw [supply_eq, List.length_drop]
        omega
      · rw [supply_eq]
        exact fun mem => nonzero (List.mem_of_mem_drop mem)
      · rw [supply_eq]
        exact apart.sublist (List.drop_sublist ..)
      · rw [nodes_eq, List.length_tail]
        omega

end Placing

/-! ## The image of a well-formed file -/

/-- The byte of a segment at an address: a byte of the file, or zero. -/
def imageByte (file : FileBytes) (ph : Elf64Phdr) (addr : Nat) : BitVec 8 :=
  if ph.pVaddr ≤ addr ∧ addr < ph.pVaddr + ph.pFilesz then
    file.byte (ph.pOffset + (addr - ph.pVaddr))
  else
    0

/-- The area holds a segment: its pages, its permissions and its bytes. -/
structure Carries (file : FileBytes) (image : Image) (ph : Elf64Phdr) (area : VmaNode) : Prop where
  pages : ∀ addr, area.start ≤ addr ∧ addr < area.start + area.size ↔
    ph.Touches (addr / NORMAL_PAGE_SIZE)
  user : area.flags &&& VM_FLAG_USER ≠ 0
  write : area.flags &&& VM_FLAG_WRITE ≠ 0 ↔ ph.pFlags &&& PF_W ≠ 0
  exec : area.flags &&& VM_FLAG_EXEC ≠ 0 ↔ ph.pFlags &&& PF_X ≠ 0
  others : andNot area.flags (VM_FLAG_USER ||| VM_FLAG_WRITE ||| VM_FLAG_EXEC) = 0
  contents : ∃ number vmo, area.backingVmo = some number ∧ area.vmoOffset = 0 ∧
    image.vmos number = some vmo ∧ vmo.size = area.size ∧
    ∀ offset < area.size, ∃ pfn,
      vmo.frameAt (offset / NORMAL_PAGE_SIZE * NORMAL_PAGE_SIZE) = some pfn ∧
        image.memory (pfn + offset % NORMAL_PAGE_SIZE) = imageByte file ph (area.start + offset)

section Carrying

variable {file : FileBytes} {ph : Elf64Phdr} {image : Image} {ptr number : Nat} {frames : List Nat}

theorem segmentByte_eq (file : FileBytes) (ph : Elf64Phdr) (offset : Nat) :
    segmentByte file ph offset = imageByte file ph (ph.alignedVaddr + offset) := by
  have offset_eq := ph.offsetInFirstPage_eq
  have start_eq := ph.alignedVaddr_eq
  rw [segmentByte, imageByte]
  split
  next inside =>
    rw [if_pos (by omega)]
    congr 1
    omega
  next => rw [if_neg (by omega)]

theorem segmentFlags_eq (ph : Elf64Phdr) :
    Image.segmentFlags ph &&& VM_FLAG_USER ≠ 0 ∧
      (Image.segmentFlags ph &&& VM_FLAG_WRITE ≠ 0 ↔ ph.pFlags &&& PF_W ≠ 0) ∧
      (Image.segmentFlags ph &&& VM_FLAG_EXEC ≠ 0 ↔ ph.pFlags &&& PF_X ≠ 0) ∧
      andNot (Image.segmentFlags ph) (VM_FLAG_USER ||| VM_FLAG_WRITE ||| VM_FLAG_EXEC) = 0 := by
  by_cases writable : ph.pFlags &&& PF_W = 0 <;> by_cases executable : ph.pFlags &&& PF_X = 0 <;>
    simp only [Image.segmentFlags, writable, executable, ne_eq, not_true_eq_false,
      not_false_eq_true, if_true, if_false] <;>
    decide

/-- The area of a segment in place holds it. -/
theorem Placed.carries (placed : Placed file image ph ptr number frames)
    (wellFormed : WellFormedSegment file ph) : Carries file image ph (image.vmm.nodes ptr) := by
  obtain ⟨area, area_def⟩ : ∃ area, area = image.vmm.nodes ptr := ⟨_, rfl⟩
  have area_eq := placed.area_eq
  rw [← area_def] at area_eq ⊢
  have start_eq : area.start = ph.alignedVaddr := congrArg VmaNode.start area_eq
  have size_eq : area.size = ph.totalMapSize := congrArg VmaNode.size area_eq
  have flags_eq : area.flags = Image.segmentFlags ph := congrArg VmaNode.flags area_eq
  have backing_eq : area.backingVmo = some number := congrArg VmaNode.backingVmo area_eq
  have vmo_offset_eq : area.vmoOffset = 0 := congrArg VmaNode.vmoOffset area_eq
  obtain ⟨user, write, exec, others⟩ := segmentFlags_eq ph
  rw [← flags_eq] at user write exec others
  refine ⟨fun addr => ?_, user, write, exec, others, number, _, backing_eq, vmo_offset_eq,
    placed.vmo_eq, ?_, fun offset below => ?_⟩
  · rw [start_eq, size_eq]
    exact Elf64Phdr.touches_iff wellFormed addr
  · rw [enterFrames_size, size_eq]
    rfl
  · have inside : offset / NORMAL_PAGE_SIZE < frames.length := by
      rw [placed.covers, Elf64Phdr.pages, ← size_eq]
      exact Nat.div_lt_div_of_lt_of_dvd (size_eq ▸ ph.totalMapSize_dvd) below
    have found := @enterFrames_frameAt 0 frames _ (.new ph.totalMapSize) placed.nonzero inside
    rw [Nat.zero_add] at found
    refine ⟨_, found, ?_⟩
    rw [placed.filled _ inside _ (Nat.mod_lt _ (by decide)), Nat.div_add_mod', start_eq,
      segmentByte_eq]

end Carrying

/-- A file that can be loaded. -/
structure WellFormed (file : FileBytes) : Prop where
  long : Elf64Ehdr.bytes ≤ file.size
  magic : (List.range 4).map file.byte = [0x7F, 0x45, 0x4C, 0x46]
  table : (Elf64Ehdr.read file.byte).TableInside file
  segments : ∀ ph ∈ (Elf64Ehdr.read file.byte).segments file, WellFormedSegment file ph
  disjoint : ((Elf64Ehdr.read file.byte).segments file).Pairwise DisjointPages

/-- The allocators give frames that are not null and do not overlap, and nodes for areas once. -/
structure Lawful (image : Image) : Prop where
  nonzero : 0 ∉ image.supply
  apart : image.supply.Pairwise Apart
  distinct : image.areaNodes.Nodup

/-- The kernel has memory for a program: a block for a buffer of the file, frames for the pages of
its segments and nodes for its areas. -/
structure Room {κ : Type} (memory : Slab.KernelMemory κ) (lists : Nat → List Nat) (file : FileBytes)
    (image : Image) : Prop where
  buffer : memory.HasBuffer lists file.size 3
  frames : (((Elf64Ehdr.read file.byte).segments file).map Elf64Phdr.pages).sum ≤
    image.supply.length
  nodes : ((Elf64Ehdr.read file.byte).segments file).length ≤ image.areaNodes.length

/-- The areas of an address space are one for each segment of a file, each holding its segment. -/
def Builds (file : FileBytes) (image : Image) : Prop :=
  ∃ vmas ptrs, Listed image.vmm vmas ∧ vmas.Perm ptrs ∧
    List.Forall₂ (fun ph ptr => Carries file image ph (image.vmm.nodes ptr))
      ((Elf64Ehdr.read file.byte).segments file) ptrs

section Whole

variable {file : FileBytes} {image next : Image}

theorem WellFormed.fromBytes_eq (wellFormed : WellFormed file) :
    Elf64Ehdr.fromBytes file = .ok (.read file.byte) := by
  rw [Elf64Ehdr.fromBytes, if_neg (Nat.not_lt.mpr wellFormed.long),
    if_neg (not_not.mpr wellFormed.magic)]

/-- Into an empty address space the segments of a well-formed file are loaded, given memory. -/
theorem loadList_builds (wellFormed : WellFormed file) (sized : file.size < wordSize)
    (empty : Listed image.vmm []) (lawful : Lawful image)
    (frames : (((Elf64Ehdr.read file.byte).segments file).map Elf64Phdr.pages).sum ≤
      image.supply.length)
    (nodes : ((Elf64Ehdr.read file.byte).segments file).length ≤ image.areaNodes.length) :
    ∃ next, loadList file ((Elf64Ehdr.read file.byte).segments file) image = .ok (.ok (), next) ∧
      Builds file next := by
  have start : Partial file image [] [] [] :=
    ⟨.empty empty lawful.distinct, .nil, fun _ mem => absurd mem List.not_mem_nil, .nil⟩
  obtain ⟨next, after, ptrs, list_eq, held⟩ :=
    @Partial.run file image [] ((Elf64Ehdr.read file.byte).segments file) [] [] start sized
      wellFormed.segments wellFormed.disjoint frames lawful.nonzero lawful.apart nodes
  refine ⟨next, list_eq, after, ptrs, held.supplied.listed, held.perm, ?_⟩
  have placed := held.placed
  rw [List.nil_append] at placed
  refine ((List.forall₂_and_left _ _).mpr ⟨wellFormed.segments, placed⟩).imp ?_
  rintro ph ptr ⟨segment, number, frames, placed⟩
  exact placed.carries segment

/-- Segments that have all been loaded have found their frames and nodes. -/
theorem loadList_supplied {segments : List Elf64Phdr} {vmas : List Nat}
    (supplied : Supplied image vmas)
    (list_eq : loadList file segments image = .ok (.ok (), next)) :
    (segments.map Elf64Phdr.pages).sum ≤ image.supply.length ∧
      segments.length ≤ image.areaNodes.length := by
  induction segments generalizing image vmas with
  | nil => exact ⟨Nat.zero_le _, Nat.zero_le _⟩
  | cons ph rest ih =>
      rw [loadList_cons] at list_eq
      cases nodes_eq : image.areaNodes with
      | nil =>
          rw [loadSegment_nodeless nodes_eq] at list_eq
          cases list_eq
      | cons nodePtr areaNodes =>
          rcases @loadSegment_cases file ph _ _ _ _ (supplied.ready nodes_eq) with
            ⟨-, load_eq⟩ | ⟨-, -, mid, load_eq⟩ | ⟨enough, -, mid, after, load_eq, loaded⟩
          · rw [load_eq] at list_eq
            cases list_eq
          · rw [load_eq] at list_eq
            cases list_eq
          · rw [load_eq] at list_eq
            obtain ⟨frames, nodes⟩ := ih (supplied.next nodes_eq loaded) list_eq
            rw [loaded.supply_eq, List.length_drop] at frames
            rw [loaded.nodes_eq] at nodes
            rw [List.map_cons, List.sum_cons, List.length_cons, List.length_cons]
            omega

end Whole

namespace Loader

open Slab (KernelMemory)

variable {ω κ : Type} [DecidableEq κ]

section Contents

variable {memory : KernelMemory κ} {lists : Nat → List Nat} {file : FileBytes} {image : Image}

/-- Into an empty address space a well-formed file is loaded whole, given memory. -/
theorem loadContents_builds (sound : memory.Sound lists) (wellFormed : WellFormed file)
    (empty : Listed image.vmm []) (lawful : Lawful image) (room : Room memory lists file image) :
    ∃ next, loadContents memory image file =
      .ok (.ok (Elf64Ehdr.read file.byte).eEntry, next) ∧ Builds file next := by
  rcases fileBuffer_cases sound file.size with
    ⟨large, -⟩ | ⟨small, ⟨-, bufferPtr, buffer_eq⟩ | ⟨lacks, -⟩⟩
  · exact absurd room.buffer ((KernelMemory.not_hasBuffer_of_large (lt_trans (by decide) large)))
  · have sized : file.size < wordSize := small.trans_lt (by decide)
    obtain ⟨next, list_eq, builds⟩ :=
      loadList_builds wellFormed sized empty lawful room.frames room.nodes
    refine ⟨next, ?_, builds⟩
    simp only [loadContents, buffer_eq, loadFile_eq image sized wellFormed.fromBytes_eq
      wellFormed.table, list_eq, Except.map, Except.mapError]
  · exact absurd room.buffer lacks

/-- A well-formed file of which the entry point is returned has found memory. -/
theorem room_of_loadContents (sound : memory.Sound lists) (wellFormed : WellFormed file)
    (empty : Listed image.vmm []) (lawful : Lawful image) {entry : Nat} {next : Image}
    (contents_eq : loadContents memory image file = .ok (.ok entry, next)) :
    Room memory lists file image := by
  rcases fileBuffer_cases sound file.size with
    ⟨-, buffer_eq⟩ | ⟨small, ⟨has, bufferPtr, buffer_eq⟩ | ⟨-, stop, -, buffer_eq⟩⟩
  · rw [loadContents, buffer_eq] at contents_eq
    cases contents_eq
  · have sized : file.size < wordSize := small.trans_lt (by decide)
    simp only [loadContents, buffer_eq, loadFile_eq image sized wellFormed.fromBytes_eq
      wellFormed.table, mapError_eq_ok] at contents_eq
    obtain ⟨⟨result, after⟩, list_eq, same⟩ := map_eq_ok.mp contents_eq
    cases result with
    | error problem => cases same
    | ok done =>
        obtain ⟨frames, nodes⟩ := loadList_supplied (.empty empty lawful.distinct) list_eq
        exact ⟨has, frames, nodes⟩
  · rw [loadContents, buffer_eq] at contents_eq
    cases contents_eq

end Contents

/-- Every run of `load_elf` that returns returns the entry point of the file, with areas that hold
its segments, and no run stops; a file object that is ready at once leads to such a run. -/
structure LoadsWhole (memory : KernelMemory κ) (start : State ω) (file : FileBytes) : Prop where
  returns : ∃ final, (serving memory file).run start (answers memory file) = .ok final ∧
    final.phase = .returned (.ok (Elf64Ehdr.read file.byte).eEntry)
  goesOn : ∀ events stop, (serving memory file).Permits start events →
    (serving memory file).run start events = .error stop → stop = .notAwaited
  builds : ∀ events final result, (serving memory file).Permits start events →
    (serving memory file).run start events = .ok final → final.phase = .returned result →
    result = .ok (Elf64Ehdr.read file.byte).eEntry ∧ Builds file final.image

/-- For every well-formed file and an empty address space `load_elf` returns the entry point, and
the areas are one for each segment, with its pages, its permissions and its bytes, if and only if
the kernel heap has a block for a buffer of the file and there is memory for the segments. -/
theorem load_elf_builds_iff {kernelProcess process : Nat} {tables : Nat → HandleTable ω}
    {memory : KernelMemory κ} {lists : Nat → List Nat} {image : Image} {fileHandle : HandleID}
    {fileObj : ω} {file : FileBytes}
    (resolved : (tables process).resolve fileHandle .READ = .ok fileObj)
    (sound : memory.Sound lists) (wellFormed : WellFormed file) (empty : Listed image.vmm [])
    (lawful : Lawful image) :
    LoadsWhole memory (loadElf kernelProcess process tables image fileHandle) file ↔
      Room memory lists file image := by
  obtain ⟨start, start_eq⟩ : ∃ start, start = loadElf kernelProcess process tables image
      fileHandle := ⟨_, rfl⟩
  have image_eq : start.image = image := by rw [start_eq, loadElf, resolved]
  have phase_eq : start.phase = .awaitingStat fileObj process := by
    rw [start_eq, loadElf, resolved]
  have permitted := answers_permitted memory file start
  rw [← start_eq]
  constructor
  · rintro ⟨⟨final, run_eq, returned⟩, -, -⟩
    have contents_eq := run_returned phase_eq permitted run_eq returned
    rw [image_eq] at contents_eq
    exact room_of_loadContents sound wellFormed empty lawful contents_eq
  · intro room
    obtain ⟨next, contents_eq, builds⟩ :=
      loadContents_builds sound wellFormed empty lawful room
    rw [← image_eq] at contents_eq
    refine ⟨?_, fun events stop permits run_eq => ?_, fun events final result permits run_eq
      returned => ?_⟩
    · have direct := @run_answers ω κ _ memory file start fileObj process phase_eq
      rw [contents_eq] at direct
      obtain ⟨final, run_eq, returned, -⟩ := direct
      exact ⟨final, run_eq, returned⟩
    · rcases run_stopped phase_eq permits run_eq with same | stopped
      · exact same
      · cases contents_eq.symm.trans stopped
    · have answer_eq := run_returned phase_eq permits run_eq returned
      cases contents_eq.symm.trans answer_eq
      exact ⟨rfl, builds⟩

/-- A program of one segment, in a file of a given size. -/
def sizedProgram (size : Nat) : FileBytes := { tinyProgram 0 with size }

theorem segments_sizedProgram (size : Nat) :
    (Elf64Ehdr.read (sizedProgram size).byte).segments (sizedProgram size) = [tinySegment 0] :=
  segments_tinyProgram

theorem wellFormed_sizedProgram {size : Nat} (large : 120 ≤ size) :
    WellFormed (sizedProgram size) := by
  have magic : (List.range 4).map (tinyProgram 0).byte = [0x7F, 0x45, 0x4C, 0x46] := by decide
  refine ⟨le_trans (by decide) large, magic, ⟨rfl, large⟩, ?_, ?_⟩
  · rw [segments_sizedProgram]
    rintro ph (_ | ⟨_, ⟨⟩⟩)
    exact ⟨le_trans (by decide) large, by decide, by decide, by decide, by decide⟩
  · rw [segments_sizedProgram]
    exact List.pairwise_singleton ..

theorem lawful_onePageImage : Lawful onePageImage :=
  ⟨by decide, List.pairwise_singleton .., by decide⟩

/-- A program of one segment is loaded. -/
theorem load_elf_builds_iff_tiny :
    LoadsWhole .objectsOnly (loadElf 0 5 (oneHandle (.file 1)) onePageImage 4)
      (sizedProgram 120) := by
  refine (@load_elf_builds_iff _ _ _ 0 5 _ .objectsOnly _ _ _ (.file 1) _ rfl
    KernelMemory.sound_objectsOnly (wellFormed_sizedProgram (by decide))
    supplied_onePageImage.listed lawful_onePageImage).mpr ⟨hasBuffer_objectsOnly 0, ?_, ?_⟩
  · rw [segments_sizedProgram]
    decide
  · rw [segments_sizedProgram]
    decide

/-- A well-formed file of 9 MiB, for which there are frames and nodes, stops the kernel. -/
theorem load_elf_stops_large :
    WellFormed (sizedProgram 0x900000) ∧ Listed onePageImage.vmm [] ∧ Lawful onePageImage ∧
      (serving .objectsOnly (sizedProgram 0x900000)).run
        (loadElf 0 5 (oneHandle (.file 1)) onePageImage 4)
        (answers .objectsOnly (sizedProgram 0x900000)) =
          .error (.panicked .indexOutOfBounds) := by
  refine ⟨wellFormed_sizedProgram (by decide), supplied_onePageImage.listed, lawful_onePageImage,
    ?_⟩
  have layout_eq : bufferLayout 0x900000 = some ⟨0x900000, 8, ⟨3, rfl⟩, by decide⟩ := rfl
  have alloc_eq := @KernelMemory.alloc_eq_error_of_large _ _ .objectsOnly
    ⟨0x900000, 8, ⟨3, rfl⟩, by decide⟩ (by decide)
  have contents_eq : loadContents .objectsOnly onePageImage (sizedProgram 0x900000) =
      .error (.panicked .indexOutOfBounds) := by
    simp only [loadContents, fileBuffer, sizedProgram, layout_eq, alloc_eq]
  have direct := @run_answers _ _ _ .objectsOnly (sizedProgram 0x900000)
    (loadElf 0 5 (oneHandle (.file 1)) onePageImage 4) _ _ rfl
  have image_eq : (loadElf 0 5 (oneHandle (.file 1)) onePageImage 4).image = onePageImage := rfl
  rwa [image_eq, contents_eq] at direct

end Loader
end Vespertine
