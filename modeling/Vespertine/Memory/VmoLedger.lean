import Vespertine.Memory.Vmo

/-!
# The frames of memory objects

Any number of anonymous memory objects, and for each of them a ledger of the frames that it has
obtained from the page allocator and of those that it has given back.  An object owns what it has
obtained and not given back, each frame at one offset, and no other object owns it.

An object keeps its pages locked during an operation, so one operation follows another.  The page
allocator is given by the frames that it returns, none of which is in use.
-/

namespace Vespertine

namespace Vmo

/-- No frame is at two offsets. -/
def Single (vmo : Vmo) : Prop := ∀ left right frame,
  vmo.frameAt left = some frame → vmo.frameAt right = some frame → left = right

variable {vmo : Vmo} {offset frame : Nat}

theorem Single.nodup_framesFrom (single : vmo.Single) (start : Nat) :
    (vmo.framesFrom start).Nodup := by
  refine List.Nodup.map_on ?_ ((nodup_ascending vmo.pages).of_map.filter _)
  rintro ⟨left, frame⟩ left_mem ⟨right, other⟩ right_mem frame_eq
  obtain rfl : frame = other := frame_eq
  simp only [List.mem_filter, mem_ascending, decide_eq_true_eq] at left_mem right_mem
  have left_eq : vmo.frameAt left = some frame :=
    frameAt_eq_some.mpr ⟨AList.mem_lookup_iff.mpr left_mem.1, left_mem.2.2⟩
  have right_eq : vmo.frameAt right = some frame :=
    frameAt_eq_some.mpr ⟨AList.mem_lookup_iff.mpr right_mem.1, right_mem.2.2⟩
  rw [single left right frame left_eq right_eq]

/-- A frame enters where there was none. -/
theorem Single.insert (single : vmo.Single) (nonzero : frame ≠ 0)
    (fresh : ∀ place, vmo.frameAt place ≠ some frame) :
    { vmo with pages := vmo.pages.insert offset frame }.Single := by
  intro left right shared left_eq right_eq
  by_cases left_same : left = offset
  · subst left_same
    rw [frameAt_insert_same nonzero] at left_eq
    obtain rfl := Option.some.inj left_eq
    by_contra ne
    rw [frameAt_insert_other (Ne.symm ne)] at right_eq
    exact fresh right right_eq
  · rw [frameAt_insert_other left_same] at left_eq
    by_cases right_same : right = offset
    · subst right_same
      rw [frameAt_insert_same nonzero] at right_eq
      obtain rfl := Option.some.inj right_eq
      exact absurd left_eq (fresh left)
    · rw [frameAt_insert_other right_same] at right_eq
      exact single left right shared left_eq right_eq

theorem Single.framesFrom_insert (single : vmo.Single) (nonzero : frame ≠ 0)
    (absent : vmo.frameAt offset = none) (fresh : ∀ place, vmo.frameAt place ≠ some frame) :
    ({ vmo with pages := vmo.pages.insert offset frame }.framesFrom 0).Perm
      (frame :: vmo.framesFrom 0) := by
  have not_mem : frame ∉ vmo.framesFrom 0 := by
    rw [mem_framesFrom]
    exact fun ⟨place, _, found⟩ => fresh place found
  refine (List.perm_ext_iff_of_nodup ((single.insert nonzero fresh).nodup_framesFrom 0)
    (List.nodup_cons.mpr ⟨not_mem, single.nodup_framesFrom 0⟩)).mpr fun other => ?_
  rw [List.mem_cons, mem_framesFrom, mem_framesFrom]
  constructor
  · rintro ⟨place, _, found⟩
    by_cases same : place = offset
    · subst same
      rw [frameAt_insert_same nonzero] at found
      exact .inl (Option.some.inj found).symm
    · rw [frameAt_insert_other same] at found
      exact .inr ⟨place, place.zero_le, found⟩
  · rintro (rfl | ⟨place, _, found⟩)
    · exact ⟨offset, offset.zero_le, frameAt_insert_same nonzero⟩
    · refine ⟨place, place.zero_le, ?_⟩
      rw [frameAt_insert_other, found]
      rintro rfl
      simp [absent] at found

/-- An object cut down to a size. -/
def shrink (vmo : Vmo) (newSize : Nat) : Vmo :=
  { vmo with size := newSize, pages := removeFrom vmo.pages newSize }

theorem frameAt_shrink (newSize : Nat) : (vmo.shrink newSize).frameAt offset =
    if newSize ≤ offset then none else vmo.frameAt offset := by
  rw [frameAt, shrink, lookup_removeFrom]
  split <;> rfl

theorem frameAt_of_shrink {newSize : Nat}
    (found : (vmo.shrink newSize).frameAt offset = some frame) :
    offset < newSize ∧ vmo.frameAt offset = some frame := by
  rw [frameAt_shrink] at found
  split at found
  next => cases found
  next lt => exact ⟨Nat.lt_of_not_le lt, found⟩

theorem Single.shrink (single : vmo.Single) (newSize : Nat) : (vmo.shrink newSize).Single :=
  fun left right shared left_eq right_eq =>
    single left right shared (frameAt_of_shrink left_eq).2 (frameAt_of_shrink right_eq).2

/-- What is given back and what stays are all the frames there were. -/
theorem Single.framesFrom_shrink (single : vmo.Single) (newSize : Nat) :
    (vmo.framesFrom 0).Perm (vmo.framesFrom newSize ++ (vmo.shrink newSize).framesFrom 0) := by
  have apart : (vmo.framesFrom newSize).Disjoint ((vmo.shrink newSize).framesFrom 0) := by
    intro shared gone stays
    obtain ⟨place, le, found⟩ := mem_framesFrom.mp gone
    obtain ⟨other, _, kept⟩ := mem_framesFrom.mp stays
    obtain ⟨lt, kept⟩ := frameAt_of_shrink kept
    obtain rfl := single place other shared found kept
    omega
  refine (List.perm_ext_iff_of_nodup (single.nodup_framesFrom 0)
    ((single.nodup_framesFrom newSize).append ((single.shrink newSize).nodup_framesFrom 0)
      apart)).mpr fun other => ?_
  rw [List.mem_append, mem_framesFrom, mem_framesFrom, mem_framesFrom]
  constructor
  · rintro ⟨place, _, found⟩
    by_cases le : newSize ≤ place
    · exact .inl ⟨place, le, found⟩
    · exact .inr ⟨place, place.zero_le, by rw [frameAt_shrink, if_neg le, found]⟩
  · rintro (⟨place, _, found⟩ | ⟨place, _, found⟩)
    · exact ⟨place, place.zero_le, found⟩
    · exact ⟨place, place.zero_le, (frameAt_of_shrink found).2⟩

/-- An object padded to a size. -/
def pad (vmo : Vmo) (newSize : Nat) : Vmo :=
  { vmo with size := newSize, pages := padPages vmo.pages (pageOffsets newSize) }

theorem frameAt_pad (newSize : Nat) : (vmo.pad newSize).frameAt offset = vmo.frameAt offset :=
  frameAt_padPages (pageOffsets newSize)

/-- Padding changes no page that is there. -/
theorem lookup_padPages {pages : PageMap} {value : Nat} (offsets : List Nat)
    (found : pages.lookup offset = some value) :
    (padPages pages offsets).lookup offset = some value := by
  induction offsets generalizing pages with
  | nil => exact found
  | cons first offsets ih =>
      rw [padPages, List.foldl_cons, ← padPages]
      refine ih ?_
      split
      · exact found
      next absent =>
        rw [AList.lookup_insert_ne, found]
        rintro rfl
        rw [AList.lookup_eq_none.mpr absent] at found
        cases found

/-- A clone enters one frame of the allocator at each offset, in order. -/
theorem clonePages_zip {pages after : PageMap} {offsets supply rest : List Nat}
    (clone_eq : clonePages pages offsets supply = .ok (after, rest)) (nodup : offsets.Nodup) :
    ∃ used, supply = used ++ rest ∧ used.length = offsets.length ∧
      (∀ place, place ∉ offsets → after.lookup place = pages.lookup place) ∧
      ∀ pair ∈ offsets.zip used, after.lookup pair.1 = some pair.2 := by
  induction offsets generalizing pages supply with
  | nil =>
      cases clone_eq
      exact ⟨[], rfl, rfl, fun _ _ => rfl, by simp⟩
  | cons first offsets ih =>
      obtain ⟨not_mem, nodup⟩ := List.nodup_cons.mp nodup
      obtain ⟨⟨pfn, left⟩, alloc_eq, done⟩ := bind_eq_ok.mp clone_eq
      obtain rfl := PagedBackingStore.allocFrame_ok alloc_eq
      obtain ⟨used, rfl, length_eq, others, entered⟩ := ih done nodup
      refine ⟨pfn :: used, rfl, by simp [length_eq], fun place absent => ?_, fun pair mem => ?_⟩
      · obtain ⟨ne, absent⟩ := not_or.mp (List.mem_cons.not.mp absent)
        rw [others place absent, AList.lookup_insert_ne ne]
      · rcases List.mem_cons.mp mem with rfl | mem
        · rw [others first not_mem, AList.lookup_insert]
        · exact entered pair mem

theorem nodup_pageOffsets (size : Nat) : (pageOffsets size).Nodup := by
  refine List.nodup_range.map fun left right eq => ?_
  simpa [NORMAL_PAGE_SIZE] using eq

theorem lt_of_mem_pageOffsets {size : Nat} (mem : offset ∈ pageOffsets size) : offset < size := by
  simp only [pageOffsets, List.mem_map, List.mem_range, pageCount, NORMAL_PAGE_SIZE] at mem
  obtain ⟨page, lt, rfl⟩ := mem
  omega

/-- A clone owns exactly the frames that were taken for it, each at one offset within its size. -/
theorem cloneRange_ledger {child : Vmo} {len : Nat} {supply rest : List Nat}
    (clone_eq : vmo.cloneRange offset len supply = .ok (.ok child, rest)) (nodup : supply.Nodup)
    (nonzero : 0 ∉ supply) :
    ∃ used, supply = used ++ rest ∧ child.isPhysical = false ∧ child.Single ∧
      (child.framesFrom 0).Perm used ∧
      ∀ place frame, child.frameAt place = some frame → place < child.size ∧ frame ∈ used := by
  obtain ⟨taken, taken_eq, _, _, unique⟩ := PagedBackingStore.cloneRange_spec clone_eq
  rw [cloneRange] at clone_eq
  split_ifs at clone_eq
  · cases clone_eq
  · cases clone_eq
  · obtain ⟨⟨pages, left⟩, pages_eq, done⟩ := bind_eq_ok.mp clone_eq
    cases done
    obtain ⟨used, rfl, length_eq, others, entered⟩ :=
      clonePages_zip pages_eq (nodup_pageOffsets len)
    have keys_eq : ((pageOffsets len).zip used).map Prod.fst = pageOffsets len :=
      List.map_fst_zip length_eq.ge
    have values_eq : ((pageOffsets len).zip used).map Prod.snd = used :=
      List.map_snd_zip length_eq.le
    have inside (place frame : Nat) (found : (Vmo.mk len pages false).frameAt place = some frame) :
        place ∈ pageOffsets len ∧ frame ∈ used := by
      obtain ⟨stored, _⟩ := frameAt_eq_some.mp found
      have mem : place ∈ pageOffsets len := by
        by_contra absent
        rw [others place absent] at stored
        simp at stored
      rw [← keys_eq, List.mem_map] at mem
      obtain ⟨⟨first, second⟩, pair_mem, rfl⟩ := mem
      have second_eq := entered _ pair_mem
      rw [stored] at second_eq
      obtain rfl := Option.some.inj second_eq
      exact ⟨(List.of_mem_zip pair_mem).1, (List.of_mem_zip pair_mem).2⟩
    have used_nodup : used.Nodup := (List.nodup_append.mp nodup).1
    obtain rfl : used = taken := List.append_cancel_right taken_eq
    have single : (Vmo.mk len pages false).Single := unique used_nodup
    refine ⟨used, rfl, rfl, single, ?_, fun place frame found => ?_⟩
    · refine (List.perm_ext_iff_of_nodup (single.nodup_framesFrom 0) used_nodup).mpr fun frame => ?_
      rw [mem_framesFrom]
      constructor
      · rintro ⟨place, _, found⟩
        exact (inside place frame found).2
      · intro mem
        rw [← values_eq, List.mem_map] at mem
        obtain ⟨⟨place, _⟩, pair_mem, rfl⟩ := mem
        have used_mem : _ ∈ used := (List.of_mem_zip pair_mem).2
        refine ⟨place, place.zero_le, frameAt_eq_some.mpr ⟨entered _ pair_mem, ?_⟩⟩
        intro zero
        exact nonzero (zero ▸ List.mem_append_left _ used_mem)
    · exact ⟨lt_of_mem_pageOffsets (inside place frame found).1, (inside place frame found).2⟩

/-- A request leaves the object alone, or enters a frame that it takes. -/
theorem requestPage_cases {next : Vmo} {supply rest : List Nat} {result : Except Unit Nat}
    (request_eq : vmo.requestPage offset supply = .ok (result, next, rest)) :
    (next = vmo ∧ rest = supply ∧ ∀ frame, result = .ok frame → vmo.frameAt offset = some frame) ∨
      ∃ frame, result = .ok frame ∧ supply = frame :: rest ∧ offset < vmo.size ∧
        vmo.frameAt offset = none ∧ next = { vmo with pages := vmo.pages.insert offset frame } := by
  rw [requestPage] at request_eq
  split at request_eq
  next =>
    cases request_eq
    exact .inl ⟨rfl, rfl, by simp⟩
  next inside =>
    split at request_eq
    next pfn found =>
      cases request_eq
      exact .inl ⟨rfl, rfl, fun frame result_eq => by rw [found, Except.ok.inj result_eq]⟩
    next absent =>
      split at request_eq
      next =>
        cases request_eq
        exact .inl ⟨rfl, rfl, by simp⟩
      next =>
        obtain ⟨⟨pfn, left⟩, alloc_eq, done⟩ := bind_eq_ok.mp request_eq
        cases done
        exact .inr ⟨pfn, rfl, PagedBackingStore.allocFrame_ok alloc_eq, by omega, absent, rfl⟩

/-- A change of size does nothing, cuts the object down and gives back what is cut off, or pads
it. -/
theorem resizeObject_cases {next : Vmo} {newSize : Nat} {freed : List Nat}
    (resize_eq : vmo.resizeObject newSize = .ok (next, freed)) :
    (newSize = vmo.size ∧ next = vmo ∧ freed = []) ∨
      (newSize < vmo.size ∧ next = vmo.shrink newSize ∧ freed = vmo.framesFrom newSize) ∨
      (vmo.size < newSize ∧ next = vmo.pad newSize ∧ freed = []) := by
  rw [resizeObject] at resize_eq
  split_ifs at resize_eq with _ same shrinks
  · cases resize_eq
    exact .inl ⟨same, rfl, rfl⟩
  · cases resize_eq
    exact .inr (.inl ⟨shrinks, rfl, rfl⟩)
  · cases resize_eq
    exact .inr (.inr ⟨by omega, rfl, rfl⟩)

theorem framesFrom_eq_nil {start : Nat} (none : ∀ place, vmo.frameAt place = none) :
    vmo.framesFrom start = [] := by
  refine List.eq_nil_iff_forall_not_mem.mpr fun frame mem => ?_
  obtain ⟨place, _, found⟩ := mem_framesFrom.mp mem
  simp [none place] at found

/-- Frames at the same offsets are the same frames. -/
theorem Single.framesFrom_congr {other : Vmo} (single : vmo.Single)
    (same : ∀ place, other.frameAt place = vmo.frameAt place) :
    (other.framesFrom 0).Perm (vmo.framesFrom 0) := by
  have other_single : other.Single := fun left right frame left_eq right_eq =>
    single left right frame (same left ▸ left_eq) (same right ▸ right_eq)
  refine (List.perm_ext_iff_of_nodup (other_single.nodup_framesFrom 0)
    (single.nodup_framesFrom 0)).mpr fun frame => ?_
  simp only [mem_framesFrom, same]

end Vmo

namespace VmoLedger

open Function (update)

/-- The memory objects are `ν`. -/
structure State (ν : Type) where
  vmos : ν → Option Vmo
  /-- The frames that an object has obtained from the page allocator. -/
  obtained : ν → List Nat
  /-- The frames that it has given back. -/
  freed : ν → List Nat

/-- Operations; `supply` are the frames that the page allocator returns. -/
inductive Input (ν : Type) where
  | create (vmo : ν) (size : Nat)
  | requestPage (vmo : ν) (offset : Nat) (supply : List Nat)
  | resizeObject (vmo : ν) (newSize : Nat)
  | cloneRange (vmo child : ν) (offset len : Nat) (supply : List Nat)
  | drop (vmo : ν)

inductive Stop where
  /-- There is no such object, or there is one of that name. -/
  | disabled
  | panicked (panic : Panic)

variable {ν : Type} [DecidableEq ν]

namespace State

def new : State ν := ⟨fun _ => none, fun _ => [], fun _ => []⟩

/-- A frame is at an offset of an object. -/
def Holds (state : State ν) (name : ν) (offset frame : Nat) : Prop :=
  ∃ vmo, state.vmos name = some vmo ∧ vmo.frameAt offset = some frame

/-- Write down an object, and what it has obtained and given back meanwhile. -/
def record (state : State ν) (name : ν) (vmo : Option Vmo) (obtained freed : List Nat) :
    State ν where
  vmos := update state.vmos name vmo
  obtained := update state.obtained name (state.obtained name ++ obtained)
  freed := update state.freed name (state.freed name ++ freed)

end State

/-- The frames of a supply that are gone. -/
def taken (supply rest : List Nat) : List Nat := supply.take (supply.length - rest.length)

def step (state : State ν) : Input ν → Except Stop (State ν)
  | .create name size =>
      match state.vmos name with
      | some _ => .error .disabled
      | none => .ok (state.record name (some (.new size)) [] [])
  | .requestPage name offset supply =>
      match state.vmos name with
      | none => .error .disabled
      | some vmo =>
          match vmo.requestPage offset supply with
          | .error panic => .error (.panicked panic)
          | .ok (_, next, rest) => .ok (state.record name (some next) (taken supply rest) [])
  | .resizeObject name newSize =>
      match state.vmos name with
      | none => .error .disabled
      | some vmo =>
          match vmo.resizeObject newSize with
          | .error () => .ok state
          | .ok (next, freed) => .ok (state.record name (some next) [] freed)
  | .cloneRange name child offset len supply =>
      match state.vmos name, state.vmos child with
      | some vmo, none =>
          match vmo.cloneRange offset len supply with
          | .error panic => .error (.panicked panic)
          | .ok (.error (), _) => .ok state
          | .ok (.ok clone, rest) => .ok (state.record child (some clone) (taken supply rest) [])
      | _, _ => .error .disabled
  | .drop name =>
      match state.vmos name with
      | none => .error .disabled
      | some vmo => .ok (state.record name none [] vmo.drop)

/-- The page allocator returns frames that are not zero, each once, and none that is in use. -/
def Fresh (state : State ν) (supply : List Nat) : Prop :=
  supply.Nodup ∧ 0 ∉ supply ∧ ∀ frame ∈ supply, ∀ name offset, ¬ state.Holds name offset frame

/-- What the page allocator returns is fresh. -/
def Allocates (state : State ν) : Input ν → Prop
  | .requestPage _ _ supply | .cloneRange _ _ _ _ supply => Fresh state supply
  | _ => True

def machine : Machine (State ν) (Input ν) Stop := ⟨step, Allocates⟩

/-!
### The ledger
-/

/-- The frames of an object; one that is gone has none. -/
def frames (vmo : Option Vmo) : List Nat := vmo.elim [] (·.framesFrom 0)

omit [DecidableEq ν] in
theorem fresh_of_frames {state : State ν} {supply : List Nat} (nodup : supply.Nodup)
    (nonzero : 0 ∉ supply) (unused : ∀ name, ∀ frame ∈ supply, frame ∉ frames (state.vmos name)) :
    Fresh state supply := by
  refine ⟨nodup, nonzero, ?_⟩
  rintro frame mem name offset ⟨vmo, found, at_eq⟩
  refine unused name frame mem ?_
  rw [found]
  exact Vmo.mem_framesFrom.mpr ⟨offset, offset.zero_le, at_eq⟩

structure Sound (state : State ν) : Prop where
  plain : ∀ name vmo, state.vmos name = some vmo → vmo.isPhysical = false
  inside : ∀ name vmo offset frame, state.vmos name = some vmo →
    vmo.frameAt offset = some frame → offset < vmo.size
  unique : ∀ name other offset place frame, state.Holds name offset frame →
    state.Holds other place frame → name = other ∧ offset = place
  ledger : ∀ name, (state.obtained name).Perm (state.freed name ++ frames (state.vmos name))

/-- What an object must be like to take the place of another. -/
structure Fits (state : State ν) (name : ν) (next : Vmo) : Prop where
  plain : next.isPhysical = false
  inside : ∀ offset frame, next.frameAt offset = some frame → offset < next.size
  single : next.Single
  apart : ∀ offset frame, next.frameAt offset = some frame → ∀ other, other ≠ name →
    ∀ place, ¬ state.Holds other place frame

namespace Sound

variable {state next : State ν} {name : ν} {vmo : Vmo}

omit [DecidableEq ν] in
theorem new : Sound (State.new : State ν) where
  plain _ _ found := by cases found
  inside _ _ _ _ found := by cases found
  unique _ _ _ _ _ := by
    rintro ⟨_, found, _⟩
    cases found
  ledger _ := List.Perm.refl _

omit [DecidableEq ν] in
theorem single (sound : Sound state) (found : state.vmos name = some vmo) : vmo.Single :=
  fun left right frame left_eq right_eq =>
    (sound.unique name name left right frame ⟨vmo, found, left_eq⟩ ⟨vmo, found, right_eq⟩).2

/-- The books balance if the object that is written down has what there was, and what was obtained,
but for what was given back. -/
theorem record (sound : Sound state) {after : Option Vmo} {obtained freed : List Nat}
    (fits : ∀ vmo, after = some vmo → Fits state name vmo)
    (balance : (frames (state.vmos name) ++ obtained).Perm (freed ++ frames after)) :
    Sound (state.record name after obtained freed) where
  plain other vmo found := by
    rcases eq_or_ne other name with rfl | ne
    · exact (fits vmo (by simpa [State.record] using found)).plain
    · exact sound.plain other vmo (by simpa [State.record, ne] using found)
  inside other vmo offset frame found at_eq := by
    rcases eq_or_ne other name with rfl | ne
    · exact (fits vmo (by simpa [State.record] using found)).inside offset frame at_eq
    · exact sound.inside other vmo offset frame (by simpa [State.record, ne] using found) at_eq
  unique := by
    have old {other : ν} {place frame : Nat} (ne : other ≠ name)
        (holds : (state.record name after obtained freed).Holds other place frame) :
        state.Holds other place frame := by
      simpa [State.Holds, State.record, ne] using holds
    have new {place frame : Nat}
        (holds : (state.record name after obtained freed).Holds name place frame) :
        ∃ vmo, Fits state name vmo ∧ after = some vmo ∧ vmo.frameAt place = some frame := by
      obtain ⟨vmo, found, at_eq⟩ := holds
      have after_eq : after = some vmo := by simpa [State.record] using found
      exact ⟨vmo, fits vmo after_eq, after_eq, at_eq⟩
    intro first second offset place frame first_holds second_holds
    rcases eq_or_ne first name with rfl | first_ne
    · obtain ⟨vmo, fit, after_eq, at_eq⟩ := new first_holds
      rcases eq_or_ne second first with rfl | second_ne
      · obtain ⟨vmo', _, after_eq', at_eq'⟩ := new second_holds
        obtain rfl : vmo = vmo' := Option.some.inj (after_eq.symm.trans after_eq')
        exact ⟨rfl, fit.single offset place frame at_eq at_eq'⟩
      · have second_old := old second_ne second_holds
        exact absurd second_old (fit.apart offset frame at_eq second second_ne place)
    · rcases eq_or_ne second name with rfl | second_ne
      · obtain ⟨vmo, fit, _, at_eq⟩ := new second_holds
        exact absurd (old first_ne first_holds) (fit.apart place frame at_eq first first_ne offset)
      · exact sound.unique first second offset place frame (old first_ne first_holds)
          (old second_ne second_holds)
  ledger other := by
    rcases eq_or_ne other name with rfl | ne
    · simp only [State.record, Function.update_self, List.append_assoc]
      refine ((sound.ledger other).append_right obtained).trans ?_
      rw [List.append_assoc]
      exact balance.append_left _
    · simpa [State.record, ne] using sound.ledger other

theorem taken_append (used rest : List Nat) : taken (used ++ rest) rest = used := by
  simp [taken]

omit [DecidableEq ν] in
theorem fits (sound : Sound state) (found : state.vmos name = some vmo) : Fits state name vmo where
  plain := sound.plain name vmo found
  inside offset frame := sound.inside name vmo offset frame found
  single := sound.single found
  apart offset frame at_eq other ne place holds :=
    ne (sound.unique other name place offset frame holds ⟨vmo, found, at_eq⟩).1

theorem create (sound : Sound state) (size : Nat) (absent : state.vmos name = none) :
    Sound (state.record name (some (.new size)) [] []) := by
  refine sound.record ?_ ?_
  · rintro _ ⟨⟩
    exact ⟨rfl, by simp [Vmo.frameAt_new], by simp [Vmo.Single, Vmo.frameAt_new],
      by simp [Vmo.frameAt_new]⟩
  · simp [absent, frames, Vmo.framesFrom_eq_nil (Vmo.frameAt_new size)]

theorem requestPage (sound : Sound state) {offset : Nat} {supply rest : List Nat} {after : Vmo}
    {result : Except Unit Nat} (found : state.vmos name = some vmo) (fresh : Fresh state supply)
    (request_eq : vmo.requestPage offset supply = .ok (result, after, rest)) :
    Sound (state.record name (some after) (taken supply rest) []) := by
  have fits := sound.fits found
  obtain ⟨rfl, rfl, _⟩ | ⟨frame, _, rfl, lt, absent, rfl⟩ := Vmo.requestPage_cases request_eq
  · refine sound.record ?_ ?_
    · rintro _ ⟨⟩
      exact fits
    · simp [found, taken]
  · obtain ⟨_, nonzero, unused⟩ := fresh
    have frame_ne : frame ≠ 0 := fun zero => nonzero (zero ▸ List.mem_cons_self)
    have frame_fresh (other : ν) (place : Nat) : ¬ state.Holds other place frame :=
      unused frame List.mem_cons_self other place
    have absent_all (place : Nat) : vmo.frameAt place ≠ some frame :=
      fun at_eq => frame_fresh name place ⟨vmo, found, at_eq⟩
    refine sound.record ?_ ?_
    · rintro _ ⟨⟩
      refine ⟨fits.plain, fun place other at_eq => ?_, fits.single.insert frame_ne absent_all,
        fun place other at_eq => ?_⟩
      · by_cases same : place = offset
        · subst same
          exact lt
        · rw [Vmo.frameAt_insert_other same] at at_eq
          exact fits.inside place other at_eq
      · by_cases same : place = offset
        · subst same
          rw [Vmo.frameAt_insert_same frame_ne] at at_eq
          obtain rfl := Option.some.inj at_eq
          exact fun name' _ => frame_fresh name'
        · rw [Vmo.frameAt_insert_other same] at at_eq
          exact fits.apart place other at_eq
    · rw [← List.singleton_append, taken_append, found]
      refine List.perm_append_comm.trans ?_
      exact (fits.single.framesFrom_insert frame_ne absent absent_all).symm

theorem resizeObject (sound : Sound state) {newSize : Nat} {freed : List Nat} {after : Vmo}
    (found : state.vmos name = some vmo)
    (resize_eq : vmo.resizeObject newSize = .ok (after, freed)) :
    Sound (state.record name (some after) [] freed) := by
  have fits := sound.fits found
  obtain ⟨_, rfl, rfl⟩ | ⟨_, rfl, rfl⟩ | ⟨lt, rfl, rfl⟩ := Vmo.resizeObject_cases resize_eq
  · refine sound.record ?_ ?_
    · rintro _ ⟨⟩
      exact fits
    · simp [found]
  · refine sound.record ?_ ?_
    · rintro _ ⟨⟩
      exact ⟨fits.plain, fun place frame at_eq => (Vmo.frameAt_of_shrink at_eq).1,
        fits.single.shrink newSize, fun place frame at_eq =>
          fits.apart place frame (Vmo.frameAt_of_shrink at_eq).2⟩
    · rw [List.append_nil, found]
      exact fits.single.framesFrom_shrink newSize
  · have same (place : Nat) : (vmo.pad newSize).frameAt place = vmo.frameAt place :=
      Vmo.frameAt_pad newSize
    refine sound.record ?_ ?_
    · rintro _ ⟨⟩
      refine ⟨fits.plain, fun place frame at_eq => ?_, fun left right frame left_eq right_eq => ?_,
        fun place frame at_eq => fits.apart place frame (same place ▸ at_eq)⟩
      · exact (fits.inside place frame (same place ▸ at_eq)).trans lt
      · exact fits.single left right frame (same left ▸ left_eq) (same right ▸ right_eq)
    · rw [List.append_nil, found]
      exact (fits.single.framesFrom_congr same).symm

theorem cloneRange (sound : Sound state) {offset len : Nat} {supply rest : List Nat} {child : Vmo}
    (absent : state.vmos name = none) (fresh : Fresh state supply)
    (clone_eq : vmo.cloneRange offset len supply = .ok (.ok child, rest)) :
    Sound (state.record name (some child) (taken supply rest) []) := by
  obtain ⟨nodup, nonzero, unused⟩ := fresh
  obtain ⟨used, rfl, plain, single, perm, owned⟩ := Vmo.cloneRange_ledger clone_eq nodup nonzero
  refine sound.record ?_ ?_
  · rintro _ ⟨⟩
    refine ⟨plain, fun place frame at_eq => (owned place frame at_eq).1, single,
      fun place frame at_eq other _ => unused frame ?_ other⟩
    exact List.mem_append_left rest (owned place frame at_eq).2
  · rw [taken_append, absent]
    exact perm.symm

theorem drop (sound : Sound state) (found : state.vmos name = some vmo) :
    Sound (state.record name none [] vmo.drop) := by
  refine sound.record (by simp) ?_
  simp [found, frames, Vmo.drop, sound.plain name vmo found]

theorem step (sound : Sound state) {input : Input ν} (allocates : Allocates state input)
    (step_eq : VmoLedger.step state input = .ok next) : Sound next := by
  cases input with
  | create name size =>
      simp only [VmoLedger.step] at step_eq
      split at step_eq
      next => cases step_eq
      next absent =>
        obtain rfl := Except.ok.inj step_eq
        exact sound.create size absent
  | requestPage name offset supply =>
      simp only [VmoLedger.step] at step_eq
      split at step_eq
      next => cases step_eq
      next vmo found =>
        split at step_eq
        next => cases step_eq
        next request_eq =>
          obtain rfl := Except.ok.inj step_eq
          exact sound.requestPage found allocates request_eq
  | resizeObject name newSize =>
      simp only [VmoLedger.step] at step_eq
      split at step_eq
      next => cases step_eq
      next vmo found =>
        split at step_eq
        next =>
          obtain rfl := Except.ok.inj step_eq
          exact sound
        next resize_eq =>
          obtain rfl := Except.ok.inj step_eq
          exact sound.resizeObject found resize_eq
  | cloneRange name child offset len supply =>
      simp only [VmoLedger.step] at step_eq
      split at step_eq
      next vmo found absent =>
        split at step_eq
        next => cases step_eq
        next =>
          obtain rfl := Except.ok.inj step_eq
          exact sound
        next clone_eq =>
          obtain rfl := Except.ok.inj step_eq
          exact sound.cloneRange absent allocates clone_eq
      next => cases step_eq
  | drop name =>
      simp only [VmoLedger.step] at step_eq
      split at step_eq
      next => cases step_eq
      next vmo found =>
        obtain rfl := Except.ok.inj step_eq
        exact sound.drop found

end Sound

/-!
### Pages that stay
-/

/-- An input neither cuts a page off an object nor drops the object. -/
def Keeps (name : ν) (offset : Nat) : Input ν → Prop
  | .resizeObject other newSize => other = name → offset < newSize
  | .drop other => other ≠ name
  | _ => True

/-- An object answers a request for an offset with a frame that it has there. -/
def Answers (state : State ν) (name : ν) (offset frame : Nat) : Prop :=
  ∃ vmo, state.vmos name = some vmo ∧ vmo.frameAt offset = some frame ∧ offset < vmo.size

namespace Answers

variable {state next : State ν} {name : ν} {offset frame : Nat}

/-- Whatever is written down of another object, or of this one with the frame in its place. -/
theorem record (answers : Answers state name offset frame) {other : ν} {after : Option Vmo}
    {obtained freed : List Nat}
    (same : other = name →
      ∃ vmo, after = some vmo ∧ vmo.frameAt offset = some frame ∧ offset < vmo.size) :
    Answers (state.record other after obtained freed) name offset frame := by
  rcases eq_or_ne name other with rfl | ne
  · obtain ⟨vmo, after_eq, at_eq, lt⟩ := same rfl
    exact ⟨vmo, by simp [State.record, after_eq], at_eq, lt⟩
  · obtain ⟨vmo, found, at_eq, lt⟩ := answers
    exact ⟨vmo, by simp [State.record, ne, found], at_eq, lt⟩

theorem requestPage (answers : Answers state name offset frame) {other : ν} {vmo after : Vmo}
    {place : Nat} {supply rest : List Nat} {result : Except Unit Nat}
    (found : state.vmos other = some vmo)
    (request_eq : vmo.requestPage place supply = .ok (result, after, rest)) :
    Answers (state.record other (some after) (taken supply rest) []) name offset frame := by
  refine answers.record ?_
  rintro rfl
  obtain ⟨vmo', found', at_eq, lt⟩ := answers
  obtain rfl : vmo = vmo' := Option.some.inj (found.symm.trans found')
  refine ⟨after, rfl, ?_⟩
  obtain ⟨rfl, _, _⟩ | ⟨new, _, _, _, absent, rfl⟩ := Vmo.requestPage_cases request_eq
  · exact ⟨at_eq, lt⟩
  · refine ⟨?_, lt⟩
    rw [Vmo.frameAt_insert_other, at_eq]
    rintro rfl
    simp [absent] at at_eq

theorem resizeObject (answers : Answers state name offset frame) {other : ν} {vmo after : Vmo}
    {newSize : Nat} {freed : List Nat} (keeps : other = name → offset < newSize)
    (found : state.vmos other = some vmo)
    (resize_eq : vmo.resizeObject newSize = .ok (after, freed)) :
    Answers (state.record other (some after) [] freed) name offset frame := by
  refine answers.record ?_
  rintro rfl
  obtain ⟨vmo', found', at_eq, lt⟩ := answers
  obtain rfl : vmo = vmo' := Option.some.inj (found.symm.trans found')
  have lt_new := keeps rfl
  refine ⟨after, rfl, ?_⟩
  obtain ⟨_, rfl, _⟩ | ⟨_, rfl, _⟩ | ⟨_, rfl, _⟩ := Vmo.resizeObject_cases resize_eq
  · exact ⟨at_eq, lt⟩
  · exact ⟨by rw [Vmo.frameAt_shrink, if_neg (by omega), at_eq], lt_new⟩
  · exact ⟨by rw [Vmo.frameAt_pad, at_eq], lt_new⟩

theorem step (answers : Answers state name offset frame) {input : Input ν}
    (keeps : Keeps name offset input) (step_eq : VmoLedger.step state input = .ok next) :
    Answers next name offset frame := by
  have present {other : ν} (absent : state.vmos other = none) : other ≠ name := by
    rintro rfl
    obtain ⟨vmo, found, _⟩ := answers
    simp [found] at absent
  cases input with
  | create other size =>
      simp only [VmoLedger.step] at step_eq
      split at step_eq
      next => cases step_eq
      next absent =>
        obtain rfl := Except.ok.inj step_eq
        exact answers.record fun same => absurd same (present absent)
  | requestPage other place supply =>
      simp only [VmoLedger.step] at step_eq
      split at step_eq
      next => cases step_eq
      next vmo found =>
        split at step_eq
        next => cases step_eq
        next request_eq =>
          obtain rfl := Except.ok.inj step_eq
          exact answers.requestPage found request_eq
  | resizeObject other newSize =>
      simp only [VmoLedger.step] at step_eq
      split at step_eq
      next => cases step_eq
      next vmo found =>
        split at step_eq
        next =>
          obtain rfl := Except.ok.inj step_eq
          exact answers
        next resize_eq =>
          obtain rfl := Except.ok.inj step_eq
          exact answers.resizeObject keeps found resize_eq
  | cloneRange other child place len supply =>
      simp only [VmoLedger.step] at step_eq
      split at step_eq
      next vmo found absent =>
        split at step_eq
        next => cases step_eq
        next =>
          obtain rfl := Except.ok.inj step_eq
          exact answers
        next clone_eq =>
          obtain rfl := Except.ok.inj step_eq
          exact answers.record fun same => absurd same (present absent)
      next => cases step_eq
  | drop other =>
      simp only [VmoLedger.step] at step_eq
      split at step_eq
      next => cases step_eq
      next vmo found =>
        obtain rfl := Except.ok.inj step_eq
        exact answers.record fun same => absurd same keeps

theorem run (answers : Answers state name offset frame) {later : List (Input ν)}
    (keeps : ∀ input ∈ later, Keeps name offset input)
    (run_eq : machine.run state later = .ok next) : Answers next name offset frame := by
  induction later generalizing state with
  | nil =>
      obtain rfl : state = next := by simpa using run_eq
      exact answers
  | cons input later ih =>
      obtain ⟨mid, step_eq, rest_eq⟩ := machine.run_cons_eq_ok run_eq
      exact ih (answers.step (keeps input List.mem_cons_self) step_eq)
        (fun input mem => keeps input (List.mem_cons_of_mem _ mem)) rest_eq

end Answers

/-- The frames of all objects in a state, and what the next operations do with them. -/
structure FramesOwned (state : State ν) : Prop where
  /-- No frame is at two offsets, of one object or of two. -/
  unique : ∀ name other offset place frame, state.Holds name offset frame →
    state.Holds other place frame → name = other ∧ offset = place
  /-- An offset that was answered is answered alike, and takes nothing, while its page is kept. -/
  stays : ∀ name vmo offset supply frame next rest, state.vmos name = some vmo →
    Fresh state supply → vmo.requestPage offset supply = .ok (.ok frame, next, rest) →
    ∀ later last, (∀ input ∈ later, Keeps name offset input) →
      machine.run state (.requestPage name offset supply :: later) = .ok last →
      ∃ vmo, last.vmos name = some vmo ∧
        ∀ supply, vmo.requestPage offset supply = .ok (.ok frame, vmo, supply)
  /-- Growing gives nothing back and changes no entry that is there. -/
  grows : ∀ name vmo newSize, state.vmos name = some vmo → vmo.size ≤ newSize →
    ∃ next, vmo.resizeObject newSize = .ok (next, []) ∧
      (∀ offset value, vmo.pages.lookup offset = some value →
        next.pages.lookup offset = some value) ∧
      ∀ offset, next.frameAt offset = vmo.frameAt offset
  /-- Shrinking gives back the frames at the offsets that are cut off, each once. -/
  shrinks : ∀ name vmo newSize, state.vmos name = some vmo → newSize < vmo.size →
    ∃ next freed, vmo.resizeObject newSize = .ok (next, freed) ∧ freed.Nodup ∧
      (∀ frame, frame ∈ freed ↔ ∃ offset ≥ newSize, vmo.frameAt offset = some frame) ∧
      ∀ offset, next.frameAt offset = if newSize ≤ offset then none else vmo.frameAt offset
  /-- What an object obtained is what it gave back and what it has. -/
  owns : ∀ name, (state.obtained name).Perm (state.freed name ++ frames (state.vmos name))
  /-- An object that is gone gave back each frame as often as it had obtained it. -/
  dropped : ∀ name, state.vmos name = none → (state.obtained name).Perm (state.freed name)

/-- A request that is answered leaves the frame where later requests find it. -/
theorem answers_of_request {state next : State ν} {name : ν} {vmo after : Vmo}
    {offset frame : Nat} {supply rest : List Nat} (found : state.vmos name = some vmo)
    (nonzero : 0 ∉ supply) (inside : ∀ frame, vmo.frameAt offset = some frame → offset < vmo.size)
    (request_eq : vmo.requestPage offset supply = .ok (.ok frame, after, rest))
    (step_eq : machine.step state (.requestPage name offset supply) = .ok next) :
    Answers next name offset frame := by
  have next_eq : state.record name (some after) (taken supply rest) [] = next := by
    refine Except.ok.inj (Eq.trans ?_ step_eq)
    simp [machine, step, found, request_eq]
  subst next_eq
  refine ⟨after, by simp [State.record], ?_⟩
  obtain ⟨rfl, _, at_eq⟩ | ⟨new, result_eq, rfl, lt, _, rfl⟩ := Vmo.requestPage_cases request_eq
  · exact ⟨at_eq frame rfl, inside frame (at_eq frame rfl)⟩
  · obtain rfl := Except.ok.inj result_eq
    refine ⟨Vmo.frameAt_insert_same ?_, lt⟩
    exact fun zero => nonzero (zero ▸ List.mem_cons_self)

omit [DecidableEq ν] in
theorem Answers.requestPage_eq {state : State ν} {name : ν} {offset frame : Nat}
    (answers : Answers state name offset frame) :
    ∃ vmo, state.vmos name = some vmo ∧
      ∀ supply, vmo.requestPage offset supply = .ok (.ok frame, vmo, supply) := by
  obtain ⟨vmo, found, at_eq, lt⟩ := answers
  refine ⟨vmo, found, fun supply => ?_⟩
  rw [Vmo.requestPage, if_neg (by omega), at_eq]

theorem Sound.framesOwned {state : State ν} (sound : Sound state) : FramesOwned state where
  unique := sound.unique
  stays name vmo offset supply frame next rest found fresh request_eq later last keeps run_eq := by
    obtain ⟨mid, step_eq, rest_eq⟩ := machine.run_cons_eq_ok run_eq
    have answers := answers_of_request found fresh.2.1
      (fun frame => sound.inside name vmo offset frame found) request_eq step_eq
    exact (answers.run keeps rest_eq).requestPage_eq
  grows name vmo newSize found le := by
    have plain := sound.plain name vmo found
    rcases le.eq_or_lt with rfl | lt
    · exact ⟨vmo, by simp [Vmo.resizeObject, plain], fun _ _ => id, fun _ => rfl⟩
    · refine ⟨vmo.pad newSize, ?_, fun offset value => Vmo.lookup_padPages _,
        fun offset => Vmo.frameAt_pad newSize⟩
      simp [Vmo.resizeObject, plain, lt.ne', lt.not_gt, Vmo.pad]
  shrinks name vmo newSize found lt := by
    have plain := sound.plain name vmo found
    refine ⟨vmo.shrink newSize, vmo.framesFrom newSize, ?_,
      (sound.single found).nodup_framesFrom newSize, fun frame => Vmo.mem_framesFrom,
      fun offset => Vmo.frameAt_shrink newSize⟩
    simp [Vmo.resizeObject, plain, lt.ne, lt, Vmo.shrink]
  owns := sound.ledger
  dropped name gone := by simpa [gone, frames] using sound.ledger name

/-- In every state that is reached, frames have one owner and are given back once. -/
theorem frames_have_one_owner {inputs : List (Input ν)} {final : State ν}
    (permits : machine.Permits State.new inputs)
    (run_eq : machine.run State.new inputs = .ok final) : FramesOwned final := by
  have sound : Sound final := machine.run_keeps
    (fun state input next sound allocates step_eq => sound.step allocates step_eq) .new permits
    run_eq
  exact sound.framesOwned

/-- An object is used, copied, grown, cut down and dropped; its copy stays. -/
def copied : List (Input Bool) :=
  [.create true 8192, .requestPage true 4096 [7], .cloneRange true false 0 8192 [8, 9],
    .resizeObject true 12288, .requestPage true 8192 [10], .resizeObject true 4096,
    .requestPage true 0 [7], .drop true]

theorem frames_have_one_owner_copied :
    ∃ final, machine.Permits State.new copied ∧ machine.run State.new copied = .ok final ∧
      final.obtained true = [7, 10, 7] ∧ final.freed true = [7, 10, 7] ∧ FramesOwned final := by
  have run_eq : machine.run State.new copied = .ok _ := rfl
  have permits : machine.Permits State.new copied := by
    repeat' refine machine.permits_cons ?_ rfl ?_
    all_goals first
      | trivial
      | exact fresh_of_frames (by decide) (by decide) (by decide)
  exact ⟨_, permits, run_eq, by decide, by decide, frames_have_one_owner permits run_eq⟩

end VmoLedger
end Vespertine
