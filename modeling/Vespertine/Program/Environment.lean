import Mathlib.Data.List.ReduceOption
import Mathlib.Tactic.Ring
import Vespertine.Library.ByteMemory
import Vespertine.Memory.Vmo
import Vespertine.Object.Abi

/-!
# The arguments of a new process

`Exec::spawn` puts the name of a program and its arguments into one buffer.  The kernel copies the
buffer to the top page of the new stack, behind the init package, the grants and the argument
vector, and the library of the new process reads them there.  The kernel writes through its own
mapping of physical memory, the process reads through the mapping of its stack.

Lengths of buffers that are in memory are below `2 ^ 64` by far and are not wrapped.
-/

namespace Vespertine

/-- What a new process finds on its stack. -/
structure ProcessInitPackage where
  selfHandle : HandleID
  rootHandle : HandleID
  sourceHandle : HandleID
  sinkHandle : HandleID
  extraHandlesPtr : Nat
  extraHandlesLen : Nat
  argc : Nat
  argv : Nat
deriving DecidableEq, Repr

/-- `size_of::<ProcessInitPackage>()`. -/
def ProcessInitPackage.size : Nat := 64

/-- The package in memory. -/
def ProcessInitPackage.bytes (pkg : ProcessInitPackage) : List UInt8 :=
  [pkg.selfHandle, pkg.rootHandle, pkg.sourceHandle, pkg.sinkHandle, pkg.extraHandlesPtr,
    pkg.extraHandlesLen, pkg.argc, pkg.argv].flatMap (Bytes.ofNat 8)

/-- `size_of::<HandleGrant>()`. -/
def HandleGrant.size : Nat := 24

/-- A grant in memory; the seven bytes behind the rights are padding. -/
def HandleGrant.bytes (grant : HandleGrant) : List UInt8 :=
  Bytes.ofNat 8 grant.id ++ (Bytes.ofNat 1 grant.rights.bits.toNat ++
    (List.replicate 7 0 ++ Bytes.ofNat 8 grant.tag))

namespace ProcessEnvironment

/-! ## The buffer -/

/-- The bytes of a text. -/
def asBytes (text : String) : List UInt8 := text.toByteArray.data.toList

/-- The buffer of `Exec::spawn`. -/
def argsBuf (execName : String) (args : List String) : List UInt8 :=
  (execName :: args).flatMap fun text => asBytes text ++ [0]

/-! ## The kernel -/

/-- Where `inject` puts the parts of its payload in the top page of the stack. -/
structure Layout where
  pkgOffset : Nat
  handlesOffset : Nat
  argvOffset : Nat
  stringsOffset : Nat

/-- Bytes of the payload of `inject`. -/
def totalPayloadSize (grants argc strings : Nat) : Nat :=
  ProcessInitPackage.size + grants * HandleGrant.size + (argc + 1) * 8 + strings

/-- The offsets that `inject` calculates. -/
def layout (grants argc strings : Nat) : Layout :=
  let baseOffset := andNot (NORMAL_PAGE_SIZE - totalPayloadSize grants argc strings) 0xF
  let pkgOffset := baseOffset
  let handlesOffset := pkgOffset + ProcessInitPackage.size
  let argvOffset := handlesOffset + grants * HandleGrant.size
  let stringsOffset := argvOffset + (argc + 1) * 8
  ⟨pkgOffset, handlesOffset, argvOffset, stringsOffset⟩

/-- The loop over the buffer: the address of each string goes into the argument vector. -/
def writeArgv (argvPtr : Nat) : List UInt8 → (i start argIdx currentStringVaddr : Nat) →
    Memory → Memory
  | [], _, _, _, _, memory => memory
  | byte :: rest, i, start, argIdx, currentStringVaddr, memory =>
      if byte = 0 then
        let strLen := (i - start) + 1
        writeArgv argvPtr rest (i + 1) (i + 1) (argIdx + 1) (currentStringVaddr + strLen)
          (memory.write (argvPtr + 8 * argIdx) (Bytes.ofNat 8 currentStringVaddr))
      else
        writeArgv argvPtr rest (i + 1) start argIdx currentStringVaddr memory

/-- Physical memory as the kernel reaches it, and the frames that the page allocator returns
next. -/
structure Ram where
  memory : Memory
  hhdmOffset : Nat
  supply : List Nat

/-- `ProcessEnvironment::inject`; the result carries the address of the package and the stack
pointer. -/
def inject (stackVmo : Vmo) (stackVaddr stackSize : Nat) (extraHandles : List HandleGrant)
    (argsBuffer : List UInt8) (argc : Nat) (initpkg : ProcessInitPackage) (ram : Ram) :
    Kernel (Except InvocationError (Nat × Nat) × Vmo × Ram) := do
  let topPageOffset := stackSize - NORMAL_PAGE_SIZE
  let (answer, stackVmo, supply) ← stackVmo.requestPage topPageOffset ram.supply
  let ram := { ram with supply }
  match answer with
  | .error () => return (.error .OutOfMemory, stackVmo, ram)
  | .ok physFrame =>
      if totalPayloadSize extraHandles.length argc argsBuffer.length > NORMAL_PAGE_SIZE then
        return (.error .OutOfMemory, stackVmo, ram)
      else
        let place := layout extraHandles.length argc argsBuffer.length
        let hhdmAddr := physFrame + ram.hhdmOffset
        let baseVaddr := stackVaddr + topPageOffset
        let pkgVaddr := baseVaddr + place.pkgOffset
        let memory := ram.memory.write (hhdmAddr + place.stringsOffset) argsBuffer
        let memory := writeArgv (hhdmAddr + place.argvOffset) argsBuffer 0 0 0
          (baseVaddr + place.stringsOffset) memory
        let memory := memory.write (hhdmAddr + place.argvOffset + 8 * argc) (Bytes.ofNat 8 0)
        let memory := memory.write (hhdmAddr + place.handlesOffset)
          (extraHandles.flatMap HandleGrant.bytes)
        let initpkg := { initpkg with
          extraHandlesPtr := baseVaddr + place.handlesOffset
          argc
          argv := baseVaddr + place.argvOffset }
        let memory := memory.write (hhdmAddr + place.pkgOffset) initpkg.bytes
        let safeStackTop := pkgVaddr - 8
        return (.ok (pkgVaddr, safeStackTop), stackVmo, { ram with memory })

/-- Size of the stack of a new process. -/
def stackSize : Nat := 8192 * 2

/-- What `Spawn` does with the copied buffer and the grants of the child, once the stack is
mapped. -/
def prepareStack (stackAddr : Nat) (childExtraHandles : List HandleGrant) (extraHandlesLen : Nat)
    (argsBuffer : List UInt8) (ram : Ram) :
    Kernel (Except InvocationError (Nat × Nat) × Vmo × Ram) :=
  let argc := argsBuffer.count 0
  let stackVmo := Vmo.new stackSize
  let initpkg : ProcessInitPackage :=
    { rootHandle := 0
      selfHandle := 1
      sourceHandle := 2
      sinkHandle := 3
      extraHandlesPtr := 0
      extraHandlesLen
      argc := 0
      argv := 0 }
  inject stackVmo stackAddr stackSize childExtraHandles argsBuffer argc initpkg ram

/-! ## The new process -/

/-- The stack as the new process sees it. -/
structure UserStack where
  vmo : Vmo
  vaddr : Nat
  ram : Ram

namespace UserStack

/-- A byte of a page that is present. -/
def loadByte (stack : UserStack) (addr : Nat) : Option UInt8 :=
  if addr < stack.vaddr then
    none
  else
    let offset := addr - stack.vaddr
    (stack.vmo.frameAt (offset / NORMAL_PAGE_SIZE * NORMAL_PAGE_SIZE)).map fun frame =>
      stack.ram.memory (frame + stack.ram.hhdmOffset + offset % NORMAL_PAGE_SIZE)

/-- A number of `width` bytes. -/
def loadNat (stack : UserStack) (addr width : Nat) : Option Nat :=
  ((List.range width).mapM fun i => stack.loadByte (addr + i)).map Bytes.toNat

/-- The package at a pointer. -/
def loadPackage (stack : UserStack) (ptr : Nat) : Option ProcessInitPackage := do
  let selfHandle ← stack.loadNat ptr 8
  let rootHandle ← stack.loadNat (ptr + 8) 8
  let sourceHandle ← stack.loadNat (ptr + 16) 8
  let sinkHandle ← stack.loadNat (ptr + 24) 8
  let extraHandlesPtr ← stack.loadNat (ptr + 32) 8
  let extraHandlesLen ← stack.loadNat (ptr + 40) 8
  let argc ← stack.loadNat (ptr + 48) 8
  let argv ← stack.loadNat (ptr + 56) 8
  return ⟨selfHandle, rootHandle, sourceHandle, sinkHandle, extraHandlesPtr, extraHandlesLen, argc,
    argv⟩

/-- The grant at a pointer. -/
def loadGrant (stack : UserStack) (ptr : Nat) : Option HandleGrant := do
  let id ← stack.loadNat ptr 8
  let rights ← stack.loadNat (ptr + 8) 1
  let tag ← stack.loadNat (ptr + 16) 8
  return ⟨id, ⟨BitVec.ofNat 8 rights⟩, tag⟩

/-- `env::extra_handles`. -/
def extraHandles (stack : UserStack) (pkg : ProcessInitPackage) : Option (List HandleGrant) :=
  (List.range pkg.extraHandlesLen).mapM fun i =>
    stack.loadGrant (pkg.extraHandlesPtr + i * HandleGrant.size)

/-- `CStr::from_ptr`: the bytes before the first zero. -/
def cStr (stack : UserStack) : (fuel addr : Nat) → Option (List UInt8)
  | 0, _ => none
  | fuel + 1, addr => do
      let byte ← stack.loadByte addr
      if byte = 0 then
        return []
      else
        return byte :: (← stack.cStr fuel (addr + 1))

end UserStack

/-- Whether the second byte of a character can follow the first, for characters of three and four
bytes. -/
def secondByteFollows (first second : UInt8) : Bool :=
  match first with
  | 0xE0 => 0xA0 ≤ second ∧ second ≤ 0xBF
  | 0xED => 0x80 ≤ second ∧ second ≤ 0x9F
  | 0xF0 => 0x90 ≤ second ∧ second ≤ 0xBF
  | 0xF4 => 0x80 ≤ second ∧ second ≤ 0x8F
  | _ => 0xE1 ≤ first ∧ first ≤ 0xF3 ∧ 0x80 ≤ second ∧ second ≤ 0xBF

/-- Bytes that one replacement character stands for. -/
def invalidLen (bytes : ByteArray) (i : Nat) : Nat :=
  let byteAt j := (bytes.data[i + j]?).getD 0
  if !secondByteFollows (byteAt 0) (byteAt 1) then 1
  else if byteAt 0 < 0xF0 then 2
  else if 0x80 ≤ byteAt 2 ∧ byteAt 2 ≤ 0xBF then 3
  else 2

/-- The characters of a text, with replacement characters for what is not UTF-8. -/
def lossyChars (bytes : ByteArray) : (fuel i : Nat) → List Char
  | 0, _ => []
  | fuel + 1, i =>
      if i < bytes.size then
        match bytes.utf8DecodeChar? i with
        | some char => char :: lossyChars bytes fuel (i + char.utf8Size)
        | none => '\uFFFD' :: lossyChars bytes fuel (i + invalidLen bytes i)
      else
        []

/-- `to_string_lossy`. -/
def toStringLossy (bytes : List UInt8) : String :=
  match String.fromUTF8? bytes.toByteArray with
  | some text => text
  | none => String.ofList (lossyChars bytes.toByteArray bytes.length 0)

/-- `env::args`. -/
def UserStack.args (stack : UserStack) (pkg : ProcessInitPackage) : Option (List String) :=
  let strings := (List.range pkg.argc).mapM fun i => do
    let argPtr ← stack.loadNat (pkg.argv + i * 8) 8
    if argPtr ≠ 0 then
      -- A string that does not end in the stack runs into memory that is not there.
      let bytes ← stack.cStr (stackSize + 1) argPtr
      return some (toStringLossy bytes)
    else
      return none
  strings.map List.reduceOption

/-! ## What is on the stack -/

/-- The process finds the bytes at an address of its stack. -/
def UserStack.Holds (stack : UserStack) (addr : Nat) (bytes : List UInt8) : Prop :=
  ∀ i, ∀ inside : i < bytes.length, stack.loadByte (addr + i) = some bytes[i]

theorem mapM_range_eq_some {α : Type} {load : Nat → Option α} {values : List α}
    (loads : ∀ i, ∀ inside : i < values.length, load i = some values[i]) :
    (List.range values.length).mapM load = some values := by
  induction values generalizing load with
  | nil => rfl
  | cons value values ih =>
      have rest : (List.range values.length).mapM (load ∘ Nat.succ) = some values :=
        ih fun i inside => loads (i + 1) (by simpa using inside)
      have first := loads 0 (by simp)
      rw [List.length_cons, List.range_succ_eq_map, List.mapM_cons, first, List.mapM_map, rest]
      rfl

section Loads

variable {stack : UserStack} {addr : Nat}

theorem UserStack.Holds.append {front back : List UInt8} :
    stack.Holds addr (front ++ back) ↔
      stack.Holds addr front ∧ stack.Holds (addr + front.length) back := by
  constructor
  · intro holds
    constructor
    · intro i inside
      rw [holds i (by rw [List.length_append]; omega), List.getElem_append_left inside]
    · intro i inside
      have place := holds (front.length + i) (by rw [List.length_append]; omega)
      rw [List.getElem_append_right (by omega)] at place
      simpa [Nat.add_assoc] using place
  · rintro ⟨holds_front, holds_back⟩ i inside
    rw [List.length_append] at inside
    by_cases in_front : i < front.length
    · rw [List.getElem_append_left in_front]
      exact holds_front i in_front
    · have place := holds_back (i - front.length) (by omega)
      rw [List.getElem_append_right (by omega), ← place]
      congr 1
      omega

/-- Parts of equal length lie at multiples of the length. -/
theorem UserStack.Holds.part {α : Type} {values : List α} {bytes : α → List UInt8} {width : Nat}
    (length_eq : ∀ value, (bytes value).length = width)
    (holds : stack.Holds addr (values.flatMap bytes)) (i : Nat) (inside : i < values.length) :
    stack.Holds (addr + i * width) (bytes values[i]) := by
  induction values generalizing addr i with
  | nil => cases inside
  | cons value values ih =>
      rw [List.flatMap_cons, Holds.append, length_eq] at holds
      cases i with
      | zero => simpa using holds.1
      | succ i =>
          have later := ih holds.2 i (by simpa using inside)
          have addr_eq : addr + width + i * width = addr + (i + 1) * width := by ring
          rwa [addr_eq] at later

theorem UserStack.Holds.loadNat {width value : Nat}
    (holds : stack.Holds addr (Bytes.ofNat width value)) (fits : value < 256 ^ width) :
    stack.loadNat addr width = some value := by
  have bytes_eq := mapM_range_eq_some holds
  rw [Bytes.length_ofNat] at bytes_eq
  rw [UserStack.loadNat, bytes_eq, Option.map_some, Bytes.toNat_ofNat fits]

theorem UserStack.Holds.loadPackage {pkg : ProcessInitPackage}
    (words : ∀ word ∈ [pkg.selfHandle, pkg.rootHandle, pkg.sourceHandle, pkg.sinkHandle,
      pkg.extraHandlesPtr, pkg.extraHandlesLen, pkg.argc, pkg.argv], word < wordSize)
    (holds : stack.Holds addr pkg.bytes) : stack.loadPackage addr = some pkg := by
  have field (i : Nat) (inside : i < 8) := (holds.part (Bytes.length_ofNat 8) i inside).loadNat
    (words _ (List.getElem_mem _))
  have selfHandle := field 0 (by decide)
  have rootHandle := field 1 (by decide)
  have sourceHandle := field 2 (by decide)
  have sinkHandle := field 3 (by decide)
  have extraHandlesPtr := field 4 (by decide)
  have extraHandlesLen := field 5 (by decide)
  have argc := field 6 (by decide)
  have argv := field 7 (by decide)
  simp only [List.getElem_cons_zero, List.getElem_cons_succ, Nat.zero_mul, Nat.add_zero] at *
  simp only [UserStack.loadPackage, selfHandle, rootHandle, sourceHandle, sinkHandle,
    extraHandlesPtr, extraHandlesLen, argc, argv, bind, Option.bind]
  rfl

@[simp] theorem length_grant_bytes (grant : HandleGrant) :
    grant.bytes.length = HandleGrant.size := by
  simp [HandleGrant.bytes, HandleGrant.size]

theorem UserStack.Holds.loadGrant {grant : HandleGrant} (id_word : grant.id < wordSize)
    (tag_word : grant.tag < wordSize) (holds : stack.Holds addr grant.bytes) :
    stack.loadGrant addr = some grant := by
  rw [HandleGrant.bytes, Holds.append, Holds.append, Holds.append] at holds
  obtain ⟨id_holds, rights_holds, -, tag_holds⟩ := holds
  simp only [Bytes.length_ofNat, List.length_replicate, Nat.add_assoc] at rights_holds tag_holds
  have id_eq := id_holds.loadNat id_word
  have rights_eq := rights_holds.loadNat grant.rights.bits.isLt
  have tag_eq := tag_holds.loadNat tag_word
  simp only [UserStack.loadGrant, id_eq, rights_eq, tag_eq, bind, Option.bind, BitVec.ofNat_toNat,
    BitVec.setWidth_eq]
  rfl

/-- A string that is ended by a zero. -/
theorem UserStack.Holds.cStr {bytes : List UInt8} {fuel : Nat} (nulFree : 0 ∉ bytes)
    (holds : stack.Holds addr (bytes ++ [0])) (enough : bytes.length < fuel) :
    stack.cStr fuel addr = some bytes := by
  induction bytes generalizing addr fuel with
  | nil =>
      obtain ⟨fuel, rfl⟩ := Nat.exists_eq_succ_of_ne_zero (Nat.ne_of_gt enough)
      have first := holds 0 (by simp)
      simp only [List.nil_append, List.getElem_cons_zero, Nat.add_zero] at first
      rw [UserStack.cStr, first]
      rfl
  | cons byte bytes ih =>
      obtain ⟨fuel, rfl⟩ := Nat.exists_eq_succ_of_ne_zero (Nat.ne_of_gt (Nat.zero_lt_of_lt enough))
      rw [List.mem_cons, not_or] at nulFree
      have first := holds 0 (by simp)
      simp only [List.cons_append, List.getElem_cons_zero, Nat.add_zero] at first
      rw [List.cons_append, ← List.singleton_append, Holds.append] at holds
      have rest := @ih (addr + 1) fuel nulFree.2 holds.2 (by simpa using enough)
      rw [UserStack.cStr, first]
      simp only [bind, Option.bind, if_neg (Ne.symm nulFree.1), rest]
      rfl

end Loads

/-- A text comes back from its bytes. -/
theorem toStringLossy_asBytes (text : String) : toStringLossy (asBytes text) = text := by
  have same : (asBytes text).toByteArray = text.toByteArray := by
    apply ByteArray.ext
    rw [asBytes, List.data_toByteArray]
  rw [toStringLossy, same, String.fromUTF8?, dif_pos text.isValidUTF8]
  rfl

/-- The addresses of strings that lie behind each other. -/
def stringAddrs : (addr : Nat) → List (List UInt8) → List Nat
  | _, [] => []
  | addr, bytes :: strings => addr :: stringAddrs (addr + (bytes.length + 1)) strings

/-- Strings behind each other, each with a zero. -/
def joined (strings : List (List UInt8)) : List UInt8 := strings.flatMap (· ++ [0])

section Strings

variable {stack : UserStack} {addr : Nat} {strings : List (List UInt8)}

@[simp] theorem length_stringAddrs : (stringAddrs addr strings).length = strings.length := by
  induction strings generalizing addr with
  | nil => rfl
  | cons bytes strings ih => rw [stringAddrs, List.length_cons, ih, List.length_cons]

theorem lt_of_mem_stringAddrs {ptr : Nat} (mem : ptr ∈ stringAddrs addr strings) :
    ptr < addr + (joined strings).length := by
  induction strings generalizing addr with
  | nil => cases mem
  | cons bytes strings ih =>
      have length_eq : (joined (bytes :: strings)).length =
          bytes.length + 1 + (joined strings).length := by simp [joined]; omega
      rw [stringAddrs, List.mem_cons] at mem
      obtain rfl | later := mem
      · omega
      · have lt := ih later
        omega

theorem count_joined (nulFree : ∀ bytes ∈ strings, 0 ∉ bytes) :
    (joined strings).count 0 = strings.length := by
  induction strings with
  | nil => rfl
  | cons bytes strings ih =>
      rw [List.forall_mem_cons] at nulFree
      have rest := ih nulFree.2
      rw [joined] at rest ⊢
      rw [List.flatMap_cons, List.count_append, List.count_append, rest,
        List.count_eq_zero_of_not_mem nulFree.1, List.count_singleton_self, List.length_cons]
      omega

/-- Every string lies at its address, inside the joined strings. -/
theorem holds_strings (holds : stack.Holds addr (joined strings)) :
    List.Forall₂ (fun ptr bytes => addr ≤ ptr ∧
      ptr + (bytes.length + 1) ≤ addr + (joined strings).length ∧ stack.Holds ptr (bytes ++ [0]))
      (stringAddrs addr strings) strings := by
  induction strings generalizing addr with
  | nil => exact .nil
  | cons bytes strings ih =>
      have joined_eq : joined (bytes :: strings) = (bytes ++ [0]) ++ joined strings := rfl
      have length_eq : (bytes ++ [(0 : UInt8)]).length = bytes.length + 1 := by simp
      rw [joined_eq, UserStack.Holds.append, length_eq] at holds
      rw [joined_eq, List.length_append, length_eq]
      refine .cons ⟨le_rfl, by omega, holds.1⟩ ((ih holds.2).imp ?_)
      rintro ptr string ⟨behind, ends, holds_string⟩
      exact ⟨by omega, by omega, holds_string⟩

/-- The loop over the buffer passes one string. -/
theorem writeArgv_append {argvPtr i start argIdx current : Nat} {bytes rest : List UInt8}
    {memory : Memory} (nulFree : 0 ∉ bytes) :
    writeArgv argvPtr (bytes ++ 0 :: rest) i start argIdx current memory =
      writeArgv argvPtr rest (i + bytes.length + 1) (i + bytes.length + 1) (argIdx + 1)
        (current + (i + bytes.length - start + 1))
        (memory.write (argvPtr + 8 * argIdx) (Bytes.ofNat 8 current)) := by
  induction bytes generalizing i with
  | nil =>
      rw [List.nil_append, writeArgv, if_pos rfl]
      rfl
  | cons byte bytes ih =>
      rw [List.mem_cons, not_or] at nulFree
      have shift : i + 1 + bytes.length = i + (bytes.length + 1) := by omega
      rw [List.cons_append, writeArgv, if_neg (Ne.symm nulFree.1), ih nulFree.2, List.length_cons,
        shift]

/-- The loop over the buffer fills the argument vector. -/
theorem writeArgv_joined {argvPtr i argIdx current : Nat} {memory : Memory}
    (nulFree : ∀ bytes ∈ strings, 0 ∉ bytes) :
    writeArgv argvPtr (joined strings) i i argIdx current memory =
      memory.write (argvPtr + 8 * argIdx)
        ((stringAddrs current strings).flatMap (Bytes.ofNat 8)) := by
  induction strings generalizing i argIdx current memory with
  | nil => rw [stringAddrs, List.flatMap_nil, Memory.write_nil]; rfl
  | cons bytes strings ih =>
      rw [List.forall_mem_cons] at nulFree
      have joined_eq : joined (bytes :: strings) = bytes ++ 0 :: joined strings := by
        simp [joined]
      have next_eq : argvPtr + 8 * (argIdx + 1) =
          argvPtr + 8 * argIdx + (Bytes.ofNat 8 current).length := by
        rw [Bytes.length_ofNat]
        omega
      rw [joined_eq, writeArgv_append nulFree.1, ih nulFree.2, next_eq, Memory.write_append,
        stringAddrs, List.flatMap_cons, Nat.add_sub_cancel_left]

end Strings

/-! ## The payload -/

/-- Parts written from the last to the first lie behind each other. -/
theorem read_parts (memory : Memory) {pkgAddr handlesAddr argvAddr stringsAddr : Nat}
    {pkg handles argv strings : List UInt8} (handles_eq : pkgAddr + pkg.length = handlesAddr)
    (argv_eq : handlesAddr + handles.length = argvAddr)
    (strings_eq : argvAddr + argv.length = stringsAddr) :
    ((((memory.write stringsAddr strings).write argvAddr argv).write handlesAddr handles).write
        pkgAddr pkg).read pkgAddr (pkg ++ (handles ++ (argv ++ strings))).length =
      pkg ++ (handles ++ (argv ++ strings)) := by
  have strings_read := (memory.read_write stringsAddr strings 0)
  rw [Nat.add_zero] at strings_read
  rw [List.length_append, Memory.read_write, handles_eq, List.length_append, Memory.read_write,
    argv_eq, List.length_append, Memory.read_write, strings_eq, strings_read]
  simp [Memory.read]

/-- The process finds in the top page of its stack what the kernel wrote there. -/
theorem UserStack.holds_of_read {stack : UserStack} {top frame offset : Nat} {bytes : List UInt8}
    (top_page : NORMAL_PAGE_SIZE ∣ top) (present : stack.vmo.frameAt top = some frame)
    (in_page : offset + bytes.length ≤ NORMAL_PAGE_SIZE)
    (read_eq : stack.ram.memory.read (frame + stack.ram.hhdmOffset + offset) bytes.length = bytes) :
    stack.Holds (stack.vaddr + top + offset) bytes := by
  intro i inside
  have not_below : ¬stack.vaddr + top + offset + i < stack.vaddr := by omega
  have offset_eq : stack.vaddr + top + offset + i - stack.vaddr = top + (offset + i) := by omega
  have page_eq : (top + (offset + i)) / NORMAL_PAGE_SIZE * NORMAL_PAGE_SIZE = top := by
    obtain ⟨page, rfl⟩ := top_page
    unfold NORMAL_PAGE_SIZE at *
    omega
  have rest_eq : (top + (offset + i)) % NORMAL_PAGE_SIZE = offset + i := by
    obtain ⟨page, rfl⟩ := top_page
    unfold NORMAL_PAGE_SIZE at *
    omega
  rw [UserStack.loadByte, if_neg not_below]
  simp only [offset_eq, page_eq, rest_eq, present, Option.map_some, Option.some.injEq]
  have byte_eq := congrArg (·[i]?) read_eq
  rw [List.getElem?_eq_getElem inside, List.getElem?_eq_getElem (by simpa using inside),
    Memory.getElem_read, Nat.add_assoc] at byte_eq
  exact Option.some.inj byte_eq

/-- The payload fits in the page behind the offset of the package, which is aligned. -/
theorem layout_fits {grants argc strings : Nat}
    (fits : totalPayloadSize grants argc strings ≤ NORMAL_PAGE_SIZE) :
    16 ∣ (layout grants argc strings).pkgOffset ∧
      (layout grants argc strings).pkgOffset + totalPayloadSize grants argc strings ≤
        NORMAL_PAGE_SIZE := by
  have base_eq := andNot_two_pow (NORMAL_PAGE_SIZE - totalPayloadSize grants argc strings) 4
  constructor
  · rw [layout]
    exact ⟨_, base_eq.trans (Nat.mul_comm _ _)⟩
  · have base_le : (layout grants argc strings).pkgOffset ≤
        NORMAL_PAGE_SIZE - totalPayloadSize grants argc strings :=
      base_eq.trans_le (Nat.div_mul_le_self _ _)
    omega

/-- The package that `inject` writes for a new process. -/
def packageOf (stackAddr grants argc strings : Nat) : ProcessInitPackage :=
  let place := layout grants argc strings
  let baseVaddr := stackAddr + (stackSize - NORMAL_PAGE_SIZE)
  { rootHandle := 0
    selfHandle := 1
    sourceHandle := 2
    sinkHandle := 3
    extraHandlesPtr := baseVaddr + place.handlesOffset
    extraHandlesLen := grants
    argc
    argv := baseVaddr + place.argvOffset }

/-- The bytes that `inject` writes for a new process, from the package on. -/
def payload (stackAddr : Nat) (grants : List HandleGrant) (strings : List (List UInt8)) :
    List UInt8 :=
  let place := layout grants.length strings.length (joined strings).length
  let pkg := packageOf stackAddr grants.length strings.length (joined strings).length
  let stringsVaddr := stackAddr + (stackSize - NORMAL_PAGE_SIZE) + place.stringsOffset
  pkg.bytes ++ (grants.flatMap HandleGrant.bytes ++
    ((stringAddrs stringsVaddr strings ++ [0]).flatMap (Bytes.ofNat 8) ++ joined strings))

/-- The object of a new stack with a frame for its top page. -/
def stackVmo (frame : Nat) : Vmo :=
  { Vmo.new stackSize with
    pages := (Vmo.new stackSize).pages.insert (stackSize - NORMAL_PAGE_SIZE) frame }

/-- The address of the package. -/
def packageAddr (stackAddr : Nat) (grants : List HandleGrant) (strings : List (List UInt8)) : Nat :=
  stackAddr + (stackSize - NORMAL_PAGE_SIZE) +
    (layout grants.length strings.length (joined strings).length).pkgOffset

/-- Memory with the payload, for a frame that the kernel reaches at `hhdmAddr`. -/
def written (stackAddr hhdmAddr : Nat) (grants : List HandleGrant) (strings : List (List UInt8))
    (memory : Memory) : Memory :=
  let place := layout grants.length strings.length (joined strings).length
  let pkg := packageOf stackAddr grants.length strings.length (joined strings).length
  let stringsVaddr := stackAddr + (stackSize - NORMAL_PAGE_SIZE) + place.stringsOffset
  (((memory.write (hhdmAddr + place.stringsOffset) (joined strings)).write
    (hhdmAddr + place.argvOffset)
      ((stringAddrs stringsVaddr strings ++ [0]).flatMap (Bytes.ofNat 8))).write
    (hhdmAddr + place.handlesOffset) (grants.flatMap HandleGrant.bytes)).write
    (hhdmAddr + place.pkgOffset) pkg.bytes

section Inject

variable {stackAddr frame : Nat} {rest : List Nat} {ram : Ram} {grants : List HandleGrant}
  {strings : List (List UInt8)}

@[simp] theorem length_package_bytes (pkg : ProcessInitPackage) :
    pkg.bytes.length = ProcessInitPackage.size := by
  simp [ProcessInitPackage.bytes, ProcessInitPackage.size]

theorem length_flatMap {α : Type} {bytes : α → List UInt8} {width : Nat}
    (length_eq : ∀ value, (bytes value).length = width) (values : List α) :
    (values.flatMap bytes).length = values.length * width := by
  simp [List.length_flatMap, length_eq]

theorem length_payload : (payload stackAddr grants strings).length =
    totalPayloadSize grants.length strings.length (joined strings).length := by
  simp only [payload, List.length_append, length_package_bytes,
    length_flatMap length_grant_bytes, length_flatMap (Bytes.length_ofNat 8), length_stringAddrs,
    List.length_cons, List.length_nil, totalPayloadSize, Nat.add_assoc]

/-- The top page of a new stack gets the next frame. -/
theorem requestPage_top (supply_eq : ram.supply = frame :: rest) :
    (Vmo.new stackSize).requestPage (stackSize - NORMAL_PAGE_SIZE) ram.supply =
      .ok (.ok frame, stackVmo frame, rest) := by
  rw [Vmo.requestPage, if_neg (by decide), Vmo.frameAt_new, supply_eq]
  rfl

/-- `inject` refuses a payload exactly if it exceeds the page. -/
theorem inject_refuses_iff (supply_eq : ram.supply = frame :: rest) (argsBuffer : List UInt8)
    (argc : Nat) (initpkg : ProcessInitPackage) :
    (∃ problem vmo after, inject (.new stackSize) stackAddr stackSize grants argsBuffer argc
        initpkg ram = .ok (.error problem, vmo, after)) ↔
      NORMAL_PAGE_SIZE < totalPayloadSize grants.length argc argsBuffer.length := by
  simp only [inject, requestPage_top supply_eq, bind, Except.bind]
  constructor
  · rintro ⟨problem, vmo, after, refused⟩
    by_contra fits
    rw [if_neg fits] at refused
    cases refused
  · intro exceeds
    rw [if_pos exceeds]
    exact ⟨_, _, _, rfl⟩

/-- The argument vector with its null pointer. -/
theorem argvWritten (argvPtr current : Nat) (nulFree : ∀ bytes ∈ strings, 0 ∉ bytes)
    (memory : Memory) :
    (writeArgv argvPtr (joined strings) 0 0 0 current memory).write (argvPtr + 8 * strings.length)
        (Bytes.ofNat 8 0) =
      memory.write argvPtr ((stringAddrs current strings ++ [0]).flatMap (Bytes.ofNat 8)) := by
  have end_eq : argvPtr + 8 * strings.length =
      argvPtr + ((stringAddrs current strings).flatMap (Bytes.ofNat 8)).length := by
    rw [length_flatMap (Bytes.length_ofNat 8), length_stringAddrs, Nat.mul_comm]
  rw [writeArgv_joined nulFree, Nat.mul_zero, Nat.add_zero, end_eq, Memory.write_append,
    List.flatMap_append, List.flatMap_singleton]

/-- What fits is written to the frame of the top page. -/
theorem prepareStack_fits (supply_eq : ram.supply = frame :: rest)
    (nulFree : ∀ bytes ∈ strings, 0 ∉ bytes)
    (fits : totalPayloadSize grants.length strings.length (joined strings).length ≤
      NORMAL_PAGE_SIZE) :
    prepareStack stackAddr grants grants.length (joined strings) ram =
      .ok (.ok (packageAddr stackAddr grants strings, packageAddr stackAddr grants strings - 8),
        stackVmo frame, ⟨written stackAddr (frame + ram.hhdmOffset) grants strings ram.memory,
          ram.hhdmOffset, rest⟩) := by
  have argv_eq := argvWritten (frame + ram.hhdmOffset +
    (layout grants.length strings.length (joined strings).length).argvOffset)
    (stackAddr + (stackSize - NORMAL_PAGE_SIZE) +
      (layout grants.length strings.length (joined strings).length).stringsOffset) nulFree
    (ram.memory.write (frame + ram.hhdmOffset +
      (layout grants.length strings.length (joined strings).length).stringsOffset)
        (joined strings))
  simp only [prepareStack, inject, requestPage_top supply_eq, bind, Except.bind,
    count_joined nulFree, if_neg (Nat.not_lt.mpr fits), argv_eq]
  rfl

theorem read_written (hhdmAddr : Nat) (memory : Memory) :
    (written stackAddr hhdmAddr grants strings memory).read
        (hhdmAddr + (layout grants.length strings.length (joined strings).length).pkgOffset)
        (payload stackAddr grants strings).length = payload stackAddr grants strings := by
  apply read_parts
  · rw [length_package_bytes]
    rfl
  · rw [length_flatMap length_grant_bytes, Nat.add_assoc]
    rfl
  · rw [length_flatMap (Bytes.length_ofNat 8)]
    simp [layout, Nat.add_assoc]

theorem holds_payload (nonzero : frame ≠ 0)
    (fits : totalPayloadSize grants.length strings.length (joined strings).length ≤
      NORMAL_PAGE_SIZE) :
    UserStack.Holds ⟨stackVmo frame, stackAddr,
        ⟨written stackAddr (frame + ram.hhdmOffset) grants strings ram.memory, ram.hhdmOffset,
          rest⟩⟩
      (packageAddr stackAddr grants strings) (payload stackAddr grants strings) := by
  apply UserStack.holds_of_read (by decide) (Vmo.frameAt_insert_same nonzero)
  · rw [length_payload]
    exact (layout_fits fits).2
  · exact read_written (frame + ram.hhdmOffset) ram.memory

end Inject

/-! ## The round trip -/

/-- What a process finds at the address of its package: its arguments and grants, in disjoint parts
of the top page of its stack. -/
structure Decoded (stack : UserStack) (pkgVaddr : Nat) (texts : List String)
    (grants : List HandleGrant) (pkg : ProcessInitPackage) : Prop where
  package : stack.loadPackage pkgVaddr = some pkg
  args : stack.args pkg = some texts
  handles : stack.extraHandles pkg = some grants
  argc : pkg.argc = texts.length
  /-- `argv[argc]` is null. -/
  ended : stack.loadNat (pkg.argv + pkg.argc * 8) 8 = some 0
  aligned : 16 ∣ pkgVaddr
  page_le : stack.vaddr + (stackSize - NORMAL_PAGE_SIZE) ≤ pkgVaddr
  handles_le : pkgVaddr + ProcessInitPackage.size ≤ pkg.extraHandlesPtr
  argv_le : pkg.extraHandlesPtr + grants.length * HandleGrant.size ≤ pkg.argv
  /-- The strings lie behind the argument vector, which holds their addresses. -/
  strings : ∃ stringsVaddr ptrs, pkg.argv + (pkg.argc + 1) * 8 ≤ stringsVaddr ∧
    stringsVaddr + (joined (texts.map asBytes)).length ≤ stack.vaddr + stackSize ∧
    (List.range pkg.argc).mapM (fun i => stack.loadNat (pkg.argv + i * 8) 8) = some ptrs ∧
    List.Forall₂ (fun ptr bytes => stringsVaddr ≤ ptr ∧
      ptr + (bytes.length + 1) ≤ stringsVaddr + (joined (texts.map asBytes)).length ∧
      stack.Holds ptr (bytes ++ [0])) ptrs (texts.map asBytes)

section RoundTrip

variable {stack : UserStack} {pkg : ProcessInitPackage}

/-- Numbers that lie behind each other. -/
theorem UserStack.Holds.loadWord {addr : Nat} {values : List Nat}
    (words : ∀ value ∈ values, value < wordSize)
    (holds : stack.Holds addr (values.flatMap (Bytes.ofNat 8))) (i : Nat)
    (inside : i < values.length) : stack.loadNat (addr + i * 8) 8 = some values[i] :=
  (holds.part (Bytes.length_ofNat 8) i inside).loadNat (words _ (List.getElem_mem inside))

/-- Grants that lie behind each other. -/
theorem UserStack.Holds.extraHandles {grants : List HandleGrant}
    (words : ∀ grant ∈ grants, grant.id < wordSize ∧ grant.tag < wordSize)
    (length_eq : pkg.extraHandlesLen = grants.length)
    (holds : stack.Holds pkg.extraHandlesPtr (grants.flatMap HandleGrant.bytes)) :
    stack.extraHandles pkg = some grants := by
  rw [UserStack.extraHandles, length_eq]
  apply mapM_range_eq_some
  intro i inside
  have word := words _ (List.getElem_mem inside)
  exact (holds.part length_grant_bytes i inside).loadGrant word.1 word.2

/-- The arguments that an argument vector points to. -/
theorem args_of_strings {texts : List String} {ptrs : List Nat}
    (nulFree : ∀ text ∈ texts, 0 ∉ asBytes text) (argc_eq : pkg.argc = texts.length)
    (loads : ∀ i, ∀ inside : i < ptrs.length,
      stack.loadNat (pkg.argv + i * 8) 8 = some ptrs[i])
    (placed : List.Forall₂ (fun ptr bytes => ptr ≠ 0 ∧ bytes.length ≤ stackSize ∧
      stack.Holds ptr (bytes ++ [0])) ptrs (texts.map asBytes)) :
    stack.args pkg = some texts := by
  have length_eq : ptrs.length = texts.length := by
    rw [placed.length_eq, List.length_map]
  have strings_eq : (List.range pkg.argc).mapM (fun i => do
      let argPtr ← stack.loadNat (pkg.argv + i * 8) 8
      if argPtr ≠ 0 then
        let bytes ← stack.cStr (stackSize + 1) argPtr
        return some (toStringLossy bytes)
      else
        return none) = some (texts.map some) := by
    rw [argc_eq, ← List.length_map some]
    apply mapM_range_eq_some
    intro i inside
    rw [List.length_map] at inside
    have at_ptr : i < ptrs.length := by omega
    have at_text : i < (texts.map asBytes).length := by rwa [List.length_map]
    obtain ⟨nonnull, short, holds⟩ := placed.get at_ptr at_text
    simp only [List.get_eq_getElem, List.getElem_map] at nonnull short holds
    have bytes_eq := holds.cStr (nulFree _ (List.getElem_mem inside)) (Nat.lt_succ_of_le short)
    rw [loads i at_ptr, List.getElem_map, Option.bind_eq_bind, Option.bind_some, if_pos nonnull,
      bytes_eq, Option.bind_eq_bind, Option.bind_some, toStringLossy_asBytes]
    rfl
  rw [UserStack.args, strings_eq, Option.map_some, List.reduceOption, List.filterMap_map]
  exact congrArg some List.filterMap_some

theorem argsBuf_eq (execName : String) (args : List String) :
    argsBuf execName args = joined ((execName :: args).map asBytes) := by
  rw [argsBuf, joined, List.flatMap_map]

/-- A process finds everything in a payload that lies in the top page of its stack. -/
theorem decoded_of_holds {texts : List String} {grants : List HandleGrant}
    (nulFree : ∀ text ∈ texts, 0 ∉ asBytes text)
    (words : ∀ grant ∈ grants, grant.id < wordSize ∧ grant.tag < wordSize)
    (stack_page : NORMAL_PAGE_SIZE ∣ stack.vaddr) (stack_end : stack.vaddr + stackSize ≤ wordSize)
    (fits : totalPayloadSize grants.length (texts.map asBytes).length
      (joined (texts.map asBytes)).length ≤ NORMAL_PAGE_SIZE)
    (holds : stack.Holds (packageAddr stack.vaddr grants (texts.map asBytes))
      (payload stack.vaddr grants (texts.map asBytes))) :
    Decoded stack (packageAddr stack.vaddr grants (texts.map asBytes)) texts grants
      (packageOf stack.vaddr grants.length (texts.map asBytes).length
        (joined (texts.map asBytes)).length) := by
  obtain ⟨aligned, below⟩ := layout_fits fits
  let pkg := packageOf stack.vaddr grants.length (texts.map asBytes).length
    (joined (texts.map asBytes)).length
  let stringsVaddr := pkg.argv + ((texts.map asBytes).length + 1) * 8
  have handles_eq : packageAddr stack.vaddr grants (texts.map asBytes) + ProcessInitPackage.size =
      pkg.extraHandlesPtr := Nat.add_assoc _ _ _
  have argv_eq : pkg.extraHandlesPtr + grants.length * HandleGrant.size = pkg.argv :=
    Nat.add_assoc _ _ _
  have strings_eq : stack.vaddr + (stackSize - NORMAL_PAGE_SIZE) + (layout grants.length
      (texts.map asBytes).length (joined (texts.map asBytes)).length).stringsOffset =
      stringsVaddr := (Nat.add_assoc _ _ _).symm
  have end_le : stringsVaddr + (joined (texts.map asBytes)).length ≤ stack.vaddr + stackSize := by
    rw [totalPayloadSize] at below
    have page_le : NORMAL_PAGE_SIZE ≤ stackSize := by decide
    rw [← strings_eq]
    simp only [layout] at below ⊢
    omega
  rw [payload] at holds
  simp only [UserStack.Holds.append, length_package_bytes, length_flatMap length_grant_bytes,
    length_flatMap (Bytes.length_ofNat 8), List.length_append, length_stringAddrs,
    List.length_singleton] at holds
  rw [handles_eq, argv_eq, strings_eq] at holds
  obtain ⟨package_holds, grants_hold, argv_holds, strings_hold⟩ := holds
  have placed := holds_strings strings_hold
  have pointers : ∀ value ∈ stringAddrs stringsVaddr (texts.map asBytes) ++ [0],
      value < wordSize := by
    intro value mem
    rcases List.mem_append.mp mem with string | null
    · have lt := lt_of_mem_stringAddrs string
      omega
    · rw [List.mem_singleton.mp null]
      decide
  have loads : ∀ i, ∀ inside : i < (stringAddrs stringsVaddr (texts.map asBytes)).length,
      stack.loadNat (pkg.argv + i * 8) 8 =
        some (stringAddrs stringsVaddr (texts.map asBytes))[i] := by
    intro i inside
    have load_eq := argv_holds.loadWord pointers i (by rw [List.length_append]; omega)
    rwa [List.getElem_append_left inside] at load_eq
  have ended := argv_holds.loadWord pointers texts.length (by simp)
  rw [List.getElem_append_right (by simp)] at ended
  have sizes : grants.length ≤ NORMAL_PAGE_SIZE ∧
      (texts.map asBytes).length ≤ NORMAL_PAGE_SIZE ∧
      (joined (texts.map asBytes)).length ≤ NORMAL_PAGE_SIZE := by
    unfold totalPayloadSize HandleGrant.size at fits
    omega
  have page_lt : NORMAL_PAGE_SIZE < wordSize ∧ NORMAL_PAGE_SIZE ≤ stackSize := by decide
  constructor
  · apply package_holds.loadPackage
    simp only [List.forall_mem_cons, List.not_mem_nil, false_imp_iff, implies_true, and_true]
    have handles_lt : pkg.extraHandlesPtr < wordSize := by omega
    have argv_lt : pkg.argv < wordSize := by omega
    refine ⟨show 1 < wordSize by decide, show 0 < wordSize by decide, show 2 < wordSize by decide,
      show 3 < wordSize by decide, handles_lt, ?_, ?_, argv_lt⟩
    · exact Nat.lt_of_le_of_lt sizes.1 page_lt.1
    · exact Nat.lt_of_le_of_lt sizes.2.1 page_lt.1
  · apply args_of_strings nulFree (List.length_map _) loads
    apply placed.imp
    rintro ptr bytes ⟨behind, ends, holds_string⟩
    exact ⟨by omega, by omega, holds_string⟩
  · exact grants_hold.extraHandles words rfl
  · exact List.length_map _
  · have argc_eq : pkg.argc = texts.length := List.length_map _
    rw [argc_eq, ended]
    simp
  · apply Nat.dvd_add (Nat.dvd_add (Nat.dvd_trans (by decide) stack_page) (by decide)) aligned
  · exact Nat.le_add_right _ _
  · exact handles_eq.le
  · exact argv_eq.le
  · refine ⟨stringsVaddr, _, le_rfl, end_le, ?_, placed⟩
    have argc_eq : pkg.argc = (stringAddrs stringsVaddr (texts.map asBytes)).length :=
      length_stringAddrs.symm
    rw [argc_eq]
    exact mapM_range_eq_some loads

/-- For every program name and argument list of NUL-free texts and every list of grants, a new
process finds the arguments and grants on its stack if they fit its top page, and `inject` returns
an error exactly if they do not. -/
theorem arguments_survive {execName : String} {args : List String} {grants : List HandleGrant}
    {stackAddr frame : Nat} {rest : List Nat} {ram : Ram}
    (nulFree : ∀ text ∈ execName :: args, 0 ∉ asBytes text)
    (words : ∀ grant ∈ grants, grant.id < wordSize ∧ grant.tag < wordSize)
    (stack_page : NORMAL_PAGE_SIZE ∣ stackAddr) (stack_end : stackAddr + stackSize ≤ wordSize)
    (supply_eq : ram.supply = frame :: rest) (nonzero : frame ≠ 0) :
    (∀ extraHandles argsBuffer argc initpkg,
      (∃ problem vmo after, inject (.new stackSize) stackAddr stackSize extraHandles argsBuffer
          argc initpkg ram = .ok (.error problem, vmo, after)) ↔
        NORMAL_PAGE_SIZE < totalPayloadSize extraHandles.length argc argsBuffer.length) ∧
    (totalPayloadSize grants.length (execName :: args).length (argsBuf execName args).length ≤
        NORMAL_PAGE_SIZE →
      ∃ pkgVaddr stackTop vmo after pkg,
        prepareStack stackAddr grants grants.length (argsBuf execName args) ram =
          .ok (.ok (pkgVaddr, stackTop), vmo, after) ∧
        Decoded ⟨vmo, stackAddr, after⟩ pkgVaddr (execName :: args) grants pkg) := by
  constructor
  · exact fun _ argsBuffer argc initpkg => inject_refuses_iff supply_eq argsBuffer argc initpkg
  · intro fits
    rw [argsBuf_eq, ← List.length_map asBytes] at fits
    have strings_free : ∀ bytes ∈ (execName :: args).map asBytes, 0 ∉ bytes := by
      rwa [List.forall_mem_map]
    rw [argsBuf_eq]
    exact ⟨_, _, _, _, _, prepareStack_fits supply_eq strings_free fits,
      decoded_of_holds nulFree words stack_page stack_end fits (holds_payload nonzero fits)⟩

theorem arguments_survive_list :
    ∃ pkgVaddr stackTop vmo after pkg,
      prepareStack 0x7000_0000 [⟨4, .READ, 7⟩] 1 (argsBuf "ls" ["-l", "é"])
        ⟨fun _ => 0, 0xFFFF_8000_0000_0000, [0x5000]⟩ = .ok (.ok (pkgVaddr, stackTop), vmo, after) ∧
      Decoded ⟨vmo, 0x7000_0000, after⟩ pkgVaddr ["ls", "-l", "é"] [⟨4, .READ, 7⟩] pkg :=
  (arguments_survive (by decide) (by decide) (by decide) (by decide) rfl (by decide)).2 (by decide)

end RoundTrip

end ProcessEnvironment
end Vespertine
