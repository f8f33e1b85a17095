import Vespertine.Drivers.Storage
import Vespertine.Library.FreeStack

/-!
# Block transfers

A transfer takes a page for its header and three descriptors, and the future gives both back when
the device is done.  `sent` lists how a transfer can end; `Reads` says when a read succeeds, and
`ReadDone` what it has done.
-/

namespace Vespertine.Storage

open Virtio (DeviceStatus Request Virtqueue NO_DESC)

variable {size slots : Nat}

/-- The free descriptors, in the order of their list. -/
def FreeList (vq : Virtqueue size Unit Unit) (nodes : List Nat) : Prop :=
  Threaded (fun idx => (vq.desc idx).next) NO_DESC vq.freeHead nodes

/-- The next page is zero, which stands for none. -/
def NoPage (world : World size slots) : Prop := world.supply.head? = some 0

/-- A device has these sectors. -/
def Device.Holds (sector sectorsCount : Nat) : Device → Prop
  | .disk => True
  | .partition _ totalSectors => wrappingAdd sector sectorsCount ≤ totalSectors

instance (sector sectorsCount : Nat) : DecidablePred (Device.Holds sector sectorsCount)
  | .disk => .isTrue trivial
  | .partition _ totalSectors =>
      inferInstanceAs (Decidable (wrappingAdd sector sectorsCount ≤ totalSectors))

/-- The sector of the disk at which a sector of a device lies. -/
def Device.place (sector : Nat) : Device → Nat
  | .disk => sector
  | .partition startSector _ => wrappingAdd startSector sector

/-- A read with this page for its header succeeds: the device has the sectors, three descriptors are
free, and the device reports success. -/
structure Reads (device : Device) (sector sectorsCount : Nat) (world : World size slots) :
    Prop where
  holds : device.Holds sector sectorsCount
  page : ∃ page, page ≠ 0 ∧ world.supply.head? = some page
  chain : world.vq.allocChain.1.isSome = true
  status : world.statuses.head? = some .ok

/-- The world when the first page has been taken. -/
def takenPage (world : World size slots) : World size slots :=
  { world with supply := world.supply.tail }

/-- The bytes of some sectors. -/
def sectorBytes (disk : Nat → UInt8) (sector count : Nat) : List UInt8 :=
  (List.range count).map fun i => disk (sector * 512 + i)

/-! ## Descriptors -/

section Descriptors

variable {vq : Virtqueue size Unit Unit} {nodes rest : List Nat} {idx : Nat}

theorem allocDesc_nil (list : FreeList vq []) : vq.allocDesc = none :=
  if_pos list

theorem allocDesc_cons (list : FreeList vq (idx :: rest)) :
    ∃ head, vq.allocDesc = some (idx, { vq with freeHead := head }) ∧
      FreeList { vq with freeHead := head } rest := by
  obtain ⟨head_eq, ne, below⟩ := list
  refine ⟨(vq.desc vq.freeHead).next, ?_, ?_⟩
  · rw [Virtqueue.allocDesc, if_neg (head_eq ▸ ne)]
    rw [head_eq]
  · rw [head_eq]
    exact below

/-- Three descriptors are taken off the list if there are three. -/
theorem allocChain_isSome (list : FreeList vq nodes)
    (some_eq : vq.allocChain.1.isSome = true) :
    ∃ d0 d1 d2 rest head, nodes = d0 :: d1 :: d2 :: rest ∧
      vq.allocChain = (some (d0, d1, d2), { vq with freeHead := head }) ∧
      FreeList { vq with freeHead := head } rest := by
  rw [Virtqueue.allocChain] at some_eq ⊢
  cases nodes with
  | nil =>
      rw [allocDesc_nil list] at some_eq
      cases some_eq
  | cons d0 nodes =>
      obtain ⟨head, desc_eq, list⟩ := allocDesc_cons list
      rw [desc_eq] at some_eq ⊢
      dsimp only at some_eq ⊢
      cases nodes with
      | nil =>
          rw [allocDesc_nil list] at some_eq
          cases some_eq
      | cons d1 nodes =>
          obtain ⟨head, desc_eq, list⟩ := allocDesc_cons list
          rw [desc_eq] at some_eq ⊢
          dsimp only at some_eq ⊢
          cases nodes with
          | nil =>
              rw [allocDesc_nil list] at some_eq
              cases some_eq
          | cons d2 nodes =>
              obtain ⟨head, desc_eq, list⟩ := allocDesc_cons list
              rw [desc_eq]
              exact ⟨d0, d1, d2, nodes, head, rfl, rfl, list⟩

/-- Three descriptors on the list are enough. -/
theorem allocChain_of_length (list : FreeList vq nodes) (enough : 3 ≤ nodes.length) :
    vq.allocChain.1.isSome = true := by
  match nodes, enough with
  | d0 :: d1 :: d2 :: rest, _ =>
      obtain ⟨_, first_eq, list⟩ := allocDesc_cons list
      obtain ⟨_, second_eq, list⟩ := allocDesc_cons list
      obtain ⟨_, third_eq, -⟩ := allocDesc_cons list
      rw [Virtqueue.allocChain, first_eq]
      dsimp only
      rw [second_eq]
      dsimp only
      rw [third_eq]
      rfl

theorem allocChain_isSome_iff (list : FreeList vq nodes) :
    vq.allocChain.1.isSome = true ↔ 3 ≤ nodes.length := by
  refine ⟨fun some_eq => ?_, allocChain_of_length list⟩
  obtain ⟨_, _, _, rest, _, rfl, -⟩ := allocChain_isSome list some_eq
  exact Nat.le_add_left 3 rest.length

/-- Writing a descriptor that is not free leaves the free list as it is. -/
theorem FreeList.update_desc (list : FreeList vq nodes) (outside : idx ∉ nodes)
    (value : Virtio.VqDescriptor) :
    FreeList { vq with desc := Function.update vq.desc idx value } nodes := by
  refine Threaded.congr list fun node mem => ?_
  dsimp only
  rw [Function.update_of_ne fun same : node = idx => outside (same ▸ mem)]

theorem FreeList.freeDesc (list : FreeList vq nodes) (outside : idx ∉ nodes) (ne : idx ≠ NO_DESC) :
    FreeList (vq.freeDesc idx) (idx :: nodes) := by
  refine ⟨rfl, ne, ?_⟩
  have next_eq : ((vq.freeDesc idx).desc idx).next = vq.freeHead := by
    simp only [Virtqueue.freeDesc, Function.update_self]
  beta_reduce
  rw [next_eq]
  exact list.update_desc outside { vq.desc idx with next := vq.freeHead }

end Descriptors

/-! ## One transfer -/

/-- What was taken has been given back. -/
structure Balanced (before after : World size slots) : Prop where
  held_eq : after.held = before.held
  list : ∀ nodes, FreeList before.vq nodes → ∃ others, FreeList after.vq others ∧
    others.Perm nodes
  orders_eq : after.orders = before.orders

section Transfers

variable [NeZero size] {world after : World size slots} {request : Request} {nodes : List Nat}

/-- What was allocated still is. -/
def Grows (before after : World size slots) : Prop := before.held ≤ after.held

instance : IsTrans (World size slots) Grows := ⟨fun _ _ _ => le_trans⟩

/-- What a read that returned has done. -/
structure ReadDone (device : Device) (sector sectorsCount bufPhys : Nat)
    (before after : World size slots) : Prop where
  balanced : Balanced before after
  supply_eq : after.supply = before.supply.tail
  statuses_eq : after.statuses = before.statuses.tail
  requests_eq : after.requests =
    before.requests ++ [⟨device.place sector, sectorsCount, bufPhys, false⟩]
  disk_eq : after.disk = before.disk
  bytes_eq : ∀ i < sectorsCount * 512 % 2 ^ 32,
    after.bytes (bufPhys + i) = before.disk (device.place sector * 512 + i)

/-- How a transfer that has been polled to its end can go. -/
inductive Sent (request : Request) (world : World size slots) :
    EStateM.Result Fault (World size slots) Unit → Prop
  | stopped {cause : Panic} {after : World size slots}
      (stuck : cause = .outOfMemory ∧ world.supply = [] ∨
        cause = .diverges ∧ world.statuses = []) (grows : Grows world after) :
      Sent request world (.error (.panic cause) after)
  /-- There is no page for the header. -/
  | noPage {after : World size slots} (noPage : NoPage world) (balanced : Balanced world after) :
      Sent request world (.error .err after)
  /-- The page of the header is lost. -/
  | leaked {after : World size slots} {page : Nat} (page_some : ¬ NoPage world)
      (no_chain : ¬ world.vq.allocChain.1.isSome = true)
      (held_eq : after.held = (page, 0) ::ₘ world.held) : Sent request world (.error .err after)
  | failed {after : World size slots} (chain : world.vq.allocChain.1.isSome = true)
      (status : world.statuses.head? ≠ some .ok) (balanced : Balanced world after) :
      Sent request world (.error .err after)
  | done {after : World size slots} (chain : world.vq.allocChain.1.isSome = true)
      (page : ∃ page, page ≠ 0 ∧ world.supply.head? = some page)
      (status : world.statuses.head? = some .ok) (balanced : Balanced world after)
      (read : request.isWrite = false →
        ReadDone .disk request.sector request.sectorsCount request.bufPhys world after) :
      Sent request world (.ok () after)

/-- The world when a page has been taken. -/
def withPage (page : Nat) (world : World size slots) : World size slots :=
  { world with supply := world.supply.tail, held := (page, 0) ::ₘ world.held }

omit [NeZero size] in
/-- Functions that begin by taking a page. -/
theorem taking {α : Type} (world : World size slots) (rest : Nat → Program size slots α) :
    world.supply = [] ∧ (alloc >>= fun page => if page = 0 then fail else rest page) world =
        .error (.panic .outOfMemory) world ∨
      NoPage world ∧ (alloc >>= fun page => if page = 0 then fail else rest page) world =
        .error .err (takenPage world) ∨
      ∃ page, page ≠ 0 ∧ world.supply.head? = some page ∧
        (alloc >>= fun page => if page = 0 then fail else rest page) world =
          rest page (withPage page world) := by
  cases supply_eq : world.supply with
  | nil =>
      refine .inl ⟨rfl, run_bind_of_error ?_ _⟩
      rw [alloc, supply_eq]
  | cons page supply =>
      right
      have alloc_eq : alloc world = .ok page { world with
          supply, held := if page = 0 then world.held else (page, 0) ::ₘ world.held } := by
        rw [alloc, supply_eq]
      rw [run_bind_of_ok alloc_eq]
      by_cases zero : page = 0
      · subst zero
        refine .inl ⟨?_, ?_⟩
        · rw [NoPage, supply_eq]
          rfl
        · rw [if_pos rfl, if_pos rfl, takenPage, supply_eq]
          rfl
      · refine .inr ⟨page, zero, rfl, ?_⟩
        rw [if_neg zero, if_neg zero, withPage, supply_eq]
        rfl

omit [NeZero size] in
theorem balanced_of_eq (held_eq : after.held = world.held) (vq_eq : after.vq = world.vq)
    (orders_eq : after.orders = world.orders) : Balanced world after :=
  ⟨held_eq, fun nodes list => ⟨nodes, vq_eq ▸ list, .refl nodes⟩, orders_eq⟩

/-- The chain of a request is built from the first three free descriptors and given back. -/
theorem FreeList.giveBack {vq : Virtqueue size Unit Unit} {d0 d1 d2 page : Nat} {rest : List Nat}
    (list : FreeList vq (d0 :: d1 :: d2 :: rest)) {other : Virtqueue size Unit Unit}
    (below : FreeList other rest) : FreeList
      ((((post (other.writeChain request page d0 d1 d2) d0).freeDesc d0).freeDesc d1).freeDesc d2)
      (d2 :: d1 :: d0 :: rest) := by
  have nodup := Threaded.nodup list
  simp only [List.nodup_cons, List.mem_cons, not_or] at nodup
  obtain ⟨⟨ne01, ne02, not_mem0⟩, ⟨ne12, not_mem1⟩, not_mem2, -⟩ := nodup
  obtain ⟨-, ne0, -, ne1, -, ne2, -⟩ := list
  have written : FreeList (post (other.writeChain request page d0 d1 d2) d0) rest :=
    ((below.update_desc not_mem0 _).update_desc not_mem1 _).update_desc not_mem2 _
  refine ((written.freeDesc not_mem0 ne0).freeDesc ?_ ne1).freeDesc ?_ ne2
  · simp [Ne.symm ne01, not_mem1]
  · simp [Ne.symm ne02, Ne.symm ne12, not_mem2]

omit [NeZero size] in
theorem perform_eq (request : Request) (world : World size slots) :
    ∃ bytes disk, perform request world = { world with bytes, disk } := by
  rw [perform]
  split
  · exact ⟨world.bytes, _, rfl⟩
  · exact ⟨_, world.disk, rfl⟩

/-- A transfer gives back what it took, unless descriptors are short. -/
theorem sent (request : Request) (world : World size slots) :
    Sent request world ((transferSectors request >>= await) world) := by
  rcases taking world fun page => do
      update fun world => { world with bytes := headerPage world.bytes request page }
      buildChain request page with
    ⟨empty, transfer_eq⟩ | ⟨noPage, transfer_eq⟩ | ⟨page, page_ne, head_eq, transfer_eq⟩
  · change transferSectors request world = _ at transfer_eq
    rw [run_bind_of_error transfer_eq]
    exact .stopped (.inl ⟨rfl, empty⟩) (le_refl _)
  · change transferSectors request world = _ at transfer_eq
    rw [run_bind_of_error transfer_eq]
    exact .noPage noPage (balanced_of_eq rfl rfl rfl)
  have page_some : ¬ NoPage world := by
    rw [NoPage, head_eq]
    exact fun zero => page_ne (Option.some.inj zero)
  let begun : World size slots :=
    { withPage page world with bytes := headerPage world.bytes request page }
  change transferSectors request world = buildChain request page begun at transfer_eq
  by_cases chain : world.vq.allocChain.1.isSome = true
  · obtain ⟨⟨d0, d1, d2⟩, some_eq⟩ := Option.isSome_iff_exists.1 chain
    obtain ⟨vq, chain_eq⟩ : ∃ vq, world.vq.allocChain = (some (d0, d1, d2), vq) :=
      ⟨_, Prod.ext some_eq rfl⟩
    have built_eq : buildChain request page begun = .ok
        ⟨⟨d0, d1, d2, page, (post (vq.writeChain request page d0 d1 d2) d0).lastSeenUsed⟩,
          request⟩ { begun with
          vq := post (vq.writeChain request page d0 d1 d2) d0
          requests := world.requests ++ [request] } := by
      have begun_eq : begun.vq.allocChain = _ := chain_eq
      rw [buildChain, begun_eq]
      rfl
    rw [run_bind_of_ok (transfer_eq.trans built_eq)]
    -- The future gives back the page and the three descriptors whatever the status is.
    have back (next : World size slots) (held_eq : next.held = world.held)
        (vq_eq : next.vq = (((post (vq.writeChain request page d0 d1 d2) d0).freeDesc
          d0).freeDesc d1).freeDesc d2)
        (orders_eq : next.orders = world.orders) : Balanced world next := by
      refine ⟨held_eq, fun nodes list => ?_, orders_eq⟩
      obtain ⟨e0, e1, e2, rest, head, rfl, taken_eq, below⟩ := allocChain_isSome list chain
      obtain ⟨same, rfl⟩ := Prod.ext_iff.1 (chain_eq.symm.trans taken_eq)
      cases same
      refine ⟨d2 :: d1 :: d0 :: rest, ?_, (List.reverse_perm [d0, d1, d2]).append_right rest⟩
      rw [vq_eq]
      exact list.giveBack below
    rw [await]
    cases status_eq : begun.statuses with
    | nil => exact .stopped (.inr ⟨rfl, status_eq⟩) (Multiset.le_cons_self world.held (page, 0))
    | cons status statuses =>
        change world.statuses = _ at status_eq
        dsimp only
        by_cases status_ok : status = .ok
        · rw [if_pos status_ok]
          generalize after_eq : perform request _ = after
          obtain ⟨bytes, disk, performed_eq⟩ := perform_eq request _
          have balanced : Balanced world after := by
            rw [← after_eq, performed_eq]
            exact back _ (Multiset.erase_cons_head _ _) rfl rfl
          refine .done chain ⟨page, page_ne, head_eq⟩ ?_ balanced fun is_read => ?_
          · rw [status_eq, status_ok]
            rfl
          rw [perform, if_neg (by rw [is_read]; exact Bool.false_ne_true)] at after_eq
          subst after_eq
          refine ⟨balanced, rfl, ?_, ?_, rfl, fun i lt => ?_⟩
          · rw [status_eq]
            rfl
          · rw [← is_read]
            rfl
          · dsimp only
            rw [if_pos ⟨Nat.le_add_right _ _, Nat.add_lt_add_left lt _⟩, Nat.add_sub_cancel_left]
            rfl
        · rw [if_neg status_ok]
          refine .failed chain ?_ (back _ (Multiset.erase_cons_head _ _) rfl rfl)
          rw [status_eq]
          exact fun head_eq => status_ok (Option.some.inj head_eq)
  · have failed_eq : ∃ vq, buildChain request page begun = .error .err { begun with vq } := by
      rw [buildChain]
      split
      next vq _ => exact ⟨vq, rfl⟩
      next chain_eq =>
        have chain_eq : world.vq.allocChain = _ := chain_eq
        rw [chain_eq] at chain
        exact absurd rfl chain
    obtain ⟨vq, failed_eq⟩ := failed_eq
    rw [run_bind_of_error (transfer_eq.trans failed_eq)]
    exact .leaked page_some chain rfl

theorem Sent.grows (sent : Sent request world ((transferSectors request >>= await) world)) :
    Grows world (finalState ((transferSectors request >>= await) world)) := by
  generalize (transferSectors request >>= await) world = result at sent
  cases sent with
  | stopped _ grows => exact grows
  | noPage _ balanced => exact balanced.held_eq.ge
  | leaked _ _ held_eq => exact (Multiset.le_cons_self _ _).trans held_eq.ge
  | failed _ _ balanced => exact balanced.held_eq.ge
  | done _ _ _ balanced => exact balanced.held_eq.ge

variable {device : Device} {sector sectorsCount bufPhys : Nat} {isWrite : Bool}

/-- A partition refuses sectors that it does not have, and passes the others on. -/
theorem submit_eq (world : World size slots) :
    (device.submit sector sectorsCount bufPhys isWrite >>= await) world =
      if device.Holds sector sectorsCount then
        (transferSectors ⟨device.place sector, sectorsCount, bufPhys, isWrite⟩ >>= await) world
      else
        .error .err world := by
  cases device with
  | disk => exact (if_pos trivial).symm
  | partition startSector totalSectors =>
      by_cases holds : (Device.partition startSector totalSectors).Holds sector sectorsCount
      · have inside : ¬ wrappingAdd sector sectorsCount > totalSectors := not_lt.2 holds
        rw [if_pos holds, Device.submit, if_neg inside]
        rfl
      · have outside : wrappingAdd sector sectorsCount > totalSectors := not_le.1 holds
        rw [if_neg holds, Device.submit, if_pos outside]
        rfl

theorem submit_grows : Along (Grows : World size slots → World size slots → Prop)
    (device.submit sector sectorsCount bufPhys isWrite >>= await) := by
  intro world
  rw [submit_eq]
  split
  · exact (sent _ world).grows
  · exact le_refl _

/-- A read that returned has done its work. -/
theorem readAll_ok (run_eq : device.readAll sector sectorsCount bufPhys world = .ok () after) :
    Reads device sector sectorsCount world ∧
      ReadDone device sector sectorsCount bufPhys world after := by
  have sent_eq := (submit_eq world).symm.trans run_eq
  split at sent_eq
  next holds =>
    have sent := sent ⟨device.place sector, sectorsCount, bufPhys, false⟩ world
    rw [sent_eq] at sent
    cases sent with
    | done chain page status balanced read =>
        have done := read rfl
        exact ⟨⟨holds, page, chain, status⟩, done.balanced, done.supply_eq, done.statuses_eq,
          done.requests_eq, done.disk_eq, done.bytes_eq⟩
  next => cases sent_eq

/-- A read for which everything is there returns. -/
theorem Reads.readAll (reads : Reads device sector sectorsCount world) (bufPhys : Nat) :
    ∃ after, device.readAll sector sectorsCount bufPhys world = .ok () after := by
  obtain ⟨holds, ⟨page, page_ne, head_eq⟩, chain, status⟩ := reads
  have sent := sent ⟨device.place sector, sectorsCount, bufPhys, false⟩ world
  have run_eq : device.readAll sector sectorsCount bufPhys world = _ :=
    (submit_eq world).trans (if_pos holds)
  rw [← run_eq] at sent
  generalize device.readAll sector sectorsCount bufPhys world = result at sent
  cases sent with
  | stopped stuck =>
      rcases stuck with ⟨-, empty⟩ | ⟨-, empty⟩
      · rw [empty] at head_eq
        cases head_eq
      · rw [empty] at status
        cases status
  | noPage noPage =>
      rw [NoPage, head_eq] at noPage
      exact absurd (Option.some.inj noPage) page_ne
  | leaked _ no_chain => exact absurd chain no_chain
  | failed _ bad => exact absurd status bad
  | done => exact ⟨_, rfl⟩

omit [NeZero size] in
/-- A read depends on the pages, the descriptors and the status bytes that come next. -/
theorem reads_congr {first second : World size slots} (supply_eq : first.supply = second.supply)
    (statuses_eq : first.statuses = second.statuses)
    (chain_iff : first.vq.allocChain.1.isSome = true ↔ second.vq.allocChain.1.isSome = true) :
    Reads device sector sectorsCount first ↔ Reads device sector sectorsCount second := by
  constructor
  · rintro ⟨holds, page, chain, status⟩
    exact ⟨holds, supply_eq ▸ page, chain_iff.1 chain, statuses_eq ▸ status⟩
  · rintro ⟨holds, page, chain, status⟩
    exact ⟨holds, supply_eq ▸ page, chain_iff.2 chain, statuses_eq ▸ status⟩

/-- A read stops without an answer only for want of memory or of a status. -/
theorem readAll_panic {cause : Panic}
    (run_eq : device.readAll sector sectorsCount bufPhys world = .error (.panic cause) after) :
    cause = .outOfMemory ∨ cause = .diverges := by
  have sent_eq := (submit_eq world).symm.trans run_eq
  split at sent_eq
  · have sent := sent ⟨device.place sector, sectorsCount, bufPhys, false⟩ world
    rw [sent_eq] at sent
    cases sent with
    | stopped stuck => exact stuck.imp And.left And.left
  · cases sent_eq

theorem readAll_divide
    (run_eq : device.readAll sector sectorsCount bufPhys world = .error .divideByZero after) :
    False := by
  have sent_eq := (submit_eq world).symm.trans run_eq
  split at sent_eq
  · have sent := sent ⟨device.place sector, sectorsCount, bufPhys, false⟩ world
    rw [sent_eq] at sent
    cases sent
  · cases sent_eq

/-- A read that failed could not succeed. -/
theorem readAll_err
    (run_eq : device.readAll sector sectorsCount bufPhys world = .error .err after) :
    ¬ Reads device sector sectorsCount world := by
  intro reads
  obtain ⟨last, ok_eq⟩ := reads.readAll bufPhys
  rw [run_eq] at ok_eq
  cases ok_eq

/-- A relation that every transfer keeps, and that is about neither the memory nor the cache. -/
structure Stable (relation : World size slots → World size slots → Prop) : Prop where
  keeps : ∀ world bytes cache, relation world { world with bytes, cache }
  submit : ∀ device sector sectorsCount bufPhys isWrite,
    Along relation (Device.submit device sector sectorsCount bufPhys isWrite >>= await)

namespace Stable

variable {relation : World size slots → World size slots → Prop} [IsTrans _ relation]
  {blockSize blockId destPhys : Nat} {slot : Fin slots}

theorem writeBack (stable : Stable relation) :
    Along relation (writeBack device blockSize slot) := by
  intro world
  rw [Storage.writeBack]
  have copied {source target count : Nat} :
      Along relation (copyBytes source target count : Program size slots Unit) :=
    fun start => stable.keeps start _ start.cache
  have changed {change : BlockCache.CacheEntry Unit → BlockCache.CacheEntry Unit} :
      Along relation (modifyEntry slot change : Program size slots Unit) :=
    fun start => stable.keeps start start.bytes _
  split
  · exact copied.bind (fun _ => Along.bind (stable.submit _ _ _ _ _) fun _ => changed) world
  · exact stable.keeps world world.bytes world.cache

theorem fetchBlock (stable : Stable relation) :
    Along relation (fetchBlock device blockSize blockId slot) := by
  intro world
  have changed {change : BlockCache.CacheEntry Unit → BlockCache.CacheEntry Unit} :
      Along relation (modifyEntry slot change : Program size slots Unit) :=
    fun start => stable.keeps start start.bytes _
  exact changed.bind (fun _ => Along.bind (stable.submit _ _ _ _ _) fun _ => changed) world

theorem cacheReadBlock [NeZero slots] (stable : Stable relation) :
    Along relation (cacheReadBlock device blockSize blockId destPhys) := by
  intro world
  rw [Storage.cacheReadBlock]
  have copied {source target count : Nat} :
      Along relation (copyBytes source target count : Program size slots Unit) :=
    fun start => stable.keeps start _ start.cache
  have reserved : Along relation (reserveSlot : Program size slots (Fin slots)) := by
    intro start
    rw [reserveSlot]
    split <;> exact stable.keeps start start.bytes _
  split
  next slot _ =>
    split
    · exact stable.keeps world world.bytes world.cache
    · exact Along.bind (fun start => stable.keeps start start.bytes _) (fun _ => copied) world
  next =>
    exact reserved.bind (fun _ => stable.writeBack.bind fun _ => stable.fetchBlock.bind
      fun _ => copied) world

end Stable

end Transfers

/-- The bytes of a header are those of the disk. -/
theorem read_sectorBytes {bytes : Memory} {disk : Nat → UInt8} {addr sector count : Nat}
    (bytes_eq : ∀ i < count, bytes (addr + i) = disk (sector * 512 + i)) :
    bytes.read addr count = sectorBytes disk sector count := by
  refine List.ext_getElem ?_ fun i lt _ => ?_
  · rw [Memory.length_read, sectorBytes, List.length_map, List.length_range]
  · rw [Memory.length_read] at lt
    simp only [Memory.getElem_read, sectorBytes, List.getElem_map, List.getElem_range]
    exact bytes_eq i lt

/-- A field of what has been read is a field of the disk. -/
theorem field_sectorBytes {disk : Nat → UInt8} {sector count offset width : Nat}
    (inside : offset + width ≤ count) : field (sectorBytes disk sector count) offset width =
      Bytes.toNat ((List.range width).map fun i => disk (sector * 512 + (offset + i))) := by
  rw [field]
  congr 1
  refine List.ext_getElem ?_ fun i lt _ => ?_
  · simp only [sectorBytes, List.length_take, List.length_drop, List.length_map,
      List.length_range]
    omega
  · simp only [sectorBytes, List.getElem_take, List.getElem_drop, List.getElem_map,
      List.getElem_range]

private local instance oneSlot : NeZero 1 := ⟨by decide⟩

/-- A queue of four descriptors that has been set up, one free page, and the status bytes that the
device is going to write. -/
def restingWorld (freeHead : Nat) (statuses : List DeviceStatus) : World 4 1 where
  bytes _ := 0
  disk _ := 0
  supply := [4096]
  orders := []
  held := 0
  vq := { Virtio.vqSetup with freeHead }
  statuses
  cache := ⟨fun _ => ⟨none, false, false, false, ()⟩, 0⟩
  entryPhys _ := 8192
  clonePhys := 12288
  requests := []
  dests := []

end Vespertine.Storage
