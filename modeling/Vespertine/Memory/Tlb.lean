import Mathlib.Data.Set.Basic
import Vespertine.Memory.PagingRefinement
import Vespertine.Memory.Vmm

/-!
# Translation caches

Every core caches translations of pages.  A core may drop a cached translation or cache a mapped
one at any time; the kernel removes translations by flushing an address on its own core, or on all
cores by a shootdown.  The vector 65 handler flushes the one address that the shootdown published:
its size is not passed on.

`Invalidates` is the obligation of a call that unmaps a range: its effects leave no translation of
the range on any core, and a frame is returned only when no core can still reach its page.
-/

namespace Vespertine
namespace Tlb

variable {n : Nat}

/-- A cached translation of one page. -/
structure Translation where
  /-- The page, counted in pages of its size. -/
  page : Nat
  phys : Nat
  size : BlockSize
deriving DecidableEq, Repr

namespace Translation

/-- The translation is used for an address. -/
def Covers (translation : Translation) (addr : Nat) : Prop :=
  addr / translation.size.bytes = translation.page

/-- The translation is used for some address of a range. -/
def Meets (translation : Translation) (start size : Nat) : Prop :=
  ∃ addr, start ≤ addr ∧ addr < start + size ∧ translation.Covers addr

end Translation

/-- The mapped pages and the translations cached by every core. -/
structure Caches (n : Nat) where
  space : AddressSpace
  tlb : Fin n → Set Translation

namespace Caches

/-- The translations that `invlpg` leaves. -/
def flush (addr : Nat) (tlb : Set Translation) : Set Translation :=
  {translation ∈ tlb | ¬translation.Covers addr}

/-- Flush an address on one core. -/
def flushOn (caches : Caches n) (core : Fin n) (addr : Nat) : Caches n :=
  { caches with tlb := Function.update caches.tlb core (flush addr (caches.tlb core)) }

/-- What an effect of memory management on core `self` does to pages and caches. -/
def apply (self : Fin n) (caches : Caches n) : Effect → Caches n
  | .mapPage virt phys size =>
      { caches with space := caches.space.set size (virt / size.bytes) (some phys) }
  | .unmapPage virt size =>
      { caches.flushOn self virt with space := caches.space.set size (virt / size.bytes) none }
  | .changeFlags virt _ _ => caches.flushOn self virt
  | .flushTlb virt => caches.flushOn self virt
  | .shootdown addr _ => { caches with tlb := fun core => flush addr (caches.tlb core) }
  | .free _ _ => caches

/-- Between two effects every core may drop translations and cache mapped ones. -/
structure Reloaded (before after : Caches n) : Prop where
  space_eq : after.space = before.space
  cached : ∀ core, ∀ translation ∈ after.tlb core, translation ∈ before.tlb core ∨
    before.space translation.size translation.page = some translation.phys

/-- No core caches a translation of the range. -/
def Empty (caches : Caches n) (start size : Nat) : Prop :=
  ∀ core, ∀ translation ∈ caches.tlb core, ¬translation.Meets start size

/-- Every cached translation of the range is mapped. -/
def Coherent (caches : Caches n) (start size : Nat) : Prop :=
  ∀ core, ∀ translation ∈ caches.tlb core, translation.Meets start size →
    caches.space translation.size translation.page = some translation.phys

end Caches

/-- A range and the pages mapped in it before the call. -/
structure Region where
  start : Nat
  size : Nat
  block : BlockSize
  space : AddressSpace

/-- The frame belonged to a page of the region that is not mapped any more. -/
def Region.Released (region : Region) (space : AddressSpace) (phys : Nat) : Prop :=
  ∃ page, region.start ≤ page * region.block.bytes ∧
    page * region.block.bytes < region.start + region.size ∧
    region.space region.block page = some phys ∧ space region.block page = none

/-- Whatever the cores cache in between, the effects free only frames of released pages, free none
while a core still caches a released page, and leave no translation of the range. -/
def Invalidates (self : Fin n) (region : Region) : Caches n → List Effect → Prop
  | caches, [] => ∀ reloaded, caches.Reloaded reloaded →
      reloaded.Empty region.start region.size
  | caches, effect :: effects => ∀ reloaded, caches.Reloaded reloaded →
      (∀ phys block, effect = .free phys block →
        region.Released reloaded.space phys ∧ reloaded.Coherent region.start region.size) ∧
      Invalidates self region (reloaded.apply self effect) effects

/-- The effects of unmapping pages: pages are cleared, frames of released pages are freed. -/
inductive Clearing (region : Region) : AddressSpace → List Effect → AddressSpace → Prop
  | done (space : AddressSpace) : Clearing region space [] space
  | unmapPage {space final : AddressSpace} {effects : List Effect} (virt : Nat) :
      Clearing region (space.set region.block (virt / region.block.bytes) none) effects final →
      Clearing region space (.unmapPage virt region.block :: effects) final
  | shootdown {space final : AddressSpace} {effects : List Effect} (addr size : Nat) :
      Clearing region space effects final →
      Clearing region space (.shootdown addr size :: effects) final
  | free {space final : AddressSpace} {effects : List Effect} {phys : Nat} :
      region.Released space phys → Clearing region space effects final →
      Clearing region space (.free phys region.block :: effects) final

namespace Clearing

variable {region : Region} {space middle final : AddressSpace}

theorem append {first second : List Effect} (left : Clearing region space first middle)
    (right : Clearing region middle second final) :
    Clearing region space (first ++ second) final := by
  induction left with
  | done space => exact right
  | unmapPage virt _ ih => exact .unmapPage virt (ih right)
  | shootdown addr size _ ih => exact .shootdown addr size (ih right)
  | free released _ ih => exact .free released (ih right)

/-- Freeing the frames of released pages. -/
theorem frees {frames : List Nat} (released : ∀ phys ∈ frames, region.Released space phys) :
    Clearing region space (frames.map (.free · region.block)) space := by
  induction frames with
  | nil => exact .done space
  | cons phys frames ih =>
      refine .free (released phys (by simp)) (ih fun other mem => released other (by simp [mem]))

end Clearing

section Coherence

variable {self : Fin n} {region : Region} {caches reloaded : Caches n}

theorem Caches.Coherent.reload {start size : Nat} (coherent : caches.Coherent start size)
    (reload : caches.Reloaded reloaded) : reloaded.Coherent start size := by
  intro core translation mem meets
  rw [reload.space_eq]
  rcases reload.cached core translation mem with old | mapped
  · exact coherent core translation old meets
  · exact mapped

theorem Caches.Reloaded.refl (caches : Caches n) : caches.Reloaded caches :=
  ⟨rfl, fun _ _ mem => .inl mem⟩

/-- Coherent caches hold no translation of a range without mapped pages. -/
theorem Caches.Coherent.empty {start size : Nat} (coherent : caches.Coherent start size)
    (vacant : ∀ translation : Translation, translation.Meets start size →
      caches.space translation.size translation.page = none) : caches.Empty start size := by
  intro core translation mem meets
  have mapped := coherent core translation mem meets
  rw [vacant translation meets] at mapped
  cases mapped

theorem Caches.Coherent.shootdown {start size : Nat} (coherent : caches.Coherent start size)
    (addr length : Nat) : (caches.apply self (.shootdown addr length)).Coherent start size :=
  fun core translation mem meets => coherent core translation mem.1 meets

/-- On the core that unmaps a page no translation of it survives. -/
theorem Caches.Coherent.unmapPage {start size : Nat} (coherent : caches.Coherent start size)
    (single : ∀ core, core = self) (virt : Nat) (block : BlockSize) :
    (caches.apply self (.unmapPage virt block)).Coherent start size := by
  intro core translation mem meets
  obtain rfl := single core
  simp only [Caches.apply, Caches.flushOn, Function.update_self] at mem
  obtain ⟨old, survives⟩ := mem
  change caches.space.set block (virt / block.bytes) none translation.size translation.page = _
  rw [AddressSpace.set, if_neg]
  · exact coherent core translation old meets
  · rintro ⟨rfl, page_eq⟩
    exact survives page_eq.symm

/-- Coherent caches stay coherent while pages are cleared on a single core or not at all, so the
region is invalidated when its last page is gone. -/
theorem Clearing.invalidates {space final : AddressSpace} {effects : List Effect}
    (clearing : Clearing region space effects final)
    (single : ∀ virt, .unmapPage virt region.block ∈ effects → ∀ core, core = self)
    (space_eq : caches.space = space) (coherent : caches.Coherent region.start region.size)
    (vacant : ∀ translation : Translation, translation.Meets region.start region.size →
      final translation.size translation.page = none) : Invalidates self region caches effects := by
  induction clearing generalizing caches with
  | done space =>
      intro reloaded reload
      refine (coherent.reload reload).empty fun translation meets => ?_
      rw [reload.space_eq, space_eq]
      exact vacant translation meets
  | unmapPage virt _ ih =>
      intro reloaded reload
      have flushed := (coherent.reload reload).unmapPage (single virt (by simp)) virt region.block
      refine ⟨fun _ _ other => (nomatch other), ih (fun virt mem => single virt (by simp [mem])) ?_
        flushed vacant⟩
      rw [Caches.apply, reload.space_eq, space_eq]
  | shootdown addr size _ ih =>
      intro reloaded reload
      exact ⟨fun _ _ other => (nomatch other), ih (fun virt mem => single virt (by simp [mem]))
        (reload.space_eq.trans space_eq) ((coherent.reload reload).shootdown addr size) vacant⟩
  | free released _ ih =>
      intro reloaded reload
      refine ⟨fun phys block same => ?_, ih (fun virt mem => single virt (by simp [mem]))
        (reload.space_eq.trans space_eq) (coherent.reload reload) vacant⟩
      cases same
      rw [reload.space_eq, space_eq]
      exact ⟨released, coherent.reload reload⟩

/-- A region with a single mapped page is invalidated on all cores by clearing the page and one
shootdown of its address. -/
theorem Clearing.invalidates_first {space final : AddressSpace} {effects : List Effect}
    {virt length : Nat} (clearing : Clearing region space
      (.unmapPage virt region.block :: .shootdown virt length :: effects) final)
    (quiet : ∀ other, .unmapPage other region.block ∉ effects)
    (space_eq : caches.space = space) (coherent : caches.Coherent region.start region.size)
    (only : ∀ translation : Translation, translation.Meets region.start region.size →
      space.set region.block (virt / region.block.bytes) none translation.size
        translation.page = none)
    (vacant : ∀ translation : Translation, translation.Meets region.start region.size →
      final translation.size translation.page = none) :
    Invalidates self region caches
      (.unmapPage virt region.block :: .shootdown virt length :: effects) := by
  cases clearing with
  | unmapPage _ rest => cases rest with
    | shootdown _ _ rest =>
        intro reloaded reload
        refine ⟨fun _ _ other => (nomatch other), fun again reload' =>
          ⟨fun _ _ other => (nomatch other), ?_⟩⟩
        have space_eq' : again.space = space.set region.block (virt / region.block.bytes) none := by
          rw [reload'.space_eq, Caches.apply, reload.space_eq, space_eq]
        refine rest.invalidates (fun other mem => absurd mem (quiet other)) space_eq' ?_ vacant
        -- What is still cached of the region covers the published address.
        rintro core translation ⟨cached, survives⟩ meets
        have gone := only translation meets
        refine absurd ?_ survives
        rcases reload'.cached core translation cached with old | mapped
        · have old_mem : translation ∈ reloaded.tlb core := by
            by_cases here : core = self
            · subst here
              simp only [Caches.apply, Caches.flushOn, Function.update_self] at old
              exact old.1
            · simpa only [Caches.apply, Caches.flushOn, Function.update_of_ne here] using old
          have was_mapped := coherent.reload reload core translation old_mem meets
          rw [reload.space_eq, space_eq] at was_mapped
          rw [AddressSpace.set] at gone
          split at gone
          next here =>
            obtain ⟨size_eq, page_eq⟩ := here
            rw [Translation.Covers, size_eq, page_eq]
          next =>
            rw [was_mapped] at gone
            cases gone
        · rw [← reload'.space_eq, space_eq', gone] at mapped
          cases mapped

/-- A translation that no shootdown covers stays in the cache of another core. -/
theorem not_invalidates {effects : List Effect} {other : Fin n} {translation : Translation}
    (ne : other ≠ self) (meets : translation.Meets region.start region.size)
    (uncovered : ∀ addr size, .shootdown addr size ∈ effects → ¬translation.Covers addr)
    (cached : translation ∈ caches.tlb other) : ¬Invalidates self region caches effects := by
  induction effects generalizing caches with
  | nil => exact fun holds => holds caches (.refl caches) other translation cached meets
  | cons effect effects ih =>
      intro holds
      refine ih (fun addr size mem => uncovered addr size (by simp [mem])) ?_
        (holds caches (.refl caches)).2
      have kept (addr : Nat) : translation ∈ (caches.flushOn self addr).tlb other := by
        simp only [Caches.flushOn, Function.update_of_ne ne]
        exact cached
      cases effect with
      | mapPage virt phys size => exact cached
      | unmapPage virt size => exact kept virt
      | changeFlags virt flags size => exact kept virt
      | flushTlb virt => exact kept virt
      | shootdown addr size => exact ⟨cached, uncovered addr size (by simp)⟩
      | free addr size => exact cached

end Coherence

end Tlb
end Vespertine
