import Mathlib.Algebra.BigOperators.Fin
import PranaOS.AK.Assertions
import PranaOS.ToMathlib.LinkedList
import PranaOS.ToMathlib.Run

/-!
# `Kernel/Heap/SlabAllocator.cpp`

The free list of a slab allocator is a stack without a lock. Any number of processors call `alloc` and
`dealloc` at the same time, and every load, store and compare-exchange is a step of its own.

`alloc` reads the successor of the head before it exchanges the head for it. The code argues that the
exchange fails if the successor is out of date. It does not fail if the same slab has been popped and
pushed back in the meantime.

The address of a slab is its index from `m_base`; all other integers are addresses elsewhere, which an
overwritten slab may well contain.
-/

namespace Kernel.SlabAllocator

open AK Transition LinkedList Multiset Function

/-- Where a processor is in `alloc` or `dealloc`. -/
inductive Call where
  /-- In neither of them. -/
  | outside
  /-- In `alloc`, at the head of the loop. -/
  | allocLoop (freeSlab : Option ℤ)
  /-- In `alloc`, before the compare-exchange. -/
  | allocExchange (freeSlab : ℤ) (nextFree : Option ℤ)
  /-- In `alloc`, before `m_num_allocated++`. -/
  | allocCount (freeSlab : ℤ)
  /-- In `alloc`, before the slab is scrubbed. -/
  | allocScrub (freeSlab : ℤ)
  /-- In `dealloc`, before `m_freelist` is loaded. -/
  | deallocLoad (freeSlab : ℤ)
  /-- In `dealloc`, before `next` is stored. -/
  | deallocStore (freeSlab : ℤ) (nextFree : Option ℤ)
  /-- In `dealloc`, before the compare-exchange. -/
  | deallocExchange (freeSlab : ℤ) (nextFree : Option ℤ)
  /-- In `dealloc`, before `m_num_allocated--`. -/
  | deallocCount
deriving DecidableEq

namespace Call

/-- The slab that a call of `alloc` has got and not yet returned. -/
def allocating : Call → Option ℤ
  | allocCount slab | allocScrub slab => some slab
  | _ => none

/-- The slab that a call of `dealloc` has been given and not yet put on the free list. -/
def deallocating : Call → Option ℤ
  | deallocLoad slab | deallocStore slab _ | deallocExchange slab _ => some slab
  | _ => none

/-- The slab that the call has to itself. -/
def slab (call : Call) : Option ℤ := call.allocating <|> call.deallocating

/-- The slab that the call has to itself, if there is one. -/
def held (call : Call) : Multiset ℤ := call.slab.toList

/-- What `m_num_allocated` counts on behalf of the call, in addition to the slabs that are owned. -/
def counted : Call → ℤ
  | allocScrub _ | deallocLoad _ | deallocStore _ _ | deallocExchange _ _ | deallocCount => 1
  | _ => 0

end Call

/-- A slab allocator and the processors that use it. -/
structure System (n : ℕ) where
  /-- `m_slab_count`. -/
  slabCount : ℕ
  /-- `m_freelist`. -/
  freelist : Option ℤ
  /-- What is in the memory where a free slab has `next`. -/
  next : ℤ → Option ℤ
  /-- `m_num_allocated`. -/
  numAllocated : ℤ
  /-- What `memset` leaves in the place of `next`. -/
  scrubbed : Option ℤ
  /-- The processors. -/
  calls : Fin n → Call
  /-- The slabs that `alloc` has returned and that have not been given to `dealloc`. -/
  owned : List ℤ

namespace System

variable {n : ℕ}

/-- The loop of `init`, that links every slab to the one before it. -/
def linkSlabs (next : ℤ → Option ℤ) : ℕ → ℤ → Option ℤ
  | 0 => next
  | 1 => next
  | i + 2 => Function.update (linkSlabs next (i + 1)) ((i + 1 : ℕ) : ℤ) (some (i : ℤ))

/-- `init`, in a memory with any contents. -/
def init (slabCount : ℕ) (next : ℤ → Option ℤ) (scrubbed : Option ℤ) :
    System n where
  slabCount := slabCount
  freelist := some ((slabCount : ℤ) - 1)
  next := Function.update (linkSlabs next slabCount) 0 none
  numAllocated := 0
  scrubbed := scrubbed
  calls := fun _ => .outside
  owned := []

variable (s : System n)

/-- The address is that of a slab. -/
def IsSlab (slab : ℤ) : Prop := 0 ≤ slab ∧ slab < s.slabCount

/-- A processor goes on. -/
def setCall (t : Fin n) (call : Call) : System n :=
  { s with calls := Function.update s.calls t call }

/-- What can happen next. -/
inductive Event (n : ℕ) where
  /-- A processor calls `alloc`, which loads `m_freelist`. -/
  | alloc (t : Fin n)
  /-- A processor calls `dealloc`. -/
  | dealloc (t : Fin n) (ptr : ℤ)
  /-- A processor takes its next step. -/
  | go (t : Fin n)
  /-- An owner overwrites its slab. -/
  | write (slab : ℤ) (value : Option ℤ)

/-- The next step of a processor. -/
def go (t : Fin n) : System n :=
  match s.calls t with
  | .outside => s
  | .allocLoop none => s.setCall t .outside -- `kmalloc`
  | .allocLoop (some freeSlab) => s.setCall t (.allocExchange freeSlab (s.next freeSlab))
  | .allocExchange freeSlab nextFree =>
    if s.freelist = some freeSlab then
      { s with freelist := nextFree }.setCall t (.allocCount freeSlab)
    else s.setCall t (.allocLoop s.freelist)
  | .allocCount freeSlab =>
    { s with numAllocated := s.numAllocated + 1 }.setCall t (.allocScrub freeSlab)
  | .allocScrub freeSlab =>
    { s with next := Function.update s.next freeSlab s.scrubbed,
             owned := freeSlab :: s.owned }.setCall t .outside
  | .deallocLoad freeSlab => s.setCall t (.deallocStore freeSlab s.freelist)
  | .deallocStore freeSlab nextFree =>
    { s with next := Function.update s.next freeSlab nextFree }.setCall t
      (.deallocExchange freeSlab nextFree)
  | .deallocExchange freeSlab nextFree =>
    if s.freelist = nextFree then
      { s with freelist := some freeSlab }.setCall t .deallocCount
    else s.setCall t (.deallocStore freeSlab s.freelist)
  | .deallocCount => { s with numAllocated := s.numAllocated - 1 }.setCall t .outside

/-- A processor calls `dealloc`, which gives an address outside of the slabs to `kfree`. -/
def dealloc (t : Fin n) (ptr : ℤ) : System n :=
  let s := { s with owned := s.owned.erase ptr }
  if 0 ≤ ptr ∧ ptr < s.slabCount then s.setCall t (.deallocLoad ptr) else s

/-- One step. A processor that is in a call makes no other call, and a slab is only given to `dealloc`
or overwritten by an owner. -/
def step : Event n → Option (System n)
  | .alloc t => some (if s.calls t = .outside then s.setCall t (.allocLoop s.freelist) else s)
  | .dealloc t ptr =>
    some (if s.calls t = .outside ∧ ptr ∈ s.owned then s.dealloc t ptr else s)
  | .go t => some (s.go t)
  | .write slab value =>
    some (if slab ∈ s.owned then { s with next := Function.update s.next slab value } else s)

/-! ## The property -/

/-- Nobody has the slab. -/
def IsFree (slab : ℤ) : Prop :=
  slab ∉ s.owned ∧ ∀ t, (s.calls t).slab ≠ some slab

/-- Every slab has at most one owner, counting the calls that have it. -/
structure Ownership (s : System n) : Prop where
  owned_nodup : s.owned.Nodup
  owned_slab : ∀ slab ∈ s.owned, s.IsSlab slab
  call_slab : ∀ t slab, (s.calls t).slab = some slab → s.IsSlab slab ∧ slab ∉ s.owned
  call_unique : ∀ t u slab, (s.calls t).slab = some slab → (s.calls u).slab = some slab → t = u

/-- The free list is as it should be: it ends, without a cycle, and has exactly the slabs that nobody
has. -/
def FreeListOk : Prop :=
  ∃ slabs, IsList s.next s.freelist slabs ∧ slabs.Nodup ∧
    ∀ slab, slab ∈ slabs ↔ s.IsSlab slab ∧ s.IsFree slab

/-- The property: exclusive ownership, the free list, and `m_num_allocated` when no call is going
on. -/
structure Exclusive (s : System n) : Prop where
  ownership : Ownership s
  freeList : FreeListOk s
  numAllocated : (∀ t, s.calls t = .outside) → s.numAllocated = s.owned.length

/-- The condition on a step: when `alloc` exchanges the head of the free list, the successor that it
has read is still the successor of the head. -/
def StepOk : Event n → Prop
  | .go t => ∀ freeSlab nextFree, s.calls t = .allocExchange freeSlab nextFree →
      s.freelist = some freeSlab → s.next freeSlab = nextFree
  | _ => True

/-! ## The invariant -/

/-- The slabs that somebody has. -/
def taken : Multiset ℤ := s.owned + ∑ t, (s.calls t).held

/-- The slabs of the list and those that somebody has are all the slabs, each of them once. -/
def Partition (free : List ℤ) : Prop :=
  free + s.taken = (Finset.Ico 0 (s.slabCount : ℤ)).val

/-- The invariant of the runs whose steps meet the condition. -/
structure Inv (s : System n) : Prop where
  list : ∃ free, IsList s.next s.freelist free ∧ s.Partition free
  stored : ∀ t slab nextFree, s.calls t = .deallocExchange slab nextFree → s.next slab = nextFree
  numAllocated : s.numAllocated = s.owned.length + ∑ t, (s.calls t).counted

variable {s : System n} {t : Fin n} {call : Call} {slab : ℤ} {free free' : List ℤ}

/-- A sum over all calls when one of them goes on. -/
theorem sum_setCall {M : Type} [AddCommMonoid M] (f : Call → M) (s : System n) (t : Fin n)
    (call : Call) : ∑ u, f ((s.setCall t call).calls u) + f (s.calls t) =
      ∑ u, f (s.calls u) + f call := by
  have hothers : ∑ u ∈ Finset.univ.erase t, f ((s.setCall t call).calls u) =
      ∑ u ∈ Finset.univ.erase t, f (s.calls u) := by
    refine Finset.sum_congr rfl fun u hu => ?_
    simp [setCall, Finset.ne_of_mem_erase hu]
  rw [← Finset.add_sum_erase _ _ (Finset.mem_univ t), hothers,
    ← Finset.add_sum_erase _ (fun u => f (s.calls u)) (Finset.mem_univ t)]
  simp only [setCall, update_self]
  abel

theorem mem_held : slab ∈ call.held ↔ call.slab = some slab := by
  simp [Call.held]

theorem mem_taken : slab ∈ s.taken ↔ slab ∈ s.owned ∨ ∃ t, (s.calls t).slab = some slab := by
  simp [taken, mem_sum, mem_held]

variable (h : s.Partition free)

include h

theorem Partition.nodup : (free + s.taken : Multiset ℤ).Nodup :=
  h ▸ Finset.nodup _

theorem Partition.isSlab_iff :
    s.IsSlab slab ↔ slab ∈ free ∨ slab ∈ s.taken := by
  rw [IsSlab, ← Finset.mem_Ico, ← Finset.mem_val, ← h, mem_add, mem_coe]

/-- The list has exactly the slabs that nobody has. -/
theorem Partition.mem_iff : slab ∈ free ↔ s.IsSlab slab ∧ s.IsFree slab := by
  have hfree : s.IsFree slab ↔ slab ∉ s.taken := by
    rw [mem_taken, not_or, not_exists]
    rfl
  have hdisjoint : slab ∈ free → slab ∉ s.taken := fun hmem =>
    disjoint_left.mp (nodup_add.mp h.nodup).2.2 (mem_coe.mpr hmem)
  rw [h.isSlab_iff, hfree]
  tauto

theorem Partition.ownership : Ownership s := by
  obtain ⟨-, htaken, -⟩ := nodup_add.mp h.nodup
  obtain ⟨howned, hcalls, hdisjoint⟩ := nodup_add.mp htaken
  refine ⟨howned, fun slab hslab => ?_, fun t slab ht => ⟨?_, fun hslab => ?_⟩,
    fun t u slab ht hu => ?_⟩
  · exact h.isSlab_iff.mpr (Or.inr (mem_taken.mpr (Or.inl hslab)))
  · exact h.isSlab_iff.mpr (Or.inr (mem_taken.mpr (Or.inr ⟨t, ht⟩)))
  · refine disjoint_left.mp hdisjoint hslab (mem_sum.mpr ?_)
    exact ⟨t, Finset.mem_univ t, mem_held.mpr ht⟩
  · -- Without the call of `t`, the slab would still be among those of the calls.
    by_contra hne
    have hsum := sum_setCall Call.held s t .outside
    rw [show Call.outside.held = 0 from rfl, add_zero] at hsum
    rw [← hsum] at hcalls
    refine disjoint_left.mp (nodup_add.mp hcalls).2.2 (mem_sum.mpr ?_)
      (mem_held.mpr ht)
    exact ⟨u, Finset.mem_univ u, mem_held.mpr (by simpa [setCall, Ne.symm hne] using hu)⟩

omit h

theorem exclusive_of_inv (hI : Inv s) : Exclusive s := by
  obtain ⟨free, hlist, hparts⟩ := hI.list
  refine ⟨hparts.ownership, ⟨free, hlist, hlist.nodup, fun _ => hparts.mem_iff⟩, fun h => ?_⟩
  rw [hI.numAllocated]
  simp [h, Call.counted]

/-! ## What a step does to the invariant -/

/-- A call goes on, and a slab may move between the list, the owners and the call. -/
theorem Partition.setCall (h : s.Partition free) (freelist : Option ℤ) (owned : List ℤ) (m : ℤ)
    (t : Fin n) (call : Call)
    (hmoved : (free' : Multiset ℤ) + owned + call.held = free + s.owned + (s.calls t).held) :
    ({ s with freelist := freelist, owned := owned, numAllocated := m }.setCall t call).Partition
      free' := by
  have hsum := sum_setCall Call.held s t call
  refine Eq.trans (add_right_cancel (b := (s.calls t).held) ?_) h
  calc (free' : Multiset ℤ) + (owned + ∑ u, ((s.setCall t call).calls u).held) + (s.calls t).held
      = free' + owned + (∑ u, ((s.setCall t call).calls u).held + (s.calls t).held) := by abel
    _ = free' + owned + call.held + ∑ u, (s.calls u).held := by rw [hsum]; abel
    _ = free + s.taken + (s.calls t).held := by rw [hmoved, taken]; abel

variable (hI : Inv s)

include hI

/-- A call goes on with the free list `free'` instead of `free`. -/
theorem inv_setCall (h : s.Partition free) {freelist : Option ℤ} {owned : List ℤ} {m : ℤ}
    (t : Fin n) (call : Call) (hlist : IsList s.next freelist free')
    (hmoved : (free' : Multiset ℤ) + owned + call.held = free + s.owned + (s.calls t).held)
    (hcounted : m - owned.length - call.counted =
      s.numAllocated - s.owned.length - (s.calls t).counted)
    (hstored : ∀ slab nextFree, call = .deallocExchange slab nextFree → s.next slab = nextFree) :
    Inv ({ s with freelist := freelist, owned := owned, numAllocated := m }.setCall t call) := by
  refine ⟨⟨free', hlist, h.setCall freelist owned m t call hmoved⟩, fun u slab nextFree hu => ?_, ?_⟩
  · by_cases hut : u = t
    · exact hstored slab nextFree (by simpa [setCall, hut] using hu)
    · exact hI.stored u slab nextFree (by simpa [setCall, hut] using hu)
  · have hsum := sum_setCall Call.counted s t call
    have hold := hI.numAllocated
    change m = owned.length + ∑ u, ((s.setCall t call).calls u).counted
    omega

/-- A call goes on with the same slab, and counts it in `m_num_allocated` if it has to. -/
theorem inv_move (m : ℤ) (t : Fin n) (call : Call) (hslab : call.slab = (s.calls t).slab)
    (hcounted : m - s.numAllocated = call.counted - (s.calls t).counted)
    (hstored : ∀ slab nextFree, call = .deallocExchange slab nextFree → s.next slab = nextFree) :
    Inv ({ s with numAllocated := m }.setCall t call) := by
  obtain ⟨free, hlist, hparts⟩ := hI.list
  exact inv_setCall hI hparts t call hlist (by rw [Call.held, hslab, Call.held]) (by omega) hstored

/-- Whoever has a slab may overwrite it, unless it has just stored `next`. -/
theorem inv_write (hnot : ¬ s.IsFree slab)
    (hstored : ∀ t nextFree, s.calls t ≠ .deallocExchange slab nextFree) (value : Option ℤ) :
    Inv { s with next := Function.update s.next slab value } := by
  obtain ⟨free, hlist, hparts⟩ := hI.list
  refine ⟨⟨free, hlist.congr fun slab' hslab' => ?_, hparts⟩, ?_, hI.numAllocated⟩
  · apply update_of_ne
    rintro rfl
    exact hnot (hparts.mem_iff.mp hslab').2
  · intro t slab' nextFree ht
    have hne : slab' ≠ slab := by
      rintro rfl
      exact hstored t nextFree ht
    simp only [update_of_ne hne]
    exact hI.stored t slab' nextFree ht

/-- No other call of `dealloc` has the slab of a call. -/
theorem ne_deallocExchange (hslab : (s.calls t).slab = some slab)
    (hself : ∀ nextFree, s.calls t ≠ .deallocExchange slab nextFree) (u : Fin n)
    (nextFree : Option ℤ) : s.calls u ≠ .deallocExchange slab nextFree := by
  intro hu
  have hut : u = t := (exclusive_of_inv hI).ownership.call_unique u t slab (by rw [hu]; rfl) hslab
  subst hut
  exact hself nextFree hu

/-- `alloc` returns its slab to the caller. -/
theorem inv_handOut (h : s.calls t = .allocScrub slab) :
    Inv ({ s with owned := slab :: s.owned }.setCall t .outside) := by
  obtain ⟨free, hlist, hparts⟩ := hI.list
  refine inv_setCall hI hparts t .outside hlist ?_ ?_ (by simp)
  · rw [h, ← cons_coe, ← singleton_add]
    change (free : Multiset ℤ) + ({slab} + s.owned) + 0 = free + s.owned + {slab}
    abel
  · simp only [h, Call.counted, List.length_cons]
    omega

/-- A caller gives its slab to `dealloc`. -/
theorem inv_dealloc (h : s.calls t = .outside) (hmem : slab ∈ s.owned) :
    Inv (s.dealloc t slab) := by
  have hslab := (exclusive_of_inv hI).ownership.owned_slab slab hmem
  obtain ⟨free, hlist, hparts⟩ := hI.list
  simp only [dealloc]
  rw [if_pos (show 0 ≤ slab ∧ slab < (s.slabCount : ℤ) from hslab)]
  refine inv_setCall hI hparts t (.deallocLoad slab) hlist ?_ ?_ (by simp)
  · rw [h, coe_eq_coe.mpr (List.perm_cons_erase hmem), ← cons_coe, ← singleton_add]
    abel
  · have hlength := List.length_erase_of_mem hmem
    have hpos := List.length_pos_of_mem hmem
    simp only [h, Call.counted]
    omega

omit hI

/-- `dealloc` exchanges the head of the free list for its slab. -/
theorem inv_push {nextFree : Option ℤ} (hI : Inv s)
    (h : s.calls t = .deallocExchange slab nextFree) (hhead : s.freelist = nextFree) :
    Inv ({ s with freelist := some slab }.setCall t .deallocCount) := by
  obtain ⟨free, hlist, hparts⟩ := hI.list
  have hnext := hI.stored t slab nextFree h
  rw [hhead, ← hnext] at hlist
  have hpushed : IsList s.next (some slab) (slab :: free) := ⟨rfl, hlist⟩
  refine inv_setCall hI hparts t .deallocCount hpushed ?_ ?_ (by simp)
  · rw [h, ← cons_coe, ← singleton_add]
    change {slab} + (free : Multiset ℤ) + s.owned + 0 = free + s.owned + {slab}
    abel
  · simp [h, Call.counted]

/-- `alloc` exchanges the head of the free list for the successor that it has read. This is right
exactly if the successor is still the successor of the head. -/
theorem pop_spec {nextFree : Option ℤ} (hI : Inv s)
    (h : s.calls t = .allocExchange slab nextFree) (hhead : s.freelist = some slab) :
    (Exclusive ({ s with freelist := nextFree }.setCall t (.allocCount slab)) ↔
        s.next slab = nextFree) ∧
      (s.next slab = nextFree →
        Inv ({ s with freelist := nextFree }.setCall t (.allocCount slab))) := by
  obtain ⟨free, hlist, hparts⟩ := hI.list
  rw [hhead] at hlist
  obtain ⟨rest, rfl, hrest⟩ := hlist.exists_cons
  have hmoved : (rest : Multiset ℤ) + s.owned + (Call.allocCount slab).held =
      ((slab :: rest : List ℤ) : Multiset ℤ) + s.owned + (s.calls t).held := by
    rw [h, ← cons_coe, ← singleton_add]
    abel
  have hinv : s.next slab = nextFree →
      Inv ({ s with freelist := nextFree }.setCall t (.allocCount slab)) := by
    rintro rfl
    exact inv_setCall hI hparts t (.allocCount slab) hrest hmoved (by simp [h, Call.counted]) (by simp)
  refine ⟨⟨fun hexclusive => ?_, fun heq => exclusive_of_inv (hinv heq)⟩, hinv⟩
  -- What should be on the free list now is what has been behind its head.
  have hparts' := hparts.setCall nextFree s.owned s.numAllocated t (.allocCount slab) hmoved
  obtain ⟨slabs, hlist', -, hmem⟩ := hexclusive.freeList
  exact hrest.head_eq hlist' fun slab' => hparts'.mem_iff.trans (hmem slab').symm

/-- The next step of a processor keeps the invariant if it meets the condition, and breaks the
property if it does not. -/
theorem go_spec (hI : Inv s) (t : Fin n) :
    (Exclusive (s.go t) ↔ StepOk s (.go t)) ∧ (StepOk s (.go t) → Inv (s.go t)) := by
  have hsafe : (∀ freeSlab nextFree, s.calls t ≠ .allocExchange freeSlab nextFree) → Inv (s.go t) →
      (Exclusive (s.go t) ↔ StepOk s (.go t)) ∧ (StepOk s (.go t) → Inv (s.go t)) := by
    intro hne hI'
    exact ⟨iff_of_true (exclusive_of_inv hI') fun freeSlab nextFree h => absurd h (hne _ _),
      fun _ => hI'⟩
  have hslab : ∀ call, s.calls t = call → (s.calls t).slab = call.slab := fun _ h => by rw [h]
  -- The steps that only move the processor on.
  have hmove : ∀ call, call.slab = (s.calls t).slab → call.counted = (s.calls t).counted →
      (∀ slab nextFree, call ≠ .deallocExchange slab nextFree) → Inv (s.setCall t call) :=
    fun call h h' h'' => inv_move hI s.numAllocated t call h (by omega)
      fun slab nextFree heq => absurd heq (h'' slab nextFree)
  cases h : s.calls t with
  | outside =>
    apply hsafe (by simp [h])
    simp only [go, h]
    exact hI
  | allocLoop freeSlab =>
    apply hsafe (by simp [h])
    cases freeSlab with
    | none | some _ =>
      simp only [go, h]
      exact hmove _ (by rw [h]; rfl) (by rw [h]; rfl) (by simp)
  | allocExchange freeSlab nextFree =>
    simp only [StepOk, go, h, Call.allocExchange.injEq, and_imp]
    split
    next hhead =>
      obtain ⟨hiff, hinv⟩ := pop_spec hI h hhead
      have hok : (∀ freeSlab' nextFree', freeSlab = freeSlab' → nextFree = nextFree' →
          s.freelist = some freeSlab' → s.next freeSlab' = nextFree') ↔
            s.next freeSlab = nextFree :=
        ⟨fun hall => hall _ _ rfl rfl hhead, by rintro heq _ _ rfl rfl -; exact heq⟩
      rw [hok]
      exact ⟨hiff, hinv⟩
    next hhead =>
      have hinv := hmove (.allocLoop s.freelist) (by rw [h]; rfl) (by rw [h]; rfl) (by simp)
      refine ⟨iff_of_true (exclusive_of_inv hinv) ?_, fun _ => hinv⟩
      rintro _ _ rfl rfl hhead'
      exact absurd hhead' hhead
  | allocCount freeSlab =>
    apply hsafe (by simp [h])
    simp only [go, h]
    exact inv_move hI _ t _ (by rw [h]; rfl) (by simp [h, Call.counted]) (by simp)
  | allocScrub freeSlab =>
    apply hsafe (by simp [h])
    simp only [go, h]
    have hwrite := inv_write hI (fun hfree => hfree.2 t (hslab _ h))
      (ne_deallocExchange hI (hslab _ h) (by simp [h])) s.scrubbed
    exact inv_handOut hwrite h
  | deallocLoad freeSlab =>
    apply hsafe (by simp [h])
    simp only [go, h]
    exact hmove _ (by rw [h]; rfl) (by rw [h]; rfl) (by simp)
  | deallocStore freeSlab nextFree =>
    apply hsafe (by simp [h])
    simp only [go, h]
    have hwrite := inv_write hI (fun hfree => hfree.2 t (hslab _ h))
      (ne_deallocExchange hI (hslab _ h) (by simp [h])) nextFree
    refine inv_move hwrite s.numAllocated t _ (by simp only [h]; rfl)
      (by simp [h, Call.counted]) ?_
    rintro slab nextFree' heq
    obtain ⟨rfl, rfl⟩ := Call.deallocExchange.inj heq
    simp
  | deallocExchange freeSlab nextFree =>
    apply hsafe (by simp [h])
    simp only [go, h]
    split
    next hhead => exact inv_push hI h hhead
    next => exact hmove _ (by rw [h]; rfl) (by rw [h]; rfl) (by simp)
  | deallocCount =>
    apply hsafe (by simp [h])
    simp only [go, h]
    exact inv_move hI _ t _ (by rw [h]; rfl) (by simp [h, Call.counted]) (by simp)

/-- Every step keeps the invariant if it meets the condition, and breaks the property if it does
not. -/
theorem step_spec (hI : Inv s) (event : Event n) :
    ∃ s', s.step event = some s' ∧ (Exclusive s' ↔ StepOk s event) ∧ (StepOk s event → Inv s') := by
  have hsafe : ∀ {s' : System n} {ok : Prop}, ok → Inv s' → (Exclusive s' ↔ ok) ∧ (ok → Inv s') :=
    fun hok hI' => ⟨iff_of_true (exclusive_of_inv hI') hok, fun _ => hI'⟩
  cases event with
  | alloc t =>
    refine ⟨_, rfl, hsafe trivial ?_⟩
    split
    next h =>
      exact inv_move hI s.numAllocated t _ (by rw [h]; rfl) (by simp [h, Call.counted]) (by simp)
    next => exact hI
  | dealloc t ptr =>
    refine ⟨_, rfl, hsafe trivial ?_⟩
    split
    next h => exact inv_dealloc hI h.1 h.2
    next => exact hI
  | write slab value =>
    refine ⟨_, rfl, hsafe trivial ?_⟩
    split
    next h =>
      refine inv_write hI (fun hfree => hfree.1 h) (fun t nextFree ht => ?_) value
      have hslab : (s.calls t).slab = some slab := by
        rw [ht]
        rfl
      exact ((exclusive_of_inv hI).ownership.call_slab t slab hslab).2 h
    next => exact hI
  | go t => exact ⟨_, rfl, go_spec hI t⟩

/-! ## Whole runs -/

variable (next : ℤ → Option ℤ)

/-- The loop of `init` links every slab but the first to the one before it. -/
theorem linkSlabs_apply {slabCount i : ℕ} (h : i + 1 < slabCount) :
    linkSlabs next slabCount ((i + 1 : ℕ) : ℤ) = some (i : ℤ) := by
  induction slabCount with
  | zero => omega
  | succ k ih =>
    obtain ⟨j, rfl⟩ : ∃ j, k = j + 1 := ⟨k - 1, by omega⟩
    rw [linkSlabs]
    by_cases hij : i = j
    · subst hij
      simp
    · have hne : ((i + 1 : ℕ) : ℤ) ≠ ((j + 1 : ℕ) : ℤ) := by omega
      rw [update_of_ne hne]
      exact ih (by omega)

/-- From a slab, `init` lets one reach this slab and all the slabs below it. -/
theorem exists_isList_init {slabCount i : ℕ} (h : i < slabCount) :
    ∃ slabs, IsList (Function.update (linkSlabs next slabCount) 0 none) (some (i : ℤ)) slabs ∧
      ∀ slab, slab ∈ slabs ↔ 0 ≤ slab ∧ slab ≤ i := by
  induction i with
  | zero =>
    refine ⟨[0], by simp, fun slab => ?_⟩
    rw [List.mem_singleton]
    omega
  | succ i ih =>
    obtain ⟨slabs, hlist, hmem⟩ := ih (by omega)
    refine ⟨((i + 1 : ℕ) : ℤ) :: slabs, ⟨rfl, ?_⟩, fun slab => ?_⟩
    · rw [update_of_ne (by omega), linkSlabs_apply next h]
      exact hlist
    · rw [List.mem_cons, hmem]
      omega

theorem inv_init {slabCount : ℕ} (h : 0 < slabCount) (next : ℤ → Option ℤ)
    (scrubbed : Option ℤ) : Inv (init slabCount next scrubbed : System n) where
  list := by
    obtain ⟨slabs, hlist, hmem⟩ := exists_isList_init next (Nat.sub_lt h one_pos)
    have hcast : ((slabCount - 1 : ℕ) : ℤ) = slabCount - 1 := by omega
    rw [hcast] at hlist
    refine ⟨slabs, hlist, ?_⟩
    have htaken : (init slabCount next scrubbed : System n).taken = 0 := by
      simp [taken, init, Call.held, Call.slab, Call.allocating, Call.deallocating]
    rw [Partition, htaken, add_zero]
    refine (Multiset.Nodup.ext (coe_nodup.mpr hlist.nodup) (Finset.nodup _)).mpr fun slab => ?_
    rw [mem_coe, hmem, hcast, Finset.mem_val, Finset.mem_Ico]
    change _ ↔ 0 ≤ slab ∧ slab < (slabCount : ℤ)
    omega
  stored t slab nextFree ht := by simp [init] at ht
  numAllocated := by simp [init, Call.counted]

/-- Without a slab, `init` lets `m_freelist` point in front of the slabs. -/
theorem not_exclusive_init (scrubbed : Option ℤ) :
    ¬ Exclusive (init 0 next scrubbed : System n) := by
  intro h
  obtain ⟨slabs, hlist, -, hmem⟩ := h.freeList
  have hhead : (init 0 next scrubbed : System n).freelist = some (0 - 1) := rfl
  obtain ⟨rest, rfl, -⟩ := hlist.exists_cons
  obtain ⟨⟨hpos, -⟩, -⟩ := (hmem _).mp List.mem_cons_self
  omega

/-- **Exclusivity of the slab allocator.** In a run of any number of processors the property holds in
every state if and only if there is a slab and all steps meet the condition. -/
theorem exclusive_iff_meets (slabCount : ℕ) (next : ℤ → Option ℤ)
    (scrubbed : Option ℤ) (events : List (Event n)) :
    Safe step Exclusive (init slabCount next scrubbed : System n) events ↔
      0 < slabCount ∧ Meets step StepOk (init slabCount next scrubbed : System n) events := by
  rcases Nat.eq_zero_or_pos slabCount with rfl | hpos
  · simp only [Nat.lt_irrefl, false_and, iff_false]
    intro hsafe
    exact not_exclusive_init next scrubbed (hsafe.2 [] List.nil_prefix _ run_nil)
  · simp only [hpos, true_and]
    exact safe_iff_meets (fun _ => exclusive_of_inv) (fun _ event hI => step_spec hI event)
      (inv_init hpos next scrubbed)

/-- Processor 0 reads that slab 1 is behind slab 2, the head. Processor 1 allocates both and frees slab
2 again. The exchange of processor 0 succeeds, slab 1 becomes the head although processor 1 owns it,
and the next call gets it a second time. -/
theorem slab_allocated_twice :
    ∃ s', run step (init 3 (fun _ => none) none : System 2)
      [.alloc 0, .go 0,
        .alloc 1, .go 1, .go 1, .go 1, .go 1,
        .alloc 1, .go 1, .go 1, .go 1, .go 1,
        .dealloc 1 2, .go 1, .go 1, .go 1, .go 1,
        .go 0, .go 0, .go 0,
        .alloc 0, .go 0, .go 0, .go 0, .go 0] = some s' ∧
      s'.owned = [1, 2, 1] :=
  ⟨_, rfl, rfl⟩

end System

end Kernel.SlabAllocator
