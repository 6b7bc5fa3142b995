import PranaOS.AK.BitmapView.FindOne
import PranaOS.AK.BitmapView.FindRange
import PranaOS.Kernel.VM.Range
import PranaOS.ToMathlib.List

/-!
# `Kernel/VM/PhysicalRegion`

A region of physical pages with a bitmap of the pages that are not free. Pages that are returned go
to a queue first: their bits stay set until the queue is full and one of them is freed, or until
they are handed out again.

The bytes of the bitmap are a part of the state. Random numbers are arguments.

## Main results

* `findOneFreePage_cases`, `takeContiguousFreePages_cases`, `returnPage_cases`: everything that the
  functions can do to a region.
-/

namespace Kernel

open AK
open scoped List

/-- `class PhysicalRegion`. -/
structure PhysicalRegion where
  lower : ℕ
  upper : ℕ
  pages : ℕ
  used : ℕ
  bitmap : BitmapView
  memory : Memory
  freeHint : ℕ
  recentlyReturned : List ℕ

namespace PhysicalRegion

/-- `create`. -/
def create (lower upper : ℕ) : PhysicalRegion where
  lower := lower
  upper := upper
  pages := 0
  used := 0
  bitmap := ⟨0, 0⟩
  memory := fun _ => 0
  freeHint := 0
  recentlyReturned := []

variable (self : PhysicalRegion)

/-- `expand`. -/
def expand (lower upper : ℕ) : Option PhysicalRegion := do
  verify (self.pages = 0)
  return { self with lower, upper }

/-- `finalize_capacity`, with `Bitmap::grow` of a bitmap that has no bytes yet. `data` is the
address that `kmalloc` returns for them. -/
def finalizeCapacity (data : ℕ) : Option PhysicalRegion := do
  verify (self.pages = 0)
  let pages := sub32 self.upper self.lower / pageSize
  verify (pages > self.bitmap.size)
  let bitmap : BitmapView := ⟨data, pages⟩
  return { self with pages, bitmap, memory := bitmap.fill self.memory false }

/-- `free`. -/
def free : ℕ :=
  (sub32 self.pages self.used + self.recentlyReturned.length) % 2 ^ 32

/-- `contains`, which includes the upper bound. -/
def contains (page : ℕ) : Bool :=
  decide (page ≥ self.lower) && decide (page ≤ self.upper)

/-- The hint for the next search: `next`, which is just a guess, or the beginning. -/
def nextFreeHint (next : ℕ) : ℕ :=
  if next ≥ self.bitmap.size then 0 else next

/-- The offset of a page in the region in `Checked` arithmetic, checked against the size. -/
def pageIndexOf (page : ℕ) : Option ℕ := do
  verify (self.lower ≤ page)
  verify (page - self.lower < self.pages * pageSize % 2 ^ 32)
  return (page - self.lower) / pageSize

/-- `find_one_free_page`. -/
def findOneFreePage (random : UInt8) :
    Option (Option ℕ × PhysicalRegion) := do
  if self.used = self.pages then
    -- No page is free in the bitmap; one may be drawn from the return queue.
    if self.recentlyReturned.length > 0 then
      let index := random.toNat % self.recentlyReturned.length
      let page ← self.recentlyReturned[index]?
      let pageIndex ← self.pageIndexOf page
      return (some pageIndex,
        { self with recentlyReturned := self.recentlyReturned.eraseIdx index })
    else return (none, self)
  else
    match ← self.bitmap.findOneAnywhere false self.memory self.freeHint with
    | none => return (none, self)
    | some pageIndex =>
      let memory ← self.bitmap.set self.memory pageIndex true
      return (some pageIndex,
        { self with memory, used := self.used + 1, freeHint := self.nextFreeHint (pageIndex + 1) })

/-- `take_free_page`: the address of the page. -/
def takeFreePage (random : UInt8) : Option (Option ℕ × PhysicalRegion) := do
  verify (self.pages ≠ 0)
  let (freeIndex, self) ← self.findOneFreePage random
  return (freeIndex.map fun index => (self.lower + index * pageSize) % 2 ^ 32, self)

/-- The page index `page` rounded up such that the page number is a multiple of `alignment`. -/
def alignPage (page alignment : ℕ) : ℕ :=
  if alignment ≠ 1 then
    let lowerPage := self.lower / pageSize
    sub32 (sub32 (lowerPage + page + alignment) 1 &&& not32 (sub32 alignment 1)) lowerPage
  else page

/-- `find_and_allocate_contiguous_range`. -/
def findAndAllocateContiguousRange (count alignment : ℕ) :
    Option (Option ℕ × PhysicalRegion) := do
  verify (count ≠ 0)
  let (firstIndex, foundPagesCount) ←
    self.bitmap.findLongestRangeOfUnsetBits self.memory (sub32 (count + alignment) 1)
  match firstIndex with
  | none => return (none, self)
  | some firstIndex =>
    let page := self.alignPage firstIndex alignment
    if foundPagesCount ≥ count then
      let memory ← self.bitmap.setRange true false self.memory page count
      return (some page, { self with
        memory
        used := (self.used + count) % 2 ^ 32
        freeHint := self.nextFreeHint (firstIndex + count + 1) })
    else return (none, self)

/-- `find_contiguous_free_pages`. -/
def findContiguousFreePages (count physicalAlignment : ℕ) :
    Option (ℕ × PhysicalRegion) := do
  verify (count ≠ 0)
  verify (physicalAlignment % pageSize = 0)
  let (range, self) ← self.findAndAllocateContiguousRange count (physicalAlignment / pageSize)
  let page ← range
  return (page, self)

/-- `take_contiguous_free_pages`: the addresses of the pages. -/
def takeContiguousFreePages (count physicalAlignment : ℕ) :
    Option (List ℕ × PhysicalRegion) := do
  verify (self.pages ≠ 0)
  verify (self.used ≠ self.pages)
  let (first, self) ← self.findContiguousFreePages count physicalAlignment
  return ((List.range count).map fun index =>
    (self.lower + pageSize * (index + first)) % 2 ^ 32, self)

/-- `free_page_at`. -/
def freePageAt (page : ℕ) : Option PhysicalRegion := do
  verify (self.pages ≠ 0)
  verify (self.used ≠ 0)
  let pageIndex ← self.pageIndexOf page
  let memory ← self.bitmap.set self.memory pageIndex false
  return { self with memory, freeHint := pageIndex, used := self.used - 1 }

/-- The inline capacity of `m_recently_returned`, which never grows. -/
def returnQueueCapacity : ℕ := 256

/-- `return_page`. -/
def returnPage (page : ℕ) (random : UInt8) : Option PhysicalRegion := do
  if self.recentlyReturned.length ≥ returnQueueCapacity then
    -- The queue is full: a random entry is freed and replaced.
    let entry ← self.recentlyReturned[random.toNat]?
    let self ← self.freePageAt entry
    return { self with recentlyReturned := self.recentlyReturned.set random.toNat page }
  else
    return { self with recentlyReturned := self.recentlyReturned ++ [page] }

/-! ## The pages of a region -/

/-- The address of the page with an index. -/
def address (index : ℕ) : ℕ := self.lower + index * pageSize

/-- `taken` are the pages that are handed out: the set bits of the bitmap are those of the pages in
`taken` and in the return queue, each of them once. -/
structure Tracks (region : PhysicalRegion) (taken : List ℕ) : Prop where
  size_eq : region.bitmap.size = region.pages
  pages_pos : 0 < region.pages
  aligned : pageSize ∣ region.lower
  end_lt : region.lower + region.pages * pageSize < 2 ^ 32
  hint_lt : region.freeHint < region.pages
  used_eq : region.used = (region.bitmap.setBits region.memory).card
  pages_eq : (region.bitmap.setBits region.memory).val.map region.address =
    ((taken ++ region.recentlyReturned : List ℕ) : Multiset ℕ)

/-- The bounds of a region and its bitmap, which never change once its capacity is final. -/
structure SameShape (region region' : PhysicalRegion) : Prop where
  lower_eq : region'.lower = region.lower
  upper_eq : region'.upper = region.upper
  pages_eq : region'.pages = region.pages
  bitmap_eq : region'.bitmap = region.bitmap

variable {self self' : PhysicalRegion} {taken : List ℕ} {page : ℕ} {random : UInt8}

theorem Tracks.nextFreeHint_lt (h : self.Tracks taken) (next : ℕ) :
    self.nextFreeHint next < self.pages := by
  unfold nextFreeHint
  split
  next => exact h.pages_pos
  next hlt => exact h.size_eq ▸ not_le.mp hlt

theorem address_injective : Function.Injective self.address := by
  intro i j h
  unfold address pageSize at h
  omega

/-- A page that is handed out or in the queue is the page of a set bit. -/
theorem Tracks.exists_index (h : self.Tracks taken) (hpage : page ∈ taken ++ self.recentlyReturned) :
    ∃ i ∈ self.bitmap.setBits self.memory, i < self.pages ∧ self.address i = page := by
  rw [← Multiset.mem_coe, ← h.pages_eq, Multiset.mem_map] at hpage
  obtain ⟨i, hi, haddress⟩ := hpage
  exact ⟨i, hi, h.size_eq ▸ (BitmapView.mem_setBits.mp hi).1, haddress⟩

/-- The set bits are as many as the pages handed out or in the queue. -/
theorem Tracks.card_eq (h : self.Tracks taken) : (self.bitmap.setBits self.memory).card =
    taken.length + self.recentlyReturned.length := by
  have hcard := congrArg Multiset.card h.pages_eq
  rwa [Multiset.card_map, Multiset.coe_card, List.length_append, Finset.card_val] at hcard

theorem Tracks.used_le (h : self.Tracks taken) : self.used ≤ self.pages := by
  have hcard := Finset.card_filter_le (Finset.range self.bitmap.size)
    fun i => self.bitmap.bit self.memory i = true
  rw [Finset.card_range, h.size_eq] at hcard
  rw [h.used_eq, BitmapView.setBits, h.size_eq]
  exact hcard

variable {i count alignment k : ℕ} {pages : List ℕ}

theorem address_add_le (hi : i < self.pages) :
    self.address i + pageSize ≤ self.lower + self.pages * pageSize := by
  unfold address pageSize
  omega

theorem Tracks.pageIndexOf_address (h : self.Tracks taken) (hi : i < self.pages) :
    self.pageIndexOf (self.address i) = some i := by
  have := h.end_lt
  unfold pageIndexOf address pageSize at *
  rw [Nat.add_sub_cancel_left, Nat.mod_eq_of_lt (by omega)]
  simp [show i * 4096 < self.pages * 4096 by omega]

theorem Tracks.mod_address (h : self.Tracks taken) (hi : i < self.pages) :
    (self.lower + i * pageSize) % 2 ^ 32 = self.address i := by
  have hend := h.end_lt
  have hlt := address_add_le hi
  exact Nat.mod_eq_of_lt (by unfold address at hlt; omega)

/-- A region whose capacity has just been finalized has no page handed out. -/
theorem tracks_finalizeCapacity {lower upper data : ℕ} {region : PhysicalRegion}
    (hlower : pageSize ∣ lower) (hle : lower ≤ upper) (hupper : upper < 2 ^ 32)
    (h : (create lower upper).finalizeCapacity data = some region) : region.Tracks [] := by
  have hsize : sub32 upper lower = upper - lower := by
    unfold sub32
    omega
  simp only [finalizeCapacity, create, verify_bind_eq_some, hsize] at h
  obtain ⟨-, hpos, ⟨⟩⟩ := h
  have hmul := Nat.div_mul_le_self (upper - lower) pageSize
  exact ⟨rfl, hpos, hlower, by simp only; omega, hpos,
    by simp [BitmapView.setBits_fill_false], by simp [BitmapView.setBits_fill_false]⟩

/-! ## Single pages -/

/-- Everything that `find_one_free_page` can do: find nothing, draw a page from the return queue, or
take a page whose bit is not set. -/
theorem findOneFreePage_cases {result : Option ℕ}
    (h : self.findOneFreePage random = some (result, self')) :
    (result = none ∧ self' = self ∧ (self.used = self.pages ∧ self.recentlyReturned = [] ∨
        self.used ≠ self.pages ∧
          self.bitmap.findOneAnywhere false self.memory self.freeHint = some none)) ∨
      (∃ index page i, self.used = self.pages ∧ self.recentlyReturned[index]? = some page ∧
        self.pageIndexOf page = some i ∧ result = some i ∧
        self' = { self with recentlyReturned := self.recentlyReturned.eraseIdx index }) ∨
      ∃ i memory, self.used ≠ self.pages ∧
        self.bitmap.findOneAnywhere false self.memory self.freeHint = some (some i) ∧
        self.bitmap.set self.memory i true = some memory ∧ result = some i ∧
        self' = { self with memory, used := self.used + 1, freeHint := self.nextFreeHint (i + 1) } := by
  unfold findOneFreePage at h
  split at h
  next hfull =>
    split at h
    next hlen =>
      simp only [Option.bind_eq_bind, Option.bind_eq_some_iff] at h
      obtain ⟨page, hpage, i, hi, ⟨⟩⟩ := h
      exact .inr (.inl ⟨_, page, i, hfull, hpage, hi, rfl, rfl⟩)
    next hlen =>
      cases h
      exact .inl ⟨rfl, rfl, .inl ⟨hfull, by simpa using hlen⟩⟩
  next hfull =>
    simp only [Option.bind_eq_bind, Option.bind_eq_some_iff] at h
    obtain ⟨found, hfound, h⟩ := h
    cases found with
    | none =>
      cases h
      exact .inl ⟨rfl, rfl, .inr ⟨hfull, hfound⟩⟩
    | some i =>
      simp only [Option.bind_eq_some_iff] at h
      obtain ⟨memory, hset, ⟨⟩⟩ := h
      exact .inr (.inr ⟨i, memory, hfull, hfound, hset, rfl, rfl⟩)

variable (h : self.Tracks taken)

include h

/-- A page that is taken was free or in the queue, and is handed out now. -/
theorem Tracks.takeFreePage {result : Option ℕ}
    (htake : self.takeFreePage random = some (result, self')) :
    self'.Tracks (result.toList ++ taken) ∧ self.SameShape self' := by
  simp only [PhysicalRegion.takeFreePage, verify_optionBind_eq_some, Option.bind_eq_bind] at htake
  obtain ⟨-, htake⟩ := htake
  obtain ⟨⟨found, region⟩, hfind, htake⟩ := Option.bind_eq_some_iff.mp htake
  cases htake
  rcases findOneFreePage_cases hfind with ⟨rfl, rfl, -⟩ | ⟨index, page, i, -, hpage, hi, rfl, rfl⟩ |
    ⟨i, memory, -, hfound, hset, rfl, rfl⟩
  · exact ⟨h, rfl, rfl, rfl, rfl⟩
  · -- The page moves from the queue to the pages that are handed out.
    obtain ⟨j, -, hj, rfl⟩ :=
      h.exists_index (List.mem_append_right taken (List.mem_of_getElem? hpage))
    rw [h.pageIndexOf_address hj, Option.some.injEq] at hi
    subst hi
    refine ⟨⟨h.size_eq, h.pages_pos, h.aligned, h.end_lt, h.hint_lt, h.used_eq, ?_⟩, rfl, rfl, rfl,
      rfl⟩
    have hperm : (self.address j :: (taken ++ self.recentlyReturned.eraseIdx index)).Perm
        (taken ++ self.recentlyReturned) :=
      List.perm_middle.symm.trans ((List.cons_eraseIdx_perm hpage).append_left taken)
    simp only [Option.map_some, Option.toList_some, h.mod_address hj, List.nil_append,
      List.cons_append]
    rw [Multiset.coe_eq_coe.mpr hperm]
    exact h.pages_eq
  · -- The bit of a free page is set.
    have hbit := BitmapView.findOneAnywhere_sound hfound
    obtain ⟨hlt, hwrites⟩ := BitmapView.set_writes hset
    have hbits : self.bitmap.setBits memory = insert i (self.bitmap.setBits self.memory) := by
      rw [BitmapView.Writes.setBits_true (s := {i}) (by simpa using hwrites) (by simpa using hlt),
        Finset.union_comm, Finset.singleton_union]
    have hnew : i ∉ self.bitmap.setBits self.memory := by
      simp [hbit]
    refine ⟨⟨h.size_eq, h.pages_pos, h.aligned, h.end_lt, h.nextFreeHint_lt _, ?_, ?_⟩, rfl, rfl, rfl,
      rfl⟩
    · simp only
      rw [hbits, Finset.card_insert_of_notMem hnew, h.used_eq]
    · rw [h.size_eq] at hlt
      simp only [Option.map_some, Option.toList_some, h.mod_address hlt, List.nil_append,
        List.cons_append]
      rw [hbits, Finset.insert_val_of_notMem hnew, Multiset.map_cons, ← Multiset.cons_coe]
      exact congrArg _ h.pages_eq

/-- `find_one_free_page` can find a page: one in the return queue if all bits are set, and otherwise
one whose bit is in a byte that the bitmap uses completely. -/
def Findable (self : PhysicalRegion) : Prop :=
  if self.used = self.pages then self.recentlyReturned ≠ []
  else ∃ i < 8 * (self.pages / 8), self.bitmap.bit self.memory i = false

instance (region : PhysicalRegion) : Decidable region.Findable :=
  inferInstanceAs (Decidable (ite _ _ _))

/-- `take_free_page` completes. It takes a page exactly if one can be found, and leaves the region as
it is otherwise. -/
theorem Tracks.exists_takeFreePage (halign : 4 ∣ self.bitmap.data)
    (random : UInt8) :
    (self.Findable ∧ ∃ page self', self.takeFreePage random = some (some page, self')) ∨
      ¬self.Findable ∧ self.takeFreePage random = some (none, self) := by
  have hpages : verify (self.pages ≠ 0) = some () := by
    simp [h.pages_pos.ne']
  simp only [PhysicalRegion.takeFreePage, hpages, Option.bind_eq_bind, Option.bind_some,
    findOneFreePage, Findable]
  by_cases hfull : self.used = self.pages
  · simp only [hfull, if_true]
    by_cases hqueue : self.recentlyReturned = []
    · simp [hqueue]
    · left
      have hlen := List.length_pos_iff.mpr hqueue
      have hpage := List.getElem?_eq_getElem (Nat.mod_lt random.toNat hlen)
      obtain ⟨i, -, hi, haddress⟩ := h.exists_index
        (List.mem_append_right taken (List.mem_of_getElem? hpage))
      simp only [hpage, hlen, if_true, Option.bind_some, ← haddress, h.pageIndexOf_address hi,
        Option.pure_def, Option.map_some]
      exact ⟨hqueue, _, _, rfl⟩
  · simp only [hfull, if_false]
    have hhint : self.freeHint < self.bitmap.size := h.size_eq ▸ h.hint_lt
    have hzero : self.bitmap.unaligned = 0 := by
      unfold BitmapView.unaligned
      omega
    rcases @BitmapView.findOneAnywhere_spec self.bitmap self.memory false _ hhint (by omega) (Or.inr hzero) with
      ⟨i, hfound, hi, hbit⟩ | ⟨hfound, hall⟩
    · left
      obtain ⟨memory, hset⟩ : ∃ memory, self.bitmap.set self.memory i true = some memory :=
        BitmapView.exists_set_iff.mpr (by omega)
      rw [h.size_eq] at hi
      refine ⟨⟨i, hi, hbit⟩, ?_⟩
      simp [hfound, hset]
    · right
      rw [h.size_eq] at hall
      refine ⟨?_, by simp [hfound]⟩
      rintro ⟨i, hi, hbit⟩
      exact hall ⟨i, hi, Nat.zero_le i, hbit⟩

/-- What `free_page_at` does to a page of a set bit. -/
theorem Tracks.freePageAt (hlt : i < self.pages)
    (hfree : self.freePageAt (self.address i) = some self') :
    ∃ memory, self' = { self with memory, freeHint := i, used := self.used - 1 } ∧
      self.bitmap.setBits memory = (self.bitmap.setBits self.memory).erase i := by
  simp only [PhysicalRegion.freePageAt, verify_optionBind_eq_some, h.pageIndexOf_address hlt,
    Option.bind_eq_bind, Option.bind_some, Option.pure_def] at hfree
  obtain ⟨-, -, hfree⟩ := hfree
  obtain ⟨memory, hset, hfree⟩ := Option.bind_eq_some_iff.mp hfree
  obtain ⟨-, hwrites⟩ := BitmapView.set_writes hset
  refine ⟨memory, (Option.some.inj hfree).symm, ?_⟩
  rw [BitmapView.Writes.setBits_false (s := {i}) (by simpa using hwrites), Finset.sdiff_singleton_eq_erase]

/-- A page that is returned is not handed out any more. If the queue is full, another page of the
queue is freed. -/
theorem Tracks.returnPage (hpage : page ∈ taken)
    (hreturn : self.returnPage page random = some self') :
    self'.Tracks (taken.erase page) ∧ self.SameShape self' := by
  unfold PhysicalRegion.returnPage at hreturn
  split at hreturn
  · simp only [Option.bind_eq_bind, Option.bind_eq_some_iff] at hreturn
    obtain ⟨entry, hentry, region, hfree, ⟨⟩⟩ := hreturn
    obtain ⟨i, hi, hlt, rfl⟩ :=
      h.exists_index (List.mem_append_right taken (List.mem_of_getElem? hentry))
    obtain ⟨memory, rfl, hbits⟩ := h.freePageAt hlt hfree
    refine ⟨⟨h.size_eq, h.pages_pos, h.aligned, h.end_lt, hlt, ?_, ?_⟩, rfl, rfl, rfl, rfl⟩
    · simp only
      rw [hbits, Finset.card_erase_of_mem hi, h.used_eq]
    · -- Both sides with the freed page are the pages before.
      have hperm : (self.address i :: (taken.erase page ++
          self.recentlyReturned.set random.toNat page)).Perm (taken ++ self.recentlyReturned) :=
        calc (self.address i :: (taken.erase page ++ self.recentlyReturned.set random.toNat page))
          _ ~ taken.erase page ++ (self.address i :: self.recentlyReturned.set random.toNat page) :=
            List.perm_middle.symm
          _ ~ taken.erase page ++ (page :: self.recentlyReturned) :=
            (List.cons_set_perm hentry page).append_left _
          _ ~ page :: (taken.erase page ++ self.recentlyReturned) := List.perm_middle
          _ ~ taken ++ self.recentlyReturned := (List.perm_cons_erase hpage).symm.append_right _
      refine (Multiset.cons_inj_right (self.address i)).mp ?_
      rw [Multiset.cons_coe, Multiset.coe_eq_coe.mpr hperm, ← h.pages_eq]
      rw [hbits, Finset.erase_val]
      exact (Multiset.map_cons _ _ _).symm.trans (congrArg _ (Multiset.cons_erase hi))
  · cases hreturn
    refine ⟨⟨h.size_eq, h.pages_pos, h.aligned, h.end_lt, h.hint_lt, h.used_eq, ?_⟩, rfl, rfl, rfl,
      rfl⟩
    have hperm : (taken.erase page ++ (self.recentlyReturned ++ [page])).Perm
        (taken ++ self.recentlyReturned) :=
      calc taken.erase page ++ (self.recentlyReturned ++ [page])
        _ ~ taken.erase page ++ (page :: self.recentlyReturned) :=
          (List.perm_append_singleton _ _).append_left _
        _ ~ page :: (taken.erase page ++ self.recentlyReturned) := List.perm_middle
        _ ~ taken ++ self.recentlyReturned := (List.perm_cons_erase hpage).symm.append_right _
    rw [Multiset.coe_eq_coe.mpr hperm]
    exact h.pages_eq

/-- The pages of a region that can be handed out: those whose bit is not set and those in the return
queue. -/
def freePages (self : PhysicalRegion) : ℕ :=
  self.pages - (self.bitmap.setBits self.memory).card + self.recentlyReturned.length

/-- A page is either free or handed out. -/
theorem Tracks.freePages_add_length :
    self.freePages + taken.length = self.pages := by
  have hcard := h.card_eq
  have hused := h.used_le
  rw [h.used_eq] at hused
  unfold freePages
  omega

/-- If the bitmap uses all of its last byte, a page can be found whenever one is free. -/
theorem Tracks.findable_of_dvd (hdvd : 8 ∣ self.pages)
    (hfree : 0 < self.freePages) : self.Findable := by
  unfold Findable
  unfold freePages at hfree
  split
  next hfull =>
    rw [← h.used_eq, hfull, Nat.sub_self, Nat.zero_add] at hfree
    exact List.length_pos_iff.mp hfree
  next hfull =>
    rw [Nat.mul_div_cancel' hdvd]
    -- Otherwise every bit would be set.
    by_contra! hall
    refine hfull ?_
    rw [h.used_eq, BitmapView.setBits, Finset.filter_true_of_mem, Finset.card_range, h.size_eq]
    intro i hi
    rw [Finset.mem_range, h.size_eq] at hi
    simpa using hall i hi

omit h

/-! ## Contiguous pages -/

/-- The search in `find_and_allocate_contiguous_range` finds `found` free pages from `first` on,
which is enough for `count` pages if their alignment is ignored. -/
def FindsRange (self : PhysicalRegion) (count alignment first found : ℕ) : Prop :=
  self.bitmap.findLongestRangeOfUnsetBits self.memory (sub32 (count + alignment) 1) =
    some (some first, found) ∧ count ≤ found

/-- The pages that are selected by rounding up the start of the range are free, as far as they
exist. -/
def ContiguousOk (self : PhysicalRegion) (count alignment : ℕ) : Prop :=
  ∀ first found, self.FindsRange count alignment first found →
    ∀ i, self.alignPage first alignment ≤ i → i < self.alignPage first alignment + count →
      i < self.bitmap.size → self.bitmap.bit self.memory i = false

/-- Everything that `take_contiguous_free_pages` can do. -/
theorem takeContiguousFreePages_cases {physicalAlignment : ℕ}
    (h : self.takeContiguousFreePages count physicalAlignment = some (pages, self')) :
    ∃ first found memory, count ≠ 0 ∧
      self.FindsRange count (physicalAlignment / pageSize) first found ∧
      self.bitmap.setRange true false self.memory
        (self.alignPage first (physicalAlignment / pageSize)) count = some memory ∧
      pages = (List.range count).map (fun index => (self.lower + pageSize *
        (index + self.alignPage first (physicalAlignment / pageSize))) % 2 ^ 32) ∧
      self' = { self with
        memory
        used := (self.used + count) % 2 ^ 32
        freeHint := self.nextFreeHint (first + count + 1) } := by
  simp only [takeContiguousFreePages, findContiguousFreePages, findAndAllocateContiguousRange,
    verify_optionBind_eq_some, Option.bind_eq_bind, Option.bind_assoc] at h
  obtain ⟨-, -, -, -, hcount, h⟩ := h
  obtain ⟨⟨first, found⟩, hfind, h⟩ := Option.bind_eq_some_iff.mp h
  cases first with
  | none => simp at h
  | some first =>
    simp only at h
    split at h
    next hfound =>
      simp only [Option.bind_assoc, Option.bind_eq_some_iff, Option.pure_def, Option.bind_some,
        Option.some.injEq, Prod.mk.injEq] at h
      obtain ⟨memory, hset, rfl, rfl⟩ := h
      exact ⟨first, found, memory, hcount, ⟨hfind, hfound⟩, hset, rfl, rfl⟩
    next => simp at h

theorem FindsRange.unsetRange {first found : ℕ} (h : self.FindsRange count alignment first found) :
    self.bitmap.UnsetRange self.memory 0 first found := by
  obtain ⟨start, length, -, hresult, hunset⟩ := BitmapView.findLongestRange_spec self.bitmap
    self.memory (sub32 (count + alignment) 1)
  rw [h.1, Option.some.injEq, Prod.mk.injEq] at hresult
  obtain ⟨hfirst, rfl⟩ := hresult
  split at hfirst
  next hne => exact Option.some.inj hfirst ▸ (hunset hne).2
  next => cases hfirst

theorem FindsRange.unique {first found first' found' : ℕ}
    (h : self.FindsRange count alignment first found)
    (h' : self.FindsRange count alignment first' found') : first = first' := by
  have heq := h.1.symm.trans h'.1
  simp only [Option.some.injEq, Prod.mk.injEq] at heq
  exact heq.1

/-- Rounding up moves a page by less than the alignment. -/
theorem Tracks.alignPage_spec (h : self.Tracks taken) (hk : k < 20) (hpage : page ≤ self.pages) :
    page ≤ self.alignPage page (2 ^ k) ∧ self.alignPage page (2 ^ k) < page + 2 ^ k ∧
      2 ^ k ∣ self.lower / pageSize + self.alignPage page (2 ^ k) := by
  have hend := h.end_lt
  unfold alignPage
  split
  next => exact alignUp_spec hk.le (by unfold pageSize at hend ⊢; omega)
  next hone =>
    rw [not_not.mp hone]
    exact ⟨le_rfl, by omega, one_dvd _⟩

/-- An aligned page number gives an aligned address. -/
theorem Tracks.dvd_address (h : self.Tracks taken) (hdvd : alignment ∣ self.lower / pageSize + i) :
    pageSize * alignment ∣ self.address i := by
  have hlower := Nat.mul_div_cancel' h.aligned
  rw [address, ← hlower, Nat.mul_comm i, ← Nat.mul_add]
  exact Nat.mul_dvd_mul_left pageSize hdvd

/-- What `take_contiguous_free_pages` does: the pages are contiguous, aligned and inside the region,
and their bits are set. The pages were all free exactly if the condition holds. -/
theorem Tracks.takeContiguousFreePages (h : self.Tracks taken) (hk : k < 20)
    (htake : self.takeContiguousFreePages count (pageSize * 2 ^ k) = some (pages, self')) :
    ∃ first memory freeHint, first + count ≤ self.pages ∧ freeHint < self.pages ∧
      pages = (List.range count).map (fun index => self.address (first + index)) ∧
      pageSize * 2 ^ k ∣ self.address first ∧
      self' = { self with memory, freeHint, used := self.used + count } ∧
      self.bitmap.setBits memory =
        self.bitmap.setBits self.memory ∪ Finset.Ico first (first + count) ∧
      (self.ContiguousOk count (2 ^ k) ↔
        Disjoint (self.bitmap.setBits self.memory) (Finset.Ico first (first + count))) := by
  obtain ⟨first, found, memory, -, hfinds, hset, rfl, rfl⟩ := takeContiguousFreePages_cases htake
  rw [Nat.mul_div_cancel_left _ (show 0 < pageSize by decide)] at hfinds hset ⊢
  have hend := h.end_lt
  have hused := h.used_le
  have hfound := hfinds.2
  have hrange := hfinds.unsetRange.end_le
  have hpow : 2 ^ k ≤ 2 ^ 20 := Nat.pow_le_pow_right (by decide) hk.le
  rw [h.size_eq] at hrange
  obtain ⟨hlow, hhigh, hdvd⟩ := h.alignPage_spec hk (show first ≤ self.pages by omega)
  obtain ⟨-, hlast, hwrites⟩ := BitmapView.setRange_writes (by unfold pageSize at hend; omega) hset
  refine ⟨self.alignPage first (2 ^ k), memory, self.nextFreeHint (first + count + 1),
    h.size_eq ▸ hlast, h.nextFreeHint_lt _, ?_, h.dvd_address hdvd, ?_, ?_, ?_⟩
  · refine List.map_congr_left fun index hindex => ?_
    rw [List.mem_range] at hindex
    rw [h.size_eq] at hlast
    rw [Nat.mul_comm, Nat.add_comm index, h.mod_address (by omega)]
  · rw [Nat.mod_eq_of_lt (by unfold pageSize at hend; omega)]
  · refine BitmapView.Writes.setBits_true (hwrites.congr fun i => Finset.mem_Ico.symm) fun i hi => ?_
    rw [Finset.mem_Ico] at hi
    omega
  · rw [Finset.disjoint_left]
    constructor
    · intro hok i hset hi
      rw [Finset.mem_Ico] at hi
      rw [BitmapView.mem_setBits] at hset
      have hfalse := hok first found hfinds i hi.1 hi.2 hset.1
      simp [hset.2] at hfalse
    · intro hdisjoint first' found' hfinds' i hi hi' hlt
      rw [← hfinds.unique hfinds'] at hi hi'
      by_contra hbit
      refine hdisjoint (BitmapView.mem_setBits.mpr ⟨hlt, ?_⟩) (Finset.mem_Ico.mpr ⟨hi, hi'⟩)
      simpa using hbit

/-- The condition holds if the range found is long enough for the rounded-up start. -/
theorem contiguousOk_of_fits
    (hfits : ∀ first found, self.FindsRange count alignment first found →
      first ≤ self.alignPage first alignment ∧
        self.alignPage first alignment + count ≤ first + found) :
    self.ContiguousOk count alignment := by
  intro first found hfinds i hi hi' _
  obtain ⟨hlow, hhigh⟩ := hfits first found hfinds
  exact hfinds.unsetRange.unset i (hlow.trans hi) (hi'.trans_le hhigh)

/-- Pages that need no alignment beyond a page are always free. -/
theorem contiguousOk_one (count : ℕ) : self.ContiguousOk count 1 :=
  contiguousOk_of_fits fun first _ hfinds =>
    ⟨le_rfl, Nat.add_le_add_left hfinds.2 (self.alignPage first 1)⟩

/-- Contiguous pages that were free are handed out now. -/
theorem Tracks.takeContiguousFreePages_of_ok (h : self.Tracks taken) (hk : k < 20)
    (hok : self.ContiguousOk count (2 ^ k))
    (htake : self.takeContiguousFreePages count (pageSize * 2 ^ k) = some (pages, self')) :
    self'.Tracks (pages ++ taken) ∧ self.SameShape self' := by
  obtain ⟨first, memory, freeHint, hlast, hhint, rfl, -, rfl, hbits, hiff⟩ := h.takeContiguousFreePages hk
    htake
  have hdisjoint := hiff.mp hok
  refine ⟨⟨h.size_eq, h.pages_pos, h.aligned, h.end_lt, hhint, ?_, ?_⟩, rfl, rfl, rfl, rfl⟩
  · simp only
    rw [hbits, Finset.card_union_of_disjoint hdisjoint, Nat.card_Ico, Nat.add_sub_cancel_left,
      h.used_eq]
  · simp only
    rw [hbits, ← Finset.disjUnion_eq_union _ _ hdisjoint, Finset.disjUnion_val, Multiset.map_add,
      List.append_assoc, ← Multiset.coe_add, Multiset.add_comm]
    -- The new bits are those of the contiguous pages.
    have hnew : (Finset.Ico first (first + count)).val.map self.address =
        (((List.range count).map fun index => self.address (first + index) : List ℕ) :
          Multiset ℕ) := by
      show Multiset.map self.address (List.range' first (first + count - first) : Multiset ℕ) = _
      rw [Nat.add_sub_cancel_left, List.range'_eq_map_range, Multiset.map_coe, List.map_map]
      rfl
    exact congrArg₂ _ hnew h.pages_eq

end PhysicalRegion

end Kernel
