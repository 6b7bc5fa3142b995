import PranaOS.Kernel.VM.VolatilePageRanges
import PranaOS.ToMathlib.Except

/-!
# `Kernel/VM/AnonymousVMObject`

An anonymous VM object has a slot for each of its pages. A slot that holds the lazy-committed page
stands for a page that has been committed and is allocated when it is touched.

A function fails with the assertion that does not hold (`Failure`). A loop that never ends, of the
functions of `VolatilePageRanges`, counts as a failure as well. Whether `commit_user_physical_pages`
succeeds is an argument, since it depends on the rest of the system.
-/

namespace Kernel

open AK Except

/-- The assertions that matter here; `other` are all the others, and loops that never end. -/
inductive Failure where
  /-- `VERIFY` of `m_unused_committed_pages`. -/
  | unusedCommittedPages
  /-- `VERIFY(m_committed_pages > 0)` in `CommittedCowPages`. -/
  | committedCowPages
  /-- `VERIFY(page_count > 0)` in `commit_user_physical_pages`. -/
  | commitPageCount
  | other
deriving DecidableEq, Repr

/-- A `PhysicalPage`: the shared zero page, the lazy-committed page, or any other page. -/
inductive PhysicalPage where
  | sharedZero
  | lazyCommitted
  | page (id : ℕ)
deriving DecidableEq, Repr

/-- `class AnonymousVMObject`. A slot can be null, the registered `PurgeablePageRanges` are given by
their volatile ranges, and the pool of committed pages by its index. -/
structure AnonymousVMObject where
  physicalPages : List (Option PhysicalPage)
  volatileRangesCache : VolatilePageRanges
  volatileRangesCacheDirty : Bool
  purgeableRanges : List VolatilePageRanges
  unusedCommittedPages : ℕ
  cowMap : Option (List Bool)
  sharedCommittedCowPages : Option ℕ
deriving DecidableEq, Repr

namespace AnonymousVMObject

variable (self : AnonymousVMObject)

/-- `page_count`. -/
def pageCount : ℕ := self.physicalPages.length

/-- `create_with_size(size, AllocationStrategy::Reserve)`, once the pages have been committed. -/
def createWithSize (pages : ℕ) : AnonymousVMObject where
  physicalPages := List.replicate pages (some .lazyCommitted)
  volatileRangesCache := .create ⟨0, pages, false⟩
  volatileRangesCacheDirty := true
  purgeableRanges := []
  unusedCommittedPages := pages
  cowMap := none
  sharedCommittedCowPages := none

/-- Replaces a slot. -/
def setSlot (i : ℕ) (page : PhysicalPage) : AnonymousVMObject :=
  { self with physicalPages := self.physicalPages.set i (some page) }

/-! ## Volatile and non-volatile ranges -/

/-- The innermost loop of `for_each_volatile_range`: the intersection with all ranges of another
object. -/
def intersectRanges : List VolatilePageRange → VolatilePageRange → VolatilePageRange
  | [], range => range
  | r :: ranges, range =>
    let range := range.intersected r
    if range.isEmpty then range else intersectRanges ranges range

/-- The loop of `for_each_volatile_range` over the other purgeable ranges, or `none` if one of them is
empty and the iteration ends. -/
def intersectOthers : List VolatilePageRanges → VolatilePageRange → Option VolatilePageRange
  | [], range => some range
  | other :: others, range =>
    if other.isEmpty then none
    else
      let range := intersectRanges other.ranges range
      if range.isEmpty then some range else intersectOthers others range

section ForEach

variable {σ : Type}

/-- The body of `for_each_volatile_range` for the range `j` of the purgeable ranges `i`. The function
can change the state, and with it the ranges that the loops go over. -/
def forEachVolatileRangeBody (ranges : σ → List VolatilePageRanges)
    (f : σ → VolatilePageRange → Except Failure (Bool × σ)) (i : ℕ) (s : σ) (j : ℕ) :
    Except Failure (Bool × σ) := do
  let purgeable ← ofOption .other (ranges s)[i]?
  let r ← ofOption .other purgeable.ranges[j]?
  match intersectOthers ((ranges s).eraseIdx i) r with
  | none => .ok (false, s)
  | some range => if range.isEmpty then .ok (true, s) else f s range

/-- `for_each_volatile_range`. -/
def forEachVolatileRange (ranges : σ → List VolatilePageRanges)
    (f : σ → VolatilePageRange → Except Failure (Bool × σ)) (s : σ) :
    Except Failure (Bool × σ) :=
  forRange (fun s i => do
    let purgeable ← ofOption .other (ranges s)[i]?
    forRange (forEachVolatileRangeBody ranges f i) purgeable.ranges.length 0 s)
    (ranges s).length 0 s

/-- What `for_each_nonvolatile_range` does for a volatile range, for a function that always
continues. The end of a range that begins at `base` is not noticed. -/
def nonvolatileRangeBody (f : σ → VolatilePageRange → σ) (s : ℕ × σ)
    (range : VolatilePageRange) : ℕ × σ :=
  if range.base = s.1 then s
  else (range.endIndex, f s.2 ⟨s.1, sub32 range.base s.1, false⟩)

/-- `for_each_nonvolatile_range`, for a function that always continues. -/
def forEachNonvolatileRange (self : AnonymousVMObject) (f : σ → VolatilePageRange → σ) (s : σ) :
    Except Failure σ := do
  let (_, base, s) ← forEachVolatileRange (fun _ => self.purgeableRanges)
    (fun s range => .ok (true, nonvolatileRangeBody f s range)) (0, s)
  if base < self.pageCount then .ok (f s ⟨base, self.pageCount - base, false⟩) else .ok s

end ForEach

/-- `update_volatile_cache`. What is put into the cache are the ranges that are not volatile. -/
def updateVolatileCache : Except Failure AnonymousVMObject := do
  require self.volatileRangesCacheDirty .other
  let cache ← self.forEachNonvolatileRange VolatilePageRanges.addUnchecked
    { self.volatileRangesCache with ranges := [] }
  .ok { self with volatileRangesCache := cache, volatileRangesCacheDirty := false }

/-- Updates the cache if it is dirty. -/
def refreshVolatileCache : Except Failure AnonymousVMObject :=
  if self.volatileRangesCacheDirty then self.updateVolatileCache else .ok self

/-- `is_nonvolatile`. -/
def isNonvolatile (pageIndex : ℕ) :
    Except Failure (Bool × AnonymousVMObject) := do
  let self ← self.refreshVolatileCache
  .ok (!self.volatileRangesCache.contains pageIndex, self)

/-! ## Lazy-committed pages -/

/-- The body of the loop of `remove_lazy_commit_pages`. -/
def removeLazyCommitPage (s : ℕ × AnonymousVMObject) (i : ℕ) :
    Except Failure (Bool × ℕ × AnonymousVMObject) := do
  let slot ← ofOption .other s.2.physicalPages[i]?
  if slot = some .lazyCommitted then
    require (s.2.unusedCommittedPages > 0) .unusedCommittedPages
    let self := { s.2.setSlot i .sharedZero with
      unusedCommittedPages := s.2.unusedCommittedPages - 1 }
    .ok (self.unusedCommittedPages ≠ 0, s.1 + 1, self)
  else .ok (true, s)

/-- `remove_lazy_commit_pages`: how many pages were removed. -/
def removeLazyCommitPages (range : VolatilePageRange) :
    Except Failure (ℕ × AnonymousVMObject) := do
  let (_, s) ← forRange removeLazyCommitPage (range.endIndex - range.base) range.base (0, self)
  .ok s

/-- What `range_made_volatile` does for a volatile range. -/
def removeLazyCommitPagesIn (range : VolatilePageRange) (s : ℕ × AnonymousVMObject)
    (r : VolatilePageRange) : Except Failure (Bool × ℕ × AnonymousVMObject) := do
  let intersected := range.intersected r
  if intersected.isEmpty then .ok (true, s)
  else
    let (removed, self) ← s.2.removeLazyCommitPages intersected
    .ok (self.unusedCommittedPages ≠ 0, s.1 + removed, self)

/-- `range_made_volatile`: how many pages are uncommitted. -/
def rangeMadeVolatile (range : VolatilePageRange) :
    Except Failure (ℕ × AnonymousVMObject) := do
  if self.unusedCommittedPages = 0 then .ok (0, self)
  else
    let (_, uncommitted, self) ← forEachVolatileRange (fun s => s.2.purgeableRanges)
      (removeLazyCommitPagesIn range) (0, self)
    .ok (uncommitted, { self with volatileRangesCacheDirty := true })

/-- Whether a page is to be copied when it is written to. -/
def cowMapGet (pageIndex : ℕ) : Except Failure Bool :=
  match self.cowMap with
  | none => .ok false
  | some map => ofOption .other map[pageIndex]?

/-- Whether a page needs to be committed when it is made non-volatile. -/
def needsCommit (pageIndex : ℕ) : Except Failure Bool := do
  if ← self.cowMapGet pageIndex then .ok false
  else
    let slot ← ofOption .other self.physicalPages[pageIndex]?
    .ok (slot = some .sharedZero)

/-- `count_needed_commit_pages_for_nonvolatile_range`. -/
def countNeededCommitPages (range : VolatilePageRange) :
    Except Failure ℕ := do
  require (!range.isEmpty) .other
  let (_, count) ← forRange (fun count i => do
    .ok (true, if ← self.needsCommit i then count + 1 else count))
    (range.endIndex - range.base) range.base 0
  .ok count

/-- The body of the loop of `mark_committed_pages_for_nonvolatile_range`. -/
def markCommittedPage (markTotal : ℕ) (s : ℕ × AnonymousVMObject) (i : ℕ) :
    Except Failure (Bool × ℕ × AnonymousVMObject) := do
  if ← s.2.needsCommit i then
    .ok (s.1 + 1 ≠ markTotal, s.1 + 1, s.2.setSlot i .lazyCommitted)
  else .ok (true, s)

/-- `mark_committed_pages_for_nonvolatile_range`: how many pages were marked. -/
def markCommittedPages (range : VolatilePageRange) (markTotal : ℕ) :
    Except Failure (ℕ × AnonymousVMObject) := do
  require (!range.isEmpty) .other
  require (markTotal > 0) .other
  let (_, updated, self) ← forRange (markCommittedPage markTotal) (range.endIndex - range.base)
    range.base (0, self)
  .ok (updated, { self with
    unusedCommittedPages := (self.unusedCommittedPages + updated) % 2 ^ 32 })

/-- `allocate_committed_page`, except for the page itself. -/
def allocateCommittedPage (pageIndex : ℕ) :
    Except Failure AnonymousVMObject := do
  require (self.unusedCommittedPages > 0) .unusedCommittedPages
  require (self.purgeableRanges.all fun ranges => !ranges.contains pageIndex) .other
  .ok { self with unusedCommittedPages := self.unusedCommittedPages - 1 }

/-! ## Purgeable ranges -/

/-- `set_was_purged`. -/
def setWasPurged (range : VolatilePageRange) (fuel : ℕ) :
    Except Failure AnonymousVMObject := do
  let ranges ← ofOption .other (self.purgeableRanges.mapM fun ranges =>
    (ranges.add { range with wasPurged := true } fuel).map Prod.snd)
  .ok { self with purgeableRanges := ranges }

/-- The body of the loop of `purge_impl` over the pages of a range. -/
def purgePage (s : ℕ × AnonymousVMObject) (i : ℕ) :
    Except Failure (Bool × ℕ × AnonymousVMObject) := do
  let slot ← ofOption .other s.2.physicalPages[i]?
  require (slot ≠ some .lazyCommitted) .other
  let purged := if slot = none ∨ slot = some .sharedZero then s.1 else s.1 + 1
  .ok (true, purged, s.2.setSlot i .sharedZero)

/-- What `purge_impl` does for a volatile range. -/
def purgeRange (fuel : ℕ) (s : ℕ × AnonymousVMObject) (range : VolatilePageRange) :
    Except Failure (Bool × ℕ × AnonymousVMObject) := do
  let (_, purged, self) ← forRange purgePage (range.endIndex - range.base) range.base (0, s.2)
  if purged > 0 then
    let self ← self.setWasPurged range fuel
    .ok (true, s.1 + purged, self)
  else .ok (true, s.1, self)

/-- `purge_impl`: how many pages were purged. -/
def purge (fuel : ℕ) : Except Failure (ℕ × AnonymousVMObject) := do
  let (_, s) ← forEachVolatileRange (fun s => s.2.purgeableRanges) (purgeRange fuel) (0, self)
  .ok s

/-- Replaces the volatile ranges of the registered purgeable ranges `k`. -/
def setPurgeable (k : ℕ) (ranges : VolatilePageRanges) :
    AnonymousVMObject :=
  { self with purgeableRanges := self.purgeableRanges.set k ranges }

/-- `PurgeablePageRanges::add_volatile_range` of the registered purgeable ranges `k`: how many pages
are uncommitted. -/
def addVolatileRange (k : ℕ) (range : VolatilePageRange) (fuel : ℕ) :
    Except Failure (ℕ × AnonymousVMObject) := do
  if range.isEmpty then .ok (0, self)
  else
    let ranges ← ofOption .other self.purgeableRanges[k]?
    let (added, ranges) ← ofOption .other (ranges.add range fuel)
    let self := self.setPurgeable k ranges
    if added then self.rangeMadeVolatile range else .ok (0, self)

/-- The pages to commit for ranges that are made non-volatile. -/
def countNeeded (self : AnonymousVMObject) : List VolatilePageRange → Except Failure ℕ
  | [] => .ok 0
  | range :: ranges => do
    let count ← self.countNeededCommitPages range
    let rest ← self.countNeeded ranges
    .ok ((count + rest) % 2 ^ 32)

/-- The pages committed are marked for lazy allocation. -/
def markCommitted : List VolatilePageRange → ℕ → AnonymousVMObject →
    Except Failure AnonymousVMObject
  | [], _, self => .ok self
  | range :: ranges, pagesToMark, self => do
    let (marked, self) ← self.markCommittedPages range pagesToMark
    markCommitted ranges (pagesToMark - marked) self

/-- Marks pages only if some were committed. -/
def markNeeded (ranges : List VolatilePageRange) (need : ℕ) (self : AnonymousVMObject) :
    Except Failure AnonymousVMObject :=
  if need > 0 then markCommitted ranges need self else .ok self

/-- `PurgeablePageRanges::remove_volatile_range` of the registered purgeable ranges `k`: how many pages
are committed. -/
def removeVolatileRange (k : ℕ) (range : VolatilePageRange)
    (wasPurged commitOk : Bool) (fuel : ℕ) : Except Failure (ℕ × AnonymousVMObject) := do
  if range.isEmpty then .ok (0, self)
  else
    let ranges ← ofOption .other self.purgeableRanges[k]?
    let intersecting ← ofOption .other (ranges.intersectingRanges range)
    let need ← self.countNeeded intersecting
    if need > 0 ∧ !commitOk then .ok (0, self)
    else
      let self ← markNeeded intersecting need self
      let (removed, _, ranges) ← ofOption .other (ranges.remove range wasPurged fuel)
      let self := self.setPurgeable k ranges
      if removed then .ok (need, { self with volatileRangesCacheDirty := true })
      else
        require (need = 0) .other
        .ok (need, self)

/-! ## Copy on write -/

/-- `ensure_or_reset_cow_map`. -/
def ensureOrResetCowMap : AnonymousVMObject :=
  { self with cowMap := some (match self.cowMap with
    | none => List.replicate self.pageCount true
    | some map => map.map fun _ => true) }

/-- `set_should_cow`. -/
def setShouldCow (pageIndex : ℕ) (cow : Bool) :
    Except Failure AnonymousVMObject := do
  let map := self.cowMap.getD (List.replicate self.pageCount true)
  require (pageIndex < map.length) .other
  .ok { self with cowMap := some (map.set pageIndex cow) }

/-- The pages that `clone` commits. -/
def needCowPages : Except Failure ℕ :=
  self.forEachNonvolatileRange (fun need range => (need + range.count) % 2 ^ 32) 0

/-- The body of the loop of the copy constructor that drops lazy-committed pages. -/
def dropLazyCommitPage (i : ℕ) :
    Except Failure (Bool × AnonymousVMObject) := do
  let slot ← ofOption .other self.physicalPages[i]?
  if slot = some .lazyCommitted then
    let self := { self.setSlot i .sharedZero with
      unusedCommittedPages := sub32 self.unusedCommittedPages 1 }
    .ok (self.unusedCommittedPages ≠ 0, self)
  else .ok (true, self)

/-- The body of the copy constructor. -/
def dropLazyCommitPages : Except Failure AnonymousVMObject :=
  if self.unusedCommittedPages > 0 then do
    let (_, self) ← forRange dropLazyCommitPage self.pageCount 0 self
    require (self.unusedCommittedPages = 0) .unusedCommittedPages
    .ok self
  else .ok self

/-- The copy constructor. -/
def copy (other : AnonymousVMObject) : Except Failure AnonymousVMObject :=
  dropLazyCommitPages (ensureOrResetCowMap { other with
    volatileRangesCache := .create ⟨0, other.pageCount, false⟩
    volatileRangesCacheDirty := true
    purgeableRanges := []
    cowMap := none })

/-- The object that is cloned gets the new pool and becomes copy-on-write itself. -/
def becomeCow (pool : ℕ) : AnonymousVMObject :=
  ensureOrResetCowMap { self with sharedCommittedCowPages := some pool }

/-- `clone`, with the index of the new pool: the object itself, the pages committed and the clone, or
`none` if they could not be committed. -/
def clone (pool : ℕ) (commitOk : Bool) :
    Except Failure (Option (AnonymousVMObject × ℕ × AnonymousVMObject)) := do
  let need ← self.needCowPages
  require (need > 0) .commitPageCount
  if commitOk then
    let copied ← (self.becomeCow pool).copy
    .ok (some (self.becomeCow pool, need, copied))
  else .ok none

end AnonymousVMObject

/-! ## The objects of the system -/

/-- An object, and how many pages it has committed and has given back so far. -/
structure Party where
  object : AnonymousVMObject
  committed : ℕ
  returned : ℕ
deriving DecidableEq, Repr

/-- The objects, and the committed pages left in the pools of `CommittedCowPages`. -/
structure System where
  parties : List Party
  pools : List ℕ
deriving DecidableEq, Repr

namespace System

variable (s : System)

/-- `ref_count` of a page. The memory manager itself refers to the two special pages. -/
def refCount (page : PhysicalPage) : ℕ :=
  (s.parties.map fun party => party.object.physicalPages.count (some page)).sum +
    match page with
    | .page _ => 0
    | _ => 1

/-- A page that no object refers to, as the memory manager allocates it. -/
def Unused (id : ℕ) : Prop := s.refCount (.page id) = 0

instance  (id : ℕ) : Decidable (s.Unused id) := inferInstanceAs (Decidable (_ = 0))

/-- Replaces a party. -/
def setParty (i : ℕ) (party : Party) : System :=
  { s with parties := s.parties.set i party }

/-- `CommittedCowPages::allocate_one` and `return_one`: a page is taken out of the pool. -/
def takeCommittedCowPage (pool : ℕ) : Except Failure (ℕ × System) := do
  let left ← ofOption .other s.pools[pool]?
  require (left > 0) .committedCowPages
  .ok (left - 1, { s with pools := s.pools.set pool (left - 1) })

/-- `have_committed` of `handle_cow_fault`: the pool to use, and the object with its cache. -/
def haveCommitted (object : AnonymousVMObject) (pageIndex : ℕ) :
    Except Failure (Option ℕ × AnonymousVMObject) :=
  match object.sharedCommittedCowPages with
  | none => .ok (none, object)
  | some pool => do
    let (nonvolatile, object) ← object.isNonvolatile pageIndex
    .ok (if nonvolatile then some pool else none, object)

/-- The case of `handle_cow_fault` in which nobody else refers to the page. -/
def keepPage (i : ℕ) (party : Party) (pageIndex : ℕ) (committed : Option ℕ) :
    Except Failure System := do
  let object ← party.object.setShouldCow pageIndex false
  match committed with
  | none => .ok (s.setParty i { party with object })
  | some pool =>
    let (left, s) ← s.takeCommittedCowPage pool
    let object := if left = 0 then { object with sharedCommittedCowPages := none } else object
    .ok (s.setParty i { party with object })

/-- The page is copied to the page `id`. -/
def copyPageTo (i : ℕ) (party : Party) (pageIndex id : ℕ) : Except Failure System := do
  let object ← (party.object.setSlot pageIndex (.page id)).setShouldCow pageIndex false
  .ok (s.setParty i { party with object })

/-- The case of `handle_cow_fault` in which the page is copied to the page `id`. Without a committed
page the memory manager may have no page. -/
def copyPage (i : ℕ) (party : Party) (pageIndex : ℕ) (committed : Option ℕ)
    (id : ℕ) (available : Bool) : Except Failure System :=
  match committed with
  | none => if available then s.copyPageTo i party pageIndex id else .ok (s.setParty i party)
  | some pool => do
    let (_, s) ← s.takeCommittedCowPage pool
    s.copyPageTo i party pageIndex id

/-- `handle_cow_fault`, called for a page that is to be copied and that is none of the special
pages. -/
def handleCowFault (i pageIndex id : ℕ) (available : Bool) :
    Except Failure System := do
  let party ← ofOption .other s.parties[i]?
  require (party.object.cowMapGet pageIndex = .ok true) .other
  let slot ← ofOption .other party.object.physicalPages[pageIndex]?
  let page ← ofOption .other slot
  require (page ≠ .sharedZero ∧ page ≠ .lazyCommitted) .other
  require (s.Unused id) .other
  let (committed, object) ← haveCommitted party.object pageIndex
  let party := { party with object }
  if s.refCount page = 1 then s.keepPage i party pageIndex committed
  else s.copyPage i party pageIndex committed id available

/-- `AnonymousVMObject::clone` of a party. The clone is a new party, and the pages committed are a new
pool. -/
def clone (s : System) (i : ℕ) (commitOk : Bool) : Except Failure System := do
  let party ← ofOption .other s.parties[i]?
  match ← party.object.clone s.pools.length commitOk with
  | none => .ok s
  | some (object, need, copied) =>
    .ok ⟨s.parties.set i { party with object } ++ [⟨copied, 0, 0⟩], s.pools ++ [need]⟩

/-- A fault on a slot with the lazy-committed page, which is replaced by the page `id`. -/
def handleLazyFault (i pageIndex id : ℕ) : Except Failure System := do
  let party ← ofOption .other s.parties[i]?
  require (party.object.physicalPages[pageIndex]? = some (some .lazyCommitted)) .other
  require (s.Unused id) .other
  let object ← party.object.allocateCommittedPage pageIndex
  .ok (s.setParty i { party with object := object.setSlot pageIndex (.page id) })

/-- `handle_zero_fault` of a slot with the shared zero page. The slot is null afterwards if the memory
manager has no page. -/
def handleZeroFault (i pageIndex : ℕ) (id : Option ℕ) : Except Failure System := do
  let party ← ofOption .other s.parties[i]?
  require (party.object.physicalPages[pageIndex]? = some (some .sharedZero)) .other
  require (∀ page ∈ id, s.Unused page) .other
  let object := { party.object with
    physicalPages := party.object.physicalPages.set pageIndex (id.map .page) }
  .ok (s.setParty i { party with object })

/-- The operations. `i` is the party, and `k` the purgeable ranges of its object. -/
inductive Op where
  | create (pages : UInt32) (commitOk : Bool)
  | lazyFault (i pageIndex id : ℕ)
  | zeroFault (i pageIndex : ℕ) (id : Option ℕ)
  | cowFault (i pageIndex id : ℕ) (available : Bool)
  | register (i : ℕ) (ranges : VolatilePageRanges)
  | unregister (i k : ℕ)
  | makeVolatile (i k : ℕ) (range : VolatilePageRange) (fuel : ℕ)
  | makeNonvolatile (i k : ℕ) (range : VolatilePageRange) (wasPurged commitOk : Bool) (fuel : ℕ)
  | purge (i fuel : ℕ)
  | clone (i : ℕ) (commitOk : Bool)
  | destroy (i : ℕ)

/-- One operation. The pages that an object commits and gives back are added up. -/
def step : Op → Except Failure System
  | .create pages commitOk => do
    require (pages.toNat > 0) .commitPageCount
    if commitOk then
      .ok { s with parties := s.parties ++ [⟨.createWithSize pages.toNat, pages.toNat, 0⟩] }
    else .ok s
  | .lazyFault i pageIndex id => s.handleLazyFault i pageIndex id
  | .zeroFault i pageIndex id => s.handleZeroFault i pageIndex id
  | .cowFault i pageIndex id available => s.handleCowFault i pageIndex id available
  | .register i ranges => do
    let party ← ofOption .other s.parties[i]?
    let object := { party.object with purgeableRanges := party.object.purgeableRanges ++ [ranges] }
    .ok (s.setParty i { party with object })
  | .unregister i k => do
    let party ← ofOption .other s.parties[i]?
    let object := { party.object with purgeableRanges := party.object.purgeableRanges.eraseIdx k }
    .ok (s.setParty i { party with object })
  | .makeVolatile i k range fuel => do
    let party ← ofOption .other s.parties[i]?
    let (uncommitted, object) ← party.object.addVolatileRange k range fuel
    .ok (s.setParty i { party with object, returned := party.returned + uncommitted })
  | .makeNonvolatile i k range wasPurged commitOk fuel => do
    let party ← ofOption .other s.parties[i]?
    let (committed, object) ← party.object.removeVolatileRange k range wasPurged commitOk fuel
    .ok (s.setParty i { party with object, committed := party.committed + committed })
  | .purge i fuel => do
    let party ← ofOption .other s.parties[i]?
    let (_, object) ← party.object.purge fuel
    .ok (s.setParty i { party with object })
  | .clone i commitOk => s.clone i commitOk
  | .destroy i => .ok { s with parties := s.parties.eraseIdx i }

end System

end Kernel
