import PranaOS.Kernel.VM.AnonymousVMObject
import PranaOS.ToMathlib.Run

/-!
# Lazily committed pages

`m_unused_committed_pages` is the number of slots that hold the lazy-committed page. Every operation
of an object keeps the two in agreement (`Counted`), whatever its volatile ranges are, so that none
of the assertions about the counter fails. What an object gives back to the memory manager, the
pages that its destructor would give back included, is never more than what it has committed.
-/

namespace Kernel

open AK Except Transition List

namespace AnonymousVMObject

/-- The number of slots that hold the lazy-committed page. -/
def lazyPages (self : AnonymousVMObject) : ℕ := self.physicalPages.count (some .lazyCommitted)

/-- The counter agrees with the slots. Nothing else in the object matters. -/
def Counted (object : AnonymousVMObject) : Prop :=
  object.unusedCommittedPages = object.lazyPages ∧ object.pageCount < 2 ^ 32

/-- The computation does not fail with an assertion about the counter. -/
abbrev Keeps {α : Type} (post : α → Prop) (x : Except Failure α) : Prop :=
  Ensures (· = .unusedCommittedPages) post x

variable {self : AnonymousVMObject} {i total : ℕ} {slot : Option PhysicalPage}

theorem keeps_slot {α : Type} {o : Option α} : Keeps (fun a => o = some a) (ofOption .other o) :=
  ensures_ofOption (by decide)

theorem keeps_require {condition : Prop} [Decidable condition] :
    Keeps (fun _ => condition) (require condition .other) :=
  ensures_require fun _ => by decide

@[simp]
theorem pageCount_setSlot (page : PhysicalPage) : (self.setSlot i page).pageCount = self.pageCount :=
  length_set

theorem lazyPages_le : self.lazyPages ≤ self.pageCount := count_le_length

/-- Replacing a slot changes the number of lazy-committed pages by the two pages. -/
theorem lazyPages_setSlot (hslot : self.physicalPages[i]? = some slot) (page : PhysicalPage) :
    (self.setSlot i page).lazyPages + (if slot = some .lazyCommitted then 1 else 0) =
      self.lazyPages + if page = .lazyCommitted then 1 else 0 := by
  have hcount := (cons_set_perm hslot (some page)).count_eq (some .lazyCommitted)
  simp only [count_cons, beq_iff_eq, Option.some.injEq] at hcount
  exact hcount

/-- A slot that does not hold the lazy-committed page is replaced by another such page. -/
theorem Counted.setSlot (h : self.Counted) (hslot : self.physicalPages[i]? = some slot)
    (hold : slot ≠ some .lazyCommitted) {page : PhysicalPage} (hnew : page ≠ .lazyCommitted) :
    (self.setSlot i page).Counted := by
  have hcount := lazyPages_setSlot hslot page
  rw [if_neg hold, if_neg hnew] at hcount
  exact ⟨h.1.trans hcount.symm, (pageCount_setSlot page).trans_lt h.2⟩

/-- A lazy-committed page is replaced, and the counter with it. -/
theorem Counted.dropLazy (h : self.Counted)
    (hslot : self.physicalPages[i]? = some (some .lazyCommitted)) {page : PhysicalPage}
    (hnew : page ≠ .lazyCommitted) : 0 < self.unusedCommittedPages ∧
      Counted { self.setSlot i page with
        unusedCommittedPages := self.unusedCommittedPages - 1 } := by
  have hcount := lazyPages_setSlot hslot page
  have hunused := h.1
  rw [if_pos rfl, if_neg hnew] at hcount
  refine ⟨by omega, ?_, (pageCount_setSlot page).trans_lt h.2⟩
  show self.unusedCommittedPages - 1 = (self.setSlot i page).lazyPages
  omega

theorem sharedZero_ne_lazyCommitted : PhysicalPage.sharedZero ≠ .lazyCommitted := by decide

/-- The slots and the counter have not changed. -/
def Same (self other : AnonymousVMObject) : Prop :=
  other.physicalPages = self.physicalPages ∧ other.unusedCommittedPages = self.unusedCommittedPages

theorem Same.counted {other : AnonymousVMObject} (h : Same self other) (hcounted : self.Counted) :
    other.Counted := by
  rw [Counted, lazyPages, pageCount, h.1, h.2]
  exact hcounted

/-! ## Loops over volatile ranges -/

/-- An invariant that the function keeps is kept by `for_each_volatile_range`. -/
theorem keeps_forEachVolatileRange {σ : Type} {ranges : σ → List VolatilePageRanges}
    {f : σ → VolatilePageRange → Except Failure (Bool × σ)} {I : σ → Prop} {s : σ}
    (hf : ∀ s range, I s → Keeps (fun r => I r.2) (f s range)) (hs : I s) :
    Keeps (fun r => I r.2) (forEachVolatileRange ranges f s) := by
  refine Ensures.forRange_invariant (fun s i hs => keeps_slot.bind fun purgeable _ => ?_) hs
  refine Ensures.forRange_invariant (fun s j hs => ?_) hs
  refine keeps_slot.bind fun _ _ => keeps_slot.bind fun r _ => ?_
  split
  next => exact hs
  next range _ =>
    split
    · exact hs
    · exact hf s range hs

/-- What has been removed from the counter, and the counter. -/
def RemovedFrom (total : ℕ) (s : ℕ × AnonymousVMObject) : Prop :=
  s.2.Counted ∧ s.1 + s.2.unusedCommittedPages = total

theorem keeps_removeLazyCommitPage {s : ℕ × AnonymousVMObject} (hs : RemovedFrom total s) :
    Keeps (fun r => RemovedFrom total r.2) (removeLazyCommitPage s i) := by
  refine keeps_slot.bind fun slot hslot => ?_
  split
  next hlazy =>
    subst hlazy
    obtain ⟨hpos, hcounted⟩ := hs.1.dropLazy hslot sharedZero_ne_lazyCommitted
    refine (ensures_require fun hzero => absurd hpos hzero).bind fun _ _ => ?_
    refine ⟨hcounted, ?_⟩
    have htotal := hs.2
    show s.1 + 1 + (s.2.unusedCommittedPages - 1) = total
    omega
  next => exact hs

variable (range : VolatilePageRange)

theorem keeps_removeLazyCommitPages (h : self.Counted) :
    Keeps (RemovedFrom self.unusedCommittedPages) (self.removeLazyCommitPages range) :=
  (Ensures.forRange_invariant (fun _ _ hs => keeps_removeLazyCommitPage hs)
    ⟨h, Nat.zero_add _⟩).bind fun _ hr => hr

/-- The pages that `range_made_volatile` uncommits are those that the counter loses. -/
theorem keeps_rangeMadeVolatile (h : self.Counted) :
    Keeps (RemovedFrom self.unusedCommittedPages) (self.rangeMadeVolatile range) := by
  unfold rangeMadeVolatile
  split
  · exact ⟨h, Nat.zero_add _⟩
  · have hloop : Keeps (fun r => RemovedFrom self.unusedCommittedPages r.2)
        (forEachVolatileRange (fun s => s.2.purgeableRanges) (removeLazyCommitPagesIn range)
          (0, self)) := by
      refine keeps_forEachVolatileRange (fun s r hs => ?_) ⟨h, Nat.zero_add _⟩
      simp only [removeLazyCommitPagesIn]
      split
      · exact hs
      · refine (keeps_removeLazyCommitPages _ hs.1).bind fun removed hremoved => ?_
        refine ⟨hremoved.1, ?_⟩
        have hcount := hremoved.2
        have htotal := hs.2
        show s.1 + removed.1 + removed.2.unusedCommittedPages = self.unusedCommittedPages
        omega
    exact hloop.bind fun r hr => hr

theorem keeps_addVolatileRange (k : ℕ) (range : VolatilePageRange) (fuel : ℕ) (h : self.Counted) :
    Keeps (RemovedFrom self.unusedCommittedPages) (self.addVolatileRange k range fuel) := by
  unfold addVolatileRange
  split
  · exact ⟨h, Nat.zero_add _⟩
  · refine keeps_slot.bind fun _ _ => keeps_slot.bind fun result _ => ?_
    obtain ⟨added, ranges⟩ := result
    cases added with
    | true =>
      have hset : (self.setPurgeable k ranges).Counted := h
      exact keeps_rangeMadeVolatile range hset
    | false => exact ⟨h, Nat.zero_add _⟩

/-! ## Pages that become non-volatile -/

/-- While pages are marked, the slots are ahead of the counter by the pages marked. -/
structure Marking (unused markTotal : ℕ) (s : ℕ × AnonymousVMObject) : Prop where
  unused_eq : s.2.unusedCommittedPages = unused
  lazy_eq : unused + s.1 = s.2.lazyPages
  pageCount_lt : s.2.pageCount < 2 ^ 32
  marked_le : s.1 ≤ markTotal

theorem keeps_cowMapGet : Keeps (fun _ => True) (self.cowMapGet i) := by
  unfold cowMapGet
  split
  · trivial
  · exact keeps_slot.mono fun _ _ => trivial

/-- A page that needs to be committed is the shared zero page. -/
theorem keeps_needsCommit :
    Keeps (fun needs => needs = true → self.physicalPages[i]? = some (some .sharedZero))
      (self.needsCommit i) := by
  refine keeps_cowMapGet.bind fun cow _ => ?_
  cases cow with
  | true => exact fun h => absurd h (by decide)
  | false =>
    refine keeps_slot.bind fun slot hslot => ?_
    intro hzero
    rw [hslot, of_decide_eq_true hzero]

theorem keeps_markCommittedPage {unused markTotal : ℕ} {s : ℕ × AnonymousVMObject}
    (hs : Marking unused markTotal s) (hlt : s.1 < markTotal) :
    Keeps (fun r => if r.1 then Marking unused markTotal r.2 ∧ r.2.1 < markTotal
      else Marking unused markTotal r.2) (markCommittedPage markTotal s i) := by
  refine keeps_needsCommit.bind fun needs hneeds => ?_
  cases needs with
  | false => exact ⟨hs, hlt⟩
  | true =>
    have hslot := hneeds rfl
    have hcount := lazyPages_setSlot hslot .lazyCommitted
    rw [if_neg (by decide), if_pos rfl] at hcount
    have hmarking : Marking unused markTotal (s.1 + 1, s.2.setSlot i .lazyCommitted) :=
      ⟨hs.unused_eq, by have := hs.lazy_eq; simp only; omega,
        (pageCount_setSlot _).trans_lt hs.pageCount_lt, hlt⟩
    show if decide (s.1 + 1 ≠ markTotal) = true then _ else _
    split
    next hne => exact ⟨hmarking, lt_of_le_of_ne hlt (of_decide_eq_true hne)⟩
    next => exact hmarking

/-- The counter grows by the pages marked, which are no more than was asked for. -/
theorem keeps_markCommittedPages (markTotal : ℕ) (h : self.Counted) :
    Keeps (fun r => r.2.Counted ∧ r.1 ≤ markTotal ∧
        r.2.unusedCommittedPages = self.unusedCommittedPages + r.1)
      (self.markCommittedPages range markTotal) := by
  refine keeps_require.bind fun _ _ => keeps_require.bind fun _ hpos => ?_
  have hinit : Marking self.unusedCommittedPages markTotal (0, self) :=
    ⟨rfl, h.1, h.2, Nat.zero_le _⟩
  refine (Ensures.forRange
    (I := fun _ s => Marking self.unusedCommittedPages markTotal s ∧ s.1 < markTotal)
    (J := Marking self.unusedCommittedPages markTotal)
    (fun s i _ hs => keeps_markCommittedPage hs.1 hs.2) ⟨hinit, hpos⟩).bind fun r hr => ?_
  have hmarking : Marking self.unusedCommittedPages markTotal r.2 := by
    split at hr
    · exact hr.1
    · exact hr
  have hle := @lazyPages_le r.2.2
  have hlt := hmarking.pageCount_lt
  have hlazy := hmarking.lazy_eq
  have hunused := hmarking.unused_eq
  have hsum : (r.2.2.unusedCommittedPages + r.2.1) % 2 ^ 32 =
      self.unusedCommittedPages + r.2.1 := by
    rw [hunused]
    exact Nat.mod_eq_of_lt (by omega)
  exact ⟨⟨hsum.trans hlazy, hlt⟩, hmarking.marked_le, hsum⟩

variable (ranges : List VolatilePageRange)

theorem keeps_markCommitted (pagesToMark : ℕ)
    (h : self.Counted) :
    Keeps (fun r => r.Counted ∧ r.unusedCommittedPages ≤ self.unusedCommittedPages + pagesToMark)
      (markCommitted ranges pagesToMark self) := by
  induction ranges generalizing pagesToMark self with
  | nil => exact ⟨h, Nat.le_add_right _ _⟩
  | cons range ranges ih =>
    refine (keeps_markCommittedPages range pagesToMark h).bind fun r hr => ?_
    obtain ⟨hcounted, hle, hunused⟩ := hr
    refine (ih (pagesToMark - r.1) hcounted).mono fun final hfinal => ⟨hfinal.1, ?_⟩
    omega

theorem keeps_markNeeded (need : ℕ) (h : self.Counted) :
    Keeps (fun r => r.Counted ∧ r.unusedCommittedPages ≤ self.unusedCommittedPages + need)
      (markNeeded ranges need self) := by
  unfold markNeeded
  split
  · exact keeps_markCommitted ranges need h
  · exact ⟨h, Nat.le_add_right _ _⟩

theorem keeps_countNeededCommitPages :
    Keeps (fun _ => True) (self.countNeededCommitPages range) := by
  refine keeps_require.bind fun _ _ => ?_
  refine (Ensures.forRange_invariant (I := fun _ => True) (fun _ _ _ => ?_) trivial).bind
    fun _ _ => trivial
  exact keeps_needsCommit.bind fun _ _ => trivial

theorem keeps_countNeeded :
    Keeps (fun _ => True) (self.countNeeded ranges) := by
  induction ranges with
  | nil => trivial
  | cons range ranges ih =>
    exact (keeps_countNeededCommitPages range).bind fun _ _ => ih.bind fun _ _ => trivial

/-- The counter grows by no more than the pages that are committed. -/
theorem keeps_removeVolatileRange (k : ℕ) (range : VolatilePageRange) (wasPurged commitOk : Bool)
    (fuel : ℕ) (h : self.Counted) :
    Keeps (fun r => r.2.Counted ∧ r.2.unusedCommittedPages ≤ self.unusedCommittedPages + r.1)
      (self.removeVolatileRange k range wasPurged commitOk fuel) := by
  unfold removeVolatileRange
  split
  · exact ⟨h, le_rfl⟩
  · refine keeps_slot.bind fun ranges _ => keeps_slot.bind fun intersecting _ => ?_
    refine (keeps_countNeeded intersecting).bind fun need _ => ?_
    split
    · exact ⟨h, le_rfl⟩
    · refine (keeps_markNeeded intersecting need h).bind fun marked hmarked => ?_
      refine keeps_slot.bind fun result _ => ?_
      obtain ⟨removed, -, ranges⟩ := result
      cases removed with
      | true => exact hmarked
      | false => exact keeps_require.bind fun _ _ => hmarked

/-! ## Purging and cloning -/

/-- A purge does not touch lazy-committed pages. -/
def Unpurged (unused : ℕ) (s : ℕ × AnonymousVMObject) : Prop :=
  s.2.Counted ∧ s.2.unusedCommittedPages = unused

theorem keeps_setWasPurged (fuel : ℕ) (range : VolatilePageRange) :
    Keeps self.Same (self.setWasPurged range fuel) :=
  keeps_slot.bind fun _ _ => ⟨rfl, rfl⟩

theorem keeps_purgeRange {unused : ℕ} {s : ℕ × AnonymousVMObject} (fuel : ℕ)
    (range : VolatilePageRange) (hs : Unpurged unused s) :
    Keeps (fun r => Unpurged unused r.2) (purgeRange fuel s range) := by
  have hloop : Keeps (fun r => Unpurged unused r.2)
      (forRange purgePage (range.endIndex - range.base) range.base (0, s.2)) := by
    refine Ensures.forRange_invariant (fun s i hs => ?_) hs
    refine keeps_slot.bind fun slot hslot => keeps_require.bind fun _ hne => ?_
    exact ⟨hs.1.setSlot hslot hne (by decide), hs.2⟩
  refine hloop.bind fun r hr => ?_
  obtain ⟨go, purged, object⟩ := r
  show Keeps _ (if purged > 0 then _ else _)
  split
  · refine (keeps_setWasPurged fuel range).bind fun object' hsame => ?_
    exact ⟨hsame.counted hr.1, hsame.2.trans hr.2⟩
  · exact hr

theorem keeps_purge (fuel : ℕ) (h : self.Counted) :
    Keeps (Unpurged self.unusedCommittedPages) (self.purge fuel) :=
  (keeps_forEachVolatileRange (fun _ range hs => keeps_purgeRange fuel range hs)
    ⟨h, rfl⟩).bind fun _ hr => hr

/-- The slots before `i` do not hold the lazy-committed page any more. -/
structure DroppedUpTo (pages i : ℕ) (object : AnonymousVMObject) : Prop where
  counted : object.Counted
  pageCount_eq : object.pageCount = pages
  dropped : ∀ j < i, object.physicalPages[j]? ≠ some (some .lazyCommitted)

theorem keeps_dropLazyCommitPage {pages : ℕ} {object : AnonymousVMObject}
    (h : DroppedUpTo pages i object) :
    Keeps (fun r => if r.1 then DroppedUpTo pages (i + 1) r.2
      else r.2.Counted ∧ r.2.unusedCommittedPages = 0) (dropLazyCommitPage object i) := by
  refine keeps_slot.bind fun slot hslot => ?_
  split
  next hlazy =>
    subst hlazy
    have hdrop := h.counted.dropLazy hslot sharedZero_ne_lazyCommitted
    have hpos := hdrop.1
    have hcounted := hdrop.2
    have hsub : sub32 object.unusedCommittedPages 1 = object.unusedCommittedPages - 1 := by
      have hle := @lazyPages_le object
      obtain ⟨hunused, hlt⟩ := h.counted
      exact sub32_eq_sub hpos (by omega)
    simp only [hsub]
    show if decide (object.unusedCommittedPages - 1 ≠ 0) = true then _ else _
    split
    next =>
      refine ⟨hcounted, (pageCount_setSlot _).trans h.pageCount_eq, fun j hj => ?_⟩
      rcases Nat.lt_succ_iff_lt_or_eq.mp hj with hj | rfl
      · have hother := h.dropped j hj
        simpa [setSlot, getElem?_set_ne hj.ne'] using hother
      · have hlen := (List.getElem?_eq_some_iff.mp hslot).1
        simp [setSlot, getElem?_set_self hlen]
    next hzero => exact ⟨hcounted, by simpa using hzero⟩
  next hother =>
    refine ⟨h.counted, h.pageCount_eq, fun j hj => ?_⟩
    rcases Nat.lt_succ_iff_lt_or_eq.mp hj with hj | rfl
    · exact h.dropped j hj
    · rw [hslot]
      simpa using hother

/-- After the loop no lazy-committed page is left. -/
theorem keeps_dropLazyCommitPages (h : self.Counted) :
    Keeps (fun r => r.Counted ∧ r.unusedCommittedPages = 0) self.dropLazyCommitPages := by
  unfold dropLazyCommitPages
  split
  next =>
    refine (Ensures.forRange (I := DroppedUpTo self.pageCount)
      (J := fun r => r.Counted ∧ r.unusedCommittedPages = 0)
      (fun s i _ hs => keeps_dropLazyCommitPage hs) ⟨h, rfl, by simp⟩).bind fun r hr => ?_
    have hzero : r.2.Counted ∧ r.2.unusedCommittedPages = 0 := by
      split at hr
      · -- All slots have been visited.
        refine ⟨hr.counted, hr.counted.1.trans (count_eq_zero.mpr fun hmem => ?_)⟩
        obtain ⟨j, hj, hslot⟩ := getElem_of_mem hmem
        refine hr.dropped j ?_ (List.getElem?_eq_some_iff.mpr ⟨hj, hslot⟩)
        rw [Nat.zero_add, ← hr.pageCount_eq]
        exact hj
      · exact hr
    exact (ensures_require fun hne => absurd hzero.2 hne).bind fun _ _ => hzero
  next hzero => exact ⟨h, Nat.eq_zero_of_not_pos hzero⟩

/-- The copy has no lazy-committed pages. -/
theorem keeps_copy (h : self.Counted) :
    Keeps (fun r => r.Counted ∧ r.unusedCommittedPages = 0) self.copy :=
  keeps_dropLazyCommitPages h

theorem keeps_allocateCommittedPage (h : self.Counted)
    (hslot : self.physicalPages[i]? = some (some .lazyCommitted)) (id : ℕ) :
    Keeps (fun r => (r.setSlot i (.page id)).Counted ∧
        r.unusedCommittedPages ≤ self.unusedCommittedPages) (self.allocateCommittedPage i) := by
  have hdrop := h.dropLazy hslot (show PhysicalPage.page id ≠ .lazyCommitted by simp)
  refine (ensures_require fun hzero => absurd hdrop.1 hzero).bind fun _ _ => ?_
  refine keeps_require.bind fun _ _ => ?_
  exact ⟨hdrop.2, Nat.sub_le _ _⟩

/-- What `handle_cow_fault` asks for does not concern the slots. -/
theorem keeps_forEachNonvolatileRange {σ : Type} (f : σ → VolatilePageRange → σ) (s : σ) :
    Keeps (fun _ => True) (self.forEachNonvolatileRange f s) := by
  have hloop : Keeps (fun _ => True) (forEachVolatileRange (fun _ => self.purgeableRanges)
      (fun s range => .ok (true, nonvolatileRangeBody f s range)) (0, s)) :=
    keeps_forEachVolatileRange (I := fun _ => True) (fun _ _ _ => trivial) trivial
  refine hloop.bind fun r _ => ?_
  show Keeps _ (if r.2.1 < self.pageCount then _ else _)
  split <;> trivial

theorem keeps_isNonvolatile : Keeps (fun r => self.Same r.2) (self.isNonvolatile i) := by
  have hrefresh : Keeps self.Same self.refreshVolatileCache := by
    unfold refreshVolatileCache
    split
    · exact keeps_require.bind fun _ _ =>
        (keeps_forEachNonvolatileRange _ _).bind fun _ _ => ⟨rfl, rfl⟩
    · exact ⟨rfl, rfl⟩
  exact hrefresh.bind fun _ hr => hr

theorem keeps_setShouldCow (cow : Bool) : Keeps self.Same (self.setShouldCow i cow) :=
  keeps_require.bind fun _ _ => ⟨rfl, rfl⟩

theorem keeps_clone (pool : ℕ) (commitOk : Bool) (h : self.Counted) :
    Keeps (fun r => ∀ object need copied, r = some (object, need, copied) →
        object.Counted ∧ object.unusedCommittedPages = self.unusedCommittedPages ∧
        copied.Counted ∧ copied.unusedCommittedPages = 0) (self.clone pool commitOk) := by
  refine (keeps_forEachNonvolatileRange _ _).bind fun need _ => ?_
  refine (ensures_require fun _ => by decide).bind fun _ _ => ?_
  split
  · have hcow : (self.becomeCow pool).Counted := h
    refine (keeps_copy hcow).bind fun copied hcopied => ?_
    rintro object need copied heq
    obtain ⟨rfl, rfl, rfl⟩ := heq
    exact ⟨h, rfl, hcopied⟩
  · exact fun _ _ _ h => absurd h (by simp)

end AnonymousVMObject

namespace System

open AnonymousVMObject

/-- The counter of the object agrees with its slots, and what the object has given back, together with
what its destructor would give back, is no more than it has committed. -/
structure PartyOk (party : Party) : Prop where
  counted : party.object.Counted
  returned_le : party.returned + party.object.unusedCommittedPages ≤ party.committed

/-- All parties are in order. -/
def CommitsOk (s : System) : Prop := ∀ party ∈ s.parties, PartyOk party

variable {s s' : System} {i pageIndex id : ℕ} {party : Party}

theorem CommitsOk.setParty (h : s.CommitsOk) (hparty : PartyOk party) :
    (s.setParty i party).CommitsOk := by
  intro other hother
  rcases mem_or_eq_of_mem_set hother with hother | rfl
  · exact h other hother
  · exact hparty

/-- The party of an operation. -/
theorem CommitsOk.keeps_party (h : s.CommitsOk) :
    Keeps (fun party => PartyOk party) (ofOption .other s.parties[i]?) :=
  keeps_slot.mono fun party hparty => h party (mem_of_getElem? hparty)

/-- The slots change, but not those of lazy-committed pages. -/
theorem PartyOk.congr {object : AnonymousVMObject} (h : PartyOk party) (hcounted : object.Counted)
    (hle : object.unusedCommittedPages ≤ party.object.unusedCommittedPages) :
    PartyOk { party with object } :=
  ⟨hcounted, (Nat.add_le_add_left hle _).trans h.returned_le⟩

theorem PartyOk.same {object : AnonymousVMObject} (h : PartyOk party)
    (hsame : party.object.Same object) : PartyOk { party with object } :=
  h.congr (hsame.counted h.counted) hsame.2.le

theorem keeps_takeCommittedCowPage {pool : ℕ} (h : s.CommitsOk) :
    Keeps (fun r => r.2.CommitsOk) (s.takeCommittedCowPage pool) :=
  keeps_slot.bind fun _ _ => (ensures_require fun _ => by decide).bind fun _ _ => h

theorem keeps_haveCommitted {object : AnonymousVMObject} :
    Keeps (fun r => object.Same r.2) (haveCommitted object pageIndex) := by
  unfold haveCommitted
  split
  · exact ⟨rfl, rfl⟩
  · exact keeps_isNonvolatile.bind fun _ hr => hr

section

variable (h : s.CommitsOk)

include h

theorem keeps_keepPage {committed : Option ℕ} (hparty : PartyOk party) :
    Keeps CommitsOk (s.keepPage i party pageIndex committed) := by
  refine (keeps_setShouldCow false).bind fun object hsame => ?_
  have hobject := hparty.same hsame
  cases committed with
  | none => exact h.setParty hobject
  | some pool =>
    refine (keeps_takeCommittedCowPage h).bind fun r hr => hr.setParty ?_
    split
    · exact hobject.same ⟨rfl, rfl⟩
    · exact hobject

theorem keeps_copyPageTo (hparty : PartyOk party)
    {slot : Option PhysicalPage} (hslot : party.object.physicalPages[pageIndex]? = some slot)
    (hne : slot ≠ some .lazyCommitted) : Keeps CommitsOk (s.copyPageTo i party pageIndex id) := by
  have hset : (party.object.setSlot pageIndex (.page id)).Counted :=
    hparty.counted.setSlot hslot hne (by simp)
  refine (keeps_setShouldCow false).bind fun object hsame => h.setParty ?_
  exact hparty.congr (hsame.counted hset) hsame.2.le

theorem keeps_handleCowFault {available : Bool} :
    Keeps CommitsOk (s.handleCowFault i pageIndex id available) := by
  refine h.keeps_party.bind fun party hparty => keeps_require.bind fun _ _ => ?_
  refine keeps_slot.bind fun slot hslot => keeps_slot.bind fun page hpage => ?_
  refine keeps_require.bind fun _ hspecial => keeps_require.bind fun _ _ => ?_
  refine keeps_haveCommitted.bind fun r hsame => ?_
  obtain ⟨committed, object⟩ := r
  have hobject := hparty.same hsame
  have hne : slot ≠ some .lazyCommitted := by
    rw [hpage]
    simpa using hspecial.2
  have hslot' : object.physicalPages[pageIndex]? = some slot := hsame.1 ▸ hslot
  show Keeps _ (if s.refCount page = 1 then _ else _)
  split
  · exact keeps_keepPage h hobject
  · unfold copyPage
    split
    · split
      · exact keeps_copyPageTo h hobject hslot' hne
      · exact h.setParty hobject
    · exact (keeps_takeCommittedCowPage h).bind fun r hr =>
        keeps_copyPageTo hr hobject hslot' hne

theorem keeps_clone {commitOk : Bool} : Keeps CommitsOk (s.clone i commitOk) := by
  refine h.keeps_party.bind fun party hparty => ?_
  refine (AnonymousVMObject.keeps_clone s.pools.length commitOk hparty.counted).bind fun r hr => ?_
  match r, hr with
  | none, _ => exact h
  | some (object, need, copied), hr =>
    obtain ⟨hobject, hsame, hcopied, hzero⟩ := hr object need copied rfl
    intro other hother
    rcases mem_append.mp hother with hother | hother
    · rcases mem_or_eq_of_mem_set hother with hother | rfl
      · exact h other hother
      · exact hparty.congr hobject hsame.le
    · rw [mem_singleton.mp hother]
      exact ⟨hcopied, by simp [hzero]⟩

theorem keeps_handleLazyFault : Keeps CommitsOk (s.handleLazyFault i pageIndex id) := by
  refine h.keeps_party.bind fun party hparty => keeps_require.bind fun _ hslot => ?_
  refine keeps_require.bind fun _ _ => ?_
  refine (keeps_allocateCommittedPage hparty.counted hslot id).bind fun object hobject => ?_
  exact h.setParty (hparty.congr hobject.1 hobject.2)

theorem keeps_handleZeroFault {id : Option ℕ} :
    Keeps CommitsOk (s.handleZeroFault i pageIndex id) := by
  refine h.keeps_party.bind fun party hparty => keeps_require.bind fun _ hslot => ?_
  refine keeps_require.bind fun _ _ => h.setParty (hparty.congr ?_ le_rfl)
  have hcount := (cons_set_perm hslot (id.map PhysicalPage.page)).count_eq
    (some .lazyCommitted)
  have hnew : id.map PhysicalPage.page ≠ some .lazyCommitted := by
    cases id <;> simp
  simp only [count_cons, beq_iff_eq, if_neg hnew] at hcount
  refine ⟨hparty.counted.1.trans hcount.symm, ?_⟩
  simpa [pageCount] using hparty.counted.2

/-- No operation fails with an assertion about the counter, and all parties stay in order. -/
theorem keeps_step (op : Op) : Keeps CommitsOk (s.step op) := by
  cases op with
  | create pages commitOk =>
    refine (ensures_require fun _ => by decide).bind fun _ _ => ?_
    split
    · intro party hparty
      rcases mem_append.mp hparty with hparty | hparty
      · exact h party hparty
      · rw [mem_singleton.mp hparty]
        refine ⟨⟨?_, ?_⟩, by simp [createWithSize]⟩
        · simp [createWithSize, lazyPages]
        · simpa [createWithSize, pageCount] using pages.toNat_lt
    · exact h
  | lazyFault i pageIndex id => exact keeps_handleLazyFault h
  | zeroFault i pageIndex id => exact keeps_handleZeroFault h
  | cowFault i pageIndex id available => exact keeps_handleCowFault h
  | register i _ | unregister i _ =>
    exact h.keeps_party.bind fun party hparty =>
      h.setParty (hparty.same ⟨rfl, rfl⟩)
  | makeVolatile i k range fuel =>
    refine h.keeps_party.bind fun party hparty => ?_
    refine (keeps_addVolatileRange k range fuel hparty.counted).bind fun r hr => h.setParty ?_
    refine ⟨hr.1, ?_⟩
    have hcount := hr.2
    have hle := hparty.returned_le
    show party.returned + r.1 + r.2.unusedCommittedPages ≤ party.committed
    omega
  | makeNonvolatile i k range wasPurged commitOk fuel =>
    refine h.keeps_party.bind fun party hparty => ?_
    refine (keeps_removeVolatileRange k range wasPurged commitOk fuel hparty.counted).bind
      fun r hr => h.setParty ⟨hr.1, ?_⟩
    have hle := hparty.returned_le
    show party.returned + r.2.unusedCommittedPages ≤ party.committed + r.1
    omega
  | purge i fuel =>
    refine h.keeps_party.bind fun party hparty => ?_
    exact (keeps_purge fuel hparty.counted).bind fun r hr =>
      h.setParty (hparty.congr hr.1 hr.2.le)
  | clone i commitOk => exact keeps_clone h
  | destroy i => exact fun party hparty => h party (mem_of_mem_eraseIdx hparty)

end

/-- One operation that completes. -/
def stepOption (s : System) (op : Op) : Option System := (s.step op).toOption

theorem step_eq_ok_of_stepOption {op : Op} (h : s.stepOption op = some s') :
    s.step op = .ok s' := by
  unfold stepOption at h
  cases hstep : s.step op with
  | error e => simp [hstep, Except.toOption] at h
  | ok u =>
    simp only [hstep, Except.toOption, Option.some.injEq] at h
    rw [h]

/-- **Lazily committed pages.** In every state that is reached, the counter of every object is the
number of its slots with the lazy-committed page, and what the object has given back, together with
what its destructor would give back, is no more than it has committed. No operation fails with an
assertion about the counter. -/
theorem unusedCommittedPages_eq_lazyPages {ops : List Op} {t : System}
    (hrun : run stepOption ⟨[], []⟩ ops = some t) :
    (∀ party ∈ t.parties, party.object.unusedCommittedPages = party.object.lazyPages ∧
      party.returned + party.object.unusedCommittedPages ≤ party.committed) ∧
    ∀ op, t.step op ≠ .error .unusedCommittedPages := by
  have ht : t.CommitsOk := by
    refine run_invariant (I := CommitsOk) (fun s op s' hs h => ?_) (by simp [CommitsOk]) hrun
    exact (keeps_step hs op).of_ok (step_eq_ok_of_stepOption h)
  refine ⟨fun party hparty => ⟨(ht party hparty).counted.1, (ht party hparty).returned_le⟩,
    fun op herror => ?_⟩
  exact (keeps_step ht op).not_bad herror rfl

/-- Two pages are created, the first is touched, the second is made volatile, and the object is
cloned. -/
theorem unusedCommittedPages_eq_lazyPages_two_pages :
    ∃ t, run stepOption ⟨[], []⟩ [.create 2 true, .lazyFault 0 0 7,
        .register 0 (.create ⟨0, 2, false⟩), .makeVolatile 0 0 ⟨1, 1, false⟩ 4, .clone 0 true] =
          some t ∧
      ∀ party ∈ t.parties, party.object.unusedCommittedPages = party.object.lazyPages ∧
        party.returned + party.object.unusedCommittedPages ≤ party.committed := by
  have heval : (run stepOption ⟨[], []⟩ [.create 2 true, .lazyFault 0 0 7,
      .register 0 (.create ⟨0, 2, false⟩), .makeVolatile 0 0 ⟨1, 1, false⟩ 4,
      .clone 0 true]).isSome = true := by
    decide +kernel
  obtain ⟨t, hrun⟩ := Option.isSome_iff_exists.mp heval
  exact ⟨t, hrun, (unusedCommittedPages_eq_lazyPages hrun).1⟩

end System

end Kernel
