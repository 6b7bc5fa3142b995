import PranaOS.AK.Assertions
import PranaOS.AK.StdLibExtras

/-!
# The reserved physical ranges of `Kernel/VM/MemoryManager`

`register_reserved_ranges` merges entries of the memory map that follow each other and are reserved
into one range, up to the next entry, and `is_allowed_to_mmap_to_userspace` looks up the range that a
mapping starts in. Gaps between the entries are part of the range, and the size of the mapping is
compared with that of the whole range, wherever in it the mapping starts. `allowsReservedOnly_iff` says
for which mappings this does no harm.
-/

namespace Kernel

open AK List

/-- `PhysicalMemoryRangeType`. -/
inductive PhysicalMemoryRangeType where
  | Usable
  | Reserved
  | ACPI_Reclaimable
  | ACPI_NVS
  | BadMemory
  | Unknown
deriving DecidableEq, Repr

/-- `PhysicalMemoryRange`, an entry of the memory map. -/
structure PhysicalMemoryRange where
  type : PhysicalMemoryRangeType
  start : ℕ
  length : ℕ
deriving DecidableEq, Repr

/-- `ContiguousReservedMemoryRange`. -/
structure ContiguousReservedMemoryRange where
  start : ℕ
  length : ℕ
deriving DecidableEq, Repr

namespace MemoryManager

/-- The loop of `register_reserved_ranges`: the ranges that it appends, and `range.start`, which is 0 if
it is null. -/
def registerLoop : List PhysicalMemoryRange → ℕ → List ContiguousReservedMemoryRange × ℕ
  | [], start => ([], start)
  | current :: rest, start =>
    if current.type ≠ .Reserved then
      if start = 0 then registerLoop rest 0
      else
        let (reserved, last) := registerLoop rest 0
        (⟨start, sub32 current.start start⟩ :: reserved, last)
    else registerLoop rest (if start ≠ 0 then start else current.start)

/-- The end of `register_reserved_ranges`, where `last` is the last entry. -/
def registerLast (last : PhysicalMemoryRange) :
    List ContiguousReservedMemoryRange × ℕ → List ContiguousReservedMemoryRange
  | (reserved, start) =>
    if last.type ≠ .Reserved then reserved
    else if start = 0 then reserved
    else reserved ++ [⟨start, sub32 ((last.start + last.length) % 2 ^ 32) start⟩]

/-- `register_reserved_ranges`, for `m_physical_memory_ranges`: returns `m_reserved_memory_ranges`. -/
def registerReservedRanges : List PhysicalMemoryRange → Option (List ContiguousReservedMemoryRange)
  | [] => none
  | first :: rest => some (registerLast (rest.getLastD first) (registerLoop (first :: rest) 0))

/-- The range is the one that is looked up for an address. -/
def isIn (startAddress : ℕ) (range : ContiguousReservedMemoryRange) : Bool :=
  decide (range.start ≤ startAddress) && decide ((range.start + range.length) % 2 ^ 32 > startAddress)

/-- `is_allowed_to_mmap_to_userspace`, for a range of `size` bytes. -/
def isAllowedToMmapToUserspace (reserved : List ContiguousReservedMemoryRange)
    (startAddress size : ℕ) : Option Bool := do
  verify (reserved ≠ [])
  match reserved.find? (isIn startAddress) with
  | none => return false
  | some current => return decide (¬current.length < size)

/-- The byte lies in an entry of type `Reserved`. -/
def ReservedAt (ranges : List PhysicalMemoryRange) (x : ℕ) : Prop :=
  ∃ range ∈ ranges, range.type = .Reserved ∧ range.start ≤ x ∧ x < range.start + range.length

/-- Only reserved bytes can be mapped by a mapping of `size` bytes from `startAddress` on. -/
def AllowsReservedOnly (ranges : List PhysicalMemoryRange) (startAddress size : ℕ) : Prop :=
  ∀ reserved, registerReservedRanges ranges = some reserved →
    isAllowedToMmapToUserspace reserved startAddress size = some true →
      ∀ x, startAddress ≤ x → x < startAddress + size → ReservedAt ranges x

/-! ## Stretches of reserved entries -/

/-- Where the reserved entries that follow `last` without another entry in between end: at the start of
the next entry, or at the end of the last one. -/
def stretchEnd (last : PhysicalMemoryRange) : List PhysicalMemoryRange → ℕ
  | [] => (last.start + last.length) % 2 ^ 32
  | next :: rest => if next.type = .Reserved then stretchEnd next rest else next.start

/-- A reserved entry with which a stretch begins that `range.start` can be set to. -/
def Begins (previous first : PhysicalMemoryRange) : Prop :=
  first.type = .Reserved ∧ first.start ≠ 0 ∧ (previous.type = .Reserved → previous.start = 0)

/-- Reserved entries that follow each other begin at `first` and end at `last`. The entry before them is
not reserved, or starts at 0; the first argument is the entry before all of the others. -/
def Stretch : PhysicalMemoryRange → List PhysicalMemoryRange → ℕ → ℕ → Prop
  | _, [], _, _ => False
  | previous, range :: rest, first, last =>
    (Begins previous range ∧ first = range.start ∧ last = stretchEnd range rest) ∨
      Stretch range rest first last

/-- There is nothing before the first entry. -/
def noRange : PhysicalMemoryRange := ⟨.Unknown, 0, 0⟩

variable {ranges rest : List PhysicalMemoryRange} {previous : PhysicalMemoryRange}
  {start size x first last first' last' : ℕ} {range : ContiguousReservedMemoryRange}

/-- What is registered behind an entry: the stretch that the entry belongs to, if `range.start` is not
null, and those that begin behind it. -/
theorem mem_register_iff (hsorted : (previous :: rest).Pairwise fun a b => a.start ≤ b.start)
    (hstart : start ≠ 0 → previous.type = .Reserved ∧ previous.start ≠ 0)
    (hnull : start = 0 → previous.type = .Reserved → previous.start = 0) :
    range ∈ registerLast (rest.getLastD previous) (registerLoop rest start) ↔
      (start ≠ 0 ∧ range = ⟨start, sub32 (stretchEnd previous rest) start⟩) ∨
        ∃ first last, Stretch previous rest first last ∧ range = ⟨first, sub32 last first⟩ := by
  induction rest generalizing previous start with
  | nil =>
    by_cases hzero : start = 0
    · simp [registerLoop, registerLast, hzero, Stretch]
    · simp [registerLoop, registerLast, hzero, Stretch, stretchEnd, (hstart hzero).1]
  | cons current rest ih =>
    obtain ⟨hle, hrest⟩ := pairwise_cons.mp hsorted
    have hle := hle current mem_cons_self
    -- a stretch begins with `current`, or behind it
    have hsplit : (∃ first last, Stretch previous (current :: rest) first last ∧
        range = ⟨first, sub32 last first⟩) ↔
        (Begins previous current ∧
          range = ⟨current.start, sub32 (stretchEnd current rest) current.start⟩) ∨
        ∃ first last, Stretch current rest first last ∧ range = ⟨first, sub32 last first⟩ := by
      simp only [Stretch, or_and_right, exists_or, and_assoc, exists_and_left, exists_eq_left]
    rw [hsplit, getLastD_cons, registerLoop, stretchEnd]
    by_cases hreserved : current.type = .Reserved
    · rw [if_neg (not_not.mpr hreserved), if_pos hreserved]
      by_cases hzero : start = 0
      · rw [if_neg (not_not.mpr hzero), ih hrest (fun h => ⟨hreserved, h⟩) (fun h _ => h)]
        have hbegins : Begins previous current ↔ current.start ≠ 0 :=
          ⟨fun h => h.2.1, fun h => ⟨hreserved, h, hnull hzero⟩⟩
        simp [hbegins, hzero]
      · have hnot : ¬Begins previous current := fun h => (hstart hzero).2 (h.2.2 (hstart hzero).1)
        rw [if_pos hzero, ih hrest (fun _ => ⟨hreserved, by have := (hstart hzero).2; omega⟩)
          fun h => absurd h hzero]
        simp [hnot]
    · have hnot : ¬Begins previous current := fun h => hreserved h.1
      have hlater := @ih current 0 hrest (fun h => absurd rfl h) fun _ h => absurd h hreserved
      rw [if_pos hreserved, if_neg hreserved]
      by_cases hzero : start = 0
      · rw [if_pos hzero, hlater]
        simp [hzero, hnot]
      · rw [if_neg hzero]
        have hcons : registerLast (rest.getLastD current)
            (⟨start, sub32 current.start start⟩ :: (registerLoop rest 0).1, (registerLoop rest 0).2) =
            ⟨start, sub32 current.start start⟩ ::
              registerLast (rest.getLastD current) (registerLoop rest 0) := by
          simp only [registerLast]
          split_ifs <;> rfl
        rw [hcons, mem_cons, hlater]
        simp [hzero, hnot]

theorem Stretch.start_le (hsorted : (previous :: ranges).Pairwise fun a b => a.start ≤ b.start)
    (h : Stretch previous ranges first last) : previous.start ≤ first := by
  induction ranges generalizing previous with
  | nil => exact h.elim
  | cons range rest ih =>
    obtain ⟨hle, hrest⟩ := pairwise_cons.mp hsorted
    rcases h with ⟨-, rfl, -⟩ | h
    · exact hle range mem_cons_self
    · exact (hle range mem_cons_self).trans (ih hrest h)

/-- A stretch ends before a later one begins. -/
theorem stretchEnd_le (hsorted : (previous :: rest).Pairwise fun a b => a.start ≤ b.start)
    (hreserved : previous.type = .Reserved) (hstart : previous.start ≠ 0)
    (h : Stretch previous rest first last) : stretchEnd previous rest ≤ first := by
  induction rest generalizing previous with
  | nil => exact h.elim
  | cons range rest ih =>
    obtain ⟨hle, hrest⟩ := pairwise_cons.mp hsorted
    have hle := hle range mem_cons_self
    rcases h with ⟨hbegins, -⟩ | h
    · exact absurd (hbegins.2.2 hreserved) hstart
    · rw [stretchEnd]
      split
      next hrange => exact ih hrest hrange (by omega) h
      next => exact h.start_le hrest

/-- An address lies in one stretch at most. -/
theorem Stretch.eq_of_mem (hsorted : ranges.Pairwise fun a b => a.start ≤ b.start)
    (h : Stretch previous ranges first last) (h' : Stretch previous ranges first' last')
    (hx : first ≤ x ∧ x < last) (hx' : first' ≤ x ∧ x < last') : first = first' ∧ last = last' := by
  induction ranges generalizing previous with
  | nil => exact h.elim
  | cons range rest ih =>
    rcases h with ⟨hbegins, rfl, rfl⟩ | h <;> rcases h' with ⟨hbegins', rfl, rfl⟩ | h'
    · exact ⟨rfl, rfl⟩
    · have := stretchEnd_le hsorted hbegins.1 hbegins.2.1 h'
      omega
    · have := stretchEnd_le hsorted hbegins'.1 hbegins'.2.1 h
      omega
    · exact ih (pairwise_cons.mp hsorted).2 h h'

theorem stretchEnd_lt (hlt : ∀ range ∈ rest, range.start < 2 ^ 32) :
    stretchEnd previous rest < 2 ^ 32 := by
  induction rest generalizing previous with
  | nil => exact Nat.mod_lt _ (by decide)
  | cons range rest ih =>
    obtain ⟨hrange, hrest⟩ := forall_mem_cons.mp hlt
    rw [stretchEnd]
    split
    · exact ih hrest
    · exact hrange

theorem Stretch.lt (hlt : ∀ range ∈ ranges, range.start < 2 ^ 32)
    (h : Stretch previous ranges first last) : first < 2 ^ 32 ∧ last < 2 ^ 32 := by
  induction ranges generalizing previous with
  | nil => exact h.elim
  | cons range rest ih =>
    obtain ⟨hrange, hrest⟩ := forall_mem_cons.mp hlt
    rcases h with ⟨-, rfl, rfl⟩ | h
    · exact ⟨hrange, stretchEnd_lt hrest⟩
    · exact ih hrest h

section

variable (hsorted : ranges.Pairwise fun a b => a.start ≤ b.start)
  (hlt : ∀ range ∈ ranges, range.start < 2 ^ 32) {reserved : List ContiguousReservedMemoryRange}
  (h : registerReservedRanges ranges = some reserved)

include hsorted hlt h

/-- The ranges that an address is looked up in are the stretches. -/
theorem mem_and_isIn_iff :
    range ∈ reserved ∧ isIn x range = true ↔
      ∃ first last, Stretch noRange ranges first last ∧ (first ≤ x ∧ x < last) ∧
        range = ⟨first, last - first⟩ := by
  have hmem : range ∈ reserved ↔
      ∃ first last, Stretch noRange ranges first last ∧ range = ⟨first, sub32 last first⟩ := by
    cases ranges with
    | nil => cases h
    | cons entry rest =>
      obtain rfl := Option.some.inj h
      have hsorted' : (noRange :: entry :: rest).Pairwise fun a b => a.start ≤ b.start :=
        pairwise_cons.mpr ⟨fun a _ => Nat.zero_le a.start, hsorted⟩
      have hiff := @mem_register_iff (entry :: rest) noRange 0 range hsorted'
        (fun h => absurd rfl h) fun _ _ => rfl
      rw [getLastD_cons] at hiff
      simpa using hiff
  have hisIn : ∀ first last, first < 2 ^ 32 → last < 2 ^ 32 →
      (isIn x ⟨first, sub32 last first⟩ = true ↔ first ≤ x ∧ x < last) := by
    intro first last hfirst hlast
    have hend : (first + sub32 last first) % 2 ^ 32 = last := by
      rw [sub32]
      omega
    simp only [isIn, hend, Bool.and_eq_true, decide_eq_true_eq, gt_iff_lt]
  rw [hmem]
  constructor
  · rintro ⟨⟨first, last, hstretch, rfl⟩, hin⟩
    obtain ⟨hfirst, hlast⟩ := hstretch.lt hlt
    have hx := (hisIn first last hfirst hlast).mp hin
    exact ⟨first, last, hstretch, hx, by rw [sub32_eq_sub (by omega) hlast]⟩
  · rintro ⟨first, last, hstretch, hx, rfl⟩
    obtain ⟨hfirst, hlast⟩ := hstretch.lt hlt
    rw [← sub32_eq_sub (hx.1.trans hx.2.le) hlast]
    exact ⟨⟨first, last, hstretch, rfl⟩, (hisIn first last hfirst hlast).mpr hx⟩

/-- A mapping that starts in a stretch and is not larger than it is allowed, and no other. -/
theorem allowed_iff :
    isAllowedToMmapToUserspace reserved start size = some true ↔
      ∃ first last, Stretch noRange ranges first last ∧ (first ≤ start ∧ start < last) ∧
        size ≤ last - first := by
  simp only [isAllowedToMmapToUserspace, verify_bind_eq_some]
  constructor
  · rintro ⟨-, hallowed⟩
    split at hallowed
    next => simp at hallowed
    next range hfind =>
      obtain ⟨first, last, hstretch, hin, rfl⟩ := (mem_and_isIn_iff hsorted hlt h).mp
        ⟨mem_of_find?_eq_some hfind, find?_some hfind⟩
      exact ⟨first, last, hstretch, hin, by simpa using hallowed⟩
  · rintro ⟨first, last, hstretch, hin, hsize⟩
    obtain ⟨hmem, hisIn⟩ := (mem_and_isIn_iff hsorted hlt h).mpr ⟨first, last, hstretch, hin, rfl⟩
    refine ⟨ne_nil_of_mem hmem, ?_⟩
    obtain ⟨range, hfind⟩ := Option.isSome_iff_exists.mp (find?_isSome.mpr ⟨_, hmem, hisIn⟩)
    -- the range that is found is the one of the stretch
    obtain ⟨first', last', hstretch', hin', rfl⟩ := (mem_and_isIn_iff hsorted hlt h).mp
      ⟨mem_of_find?_eq_some hfind, find?_some hfind⟩
    obtain ⟨rfl, rfl⟩ := hstretch.eq_of_mem hsorted hstretch' hin hin'
    simpa [hfind] using hsize

end

/-- Only reserved bytes can be mapped if and only if no stretch that is large enough, and that the
mapping starts in, leaves a byte of the mapping out: in a gap between its entries, or behind its end. -/
theorem allowsReservedOnly_iff (hsorted : ranges.Pairwise fun a b => a.start ≤ b.start)
    (hlt : ∀ range ∈ ranges, range.start < 2 ^ 32) :
    AllowsReservedOnly ranges start size ↔
      ∀ first last, Stretch noRange ranges first last → first ≤ start ∧ start < last →
        size ≤ last - first → ∀ x, start ≤ x → x < start + size → ReservedAt ranges x := by
  constructor
  · intro h first last hstretch hin hsize
    cases ranges with
    | nil => exact hstretch.elim
    | cons entry rest =>
      exact h _ rfl ((allowed_iff hsorted hlt rfl).mpr ⟨first, last, hstretch, hin, hsize⟩)
  · intro h reserved hreserved hallowed
    obtain ⟨first, last, hstretch, hin, hsize⟩ := (allowed_iff hsorted hlt hreserved).mp hallowed
    exact h first last hstretch hin hsize

/-- A memory map with a reserved page, a gap of one page, another reserved page and a usable one. -/
def gapMap : List PhysicalMemoryRange :=
  [⟨.Reserved, 0x1000, 0x1000⟩, ⟨.Reserved, 0x3000, 0x1000⟩, ⟨.Usable, 0x4000, 0x1000⟩]

theorem gapMap_first_page : AllowsReservedOnly gapMap 0x1000 0x1000 := by
  refine (allowsReservedOnly_iff (by decide) (by decide)).mpr fun _ _ _ _ _ x hlow hhigh => ?_
  exact ⟨⟨.Reserved, 0x1000, 0x1000⟩, by decide, rfl, hlow, hhigh⟩

/-- The page in the gap can be mapped, and the usable page can be mapped from the reserved one before
it. -/
theorem gapMap_allows_unreserved :
    (registerReservedRanges gapMap).bind (isAllowedToMmapToUserspace · 0x2000 0x1000) = some true ∧
      (registerReservedRanges gapMap).bind (isAllowedToMmapToUserspace · 0x3000 0x2000) = some true ∧
      ¬AllowsReservedOnly gapMap 0x2000 0x1000 ∧ ¬AllowsReservedOnly gapMap 0x3000 0x2000 := by
  refine ⟨by decide, by decide, fun h => ?_, fun h => ?_⟩
  · obtain ⟨range, hmem, hrange⟩ := h _ rfl (by decide) 0x2000 (by decide) (by decide)
    revert hrange
    fin_cases hmem <;> decide
  · obtain ⟨range, hmem, hrange⟩ := h _ rfl (by decide) 0x4000 (by decide) (by decide)
    revert hrange
    fin_cases hmem <;> decide

end MemoryManager

end Kernel
