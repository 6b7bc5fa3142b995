import Mathlib.Order.Interval.Set.Basic
import PranaOS.AK.Assertions
import PranaOS.ToMathlib.Tiling

/-!
# `Kernel/VM/Range`

A range of virtual addresses, given by its base and its size. Addresses are 32-bit, so the end of
a range is computed modulo `2 ^ 32`; `Range.addresses` is the set of addresses that a range
stands for.

`Range.carve` cuts a range out of another one. `multiplicity_remainder` says what its result is:
the parts and the range that was taken cover each address of the whole exactly as often as the
whole does.
-/

namespace Kernel

open AK Tiling

/-- `PAGE_SIZE`. -/
def pageSize : ℕ := 4096

/-- `class Range`. -/
@[ext]
structure Range where
  base : ℕ
  size : ℕ
deriving DecidableEq, Repr

namespace Range

variable (self : Range)

/-- `Range::end`: `m_base.offset(m_size)`, which wraps at `2 ^ 32`. -/
def endAddr : ℕ := (self.base + self.size) % 2 ^ 32

/-- `Range::contains(VirtualAddress)`. -/
def containsAddress (vaddr : ℕ) : Bool :=
  decide (vaddr ≥ self.base ∧ vaddr < self.endAddr)

/-- `Range::contains(base, size)`, also used for `Range::contains(const Range&)`. -/
def contains (self other : Range) : Bool :=
  if other.endAddr < other.base then false
  else decide (other.base ≥ self.base ∧ other.endAddr ≤ self.endAddr)

/-- `Range::carve`: what is left of a range when `taken` is cut out of it. -/
def carve (self taken : Range) : Option (List Range) := do
  verify (taken.size % pageSize = 0)
  if taken = self then return []
  let left := if taken.base > self.base then [⟨self.base, taken.base - self.base⟩] else []
  let right :=
    if taken.endAddr < self.endAddr then [⟨taken.endAddr, self.endAddr - taken.endAddr⟩] else []
  return left ++ right

/-- `Range::intersect`. -/
def intersect (self other : Range) : Option Range := do
  if self = other then return self
  let newBase := max self.base other.base
  let newEnd := min self.endAddr other.endAddr
  verify (newBase < newEnd)
  return ⟨newBase, newEnd - newBase⟩

/-! ## The addresses of a range -/

/-- The addresses that a range stands for. -/
def addresses : Set ℕ := Set.Ico self.base (self.base + self.size)

instance  : DecidablePred (· ∈ self.addresses) :=
  fun x => inferInstanceAs (Decidable (x ∈ Set.Ico _ _))

variable {self a b taken : Range}

@[simp]
theorem mem_addresses {x : ℕ} :
    x ∈ self.addresses ↔ self.base ≤ x ∧ x < self.base + self.size := Iff.rfl

/-- `self` encloses `other`, with no wrapping involved. -/
def Encloses (self other : Range) : Prop :=
  self.base ≤ other.base ∧ other.base + other.size ≤ self.base + self.size

instance (self other : Range) : Decidable (self.Encloses other) :=
  inferInstanceAs (Decidable (_ ∧ _))

theorem Encloses.trans {c : Range} (hab : a.Encloses b) (hbc : b.Encloses c) :
    a.Encloses c :=
  ⟨hab.1.trans hbc.1, hbc.2.trans hab.2⟩

/-- Of two disjoint ranges that are not empty, one lies below the other. -/
theorem le_or_le_of_disjoint (ha : 0 < a.size) (hb : 0 < b.size)
    (h : Disjoint a.addresses b.addresses) :
    a.base + a.size ≤ b.base ∨ b.base + b.size ≤ a.base := by
  by_contra hcon
  -- the higher of the two bases is in both
  have hboth : max a.base b.base ∈ a.addresses ∧ max a.base b.base ∈ b.addresses := by
    rw [mem_addresses, mem_addresses]
    omega
  exact Set.disjoint_left.mp h hboth.1 hboth.2

theorem endAddr_eq (h : self.base + self.size < 2 ^ 32) :
    self.endAddr = self.base + self.size :=
  Nat.mod_eq_of_lt h

theorem endAddr_lt (self : Range) : self.endAddr < 2 ^ 32 := Nat.mod_lt _ (by decide)

/-- What `contains` says of a non-empty range whose bounds are 32-bit values: it does not wrap,
and it is enclosed. A total range that ends at `2 ^ 32` contains no such range. -/
theorem contains_iff {other : Range} (hself : self.base + self.size ≤ 2 ^ 32)
    (hbase : other.base < 2 ^ 32) (hsize : other.size < 2 ^ 32) (hpos : 0 < other.size) :
    self.contains other = true ↔
      self.base + self.size < 2 ^ 32 ∧ self.Encloses other := by
  unfold contains Encloses endAddr
  split
  next h => simp only [Bool.false_eq_true, false_iff]; omega
  next h => simp only [decide_eq_true_eq]; omega

/-! ## Cutting -/

/-- The parts of `self` on both sides of `taken`. -/
def remainder (self taken : Range) : List Range :=
  (if self.base < taken.base then [⟨self.base, taken.base - self.base⟩] else []) ++
    if taken.base + taken.size < self.base + self.size then
      [⟨taken.base + taken.size, self.base + self.size - (taken.base + taken.size)⟩]
    else []

/-- Cutting out an enclosed range leaves the parts on both sides of it. -/
theorem carve_eq_some {parts : List Range} (h : self.Encloses taken)
    (hself : self.base + self.size < 2 ^ 32) (hcarve : self.carve taken = some parts) :
    parts = self.remainder taken := by
  have hend : self.endAddr = self.base + self.size := endAddr_eq hself
  have htaken : taken.endAddr = taken.base + taken.size := endAddr_eq (h.2.trans_lt hself)
  unfold carve at hcarve
  rw [verify_bind_eq_some] at hcarve
  split at hcarve
  next heq =>
    simp_all [remainder]
  next => simp_all [remainder]

/-- The parts of a cut lie inside the whole and are not empty. -/
theorem of_mem_remainder {part : Range} (h : self.Encloses taken)
    (hpart : part ∈ self.remainder taken) : self.Encloses part ∧ 0 < part.size := by
  unfold remainder at hpart
  obtain ⟨hl, hr⟩ := h
  rw [List.mem_append] at hpart
  rcases hpart with hpart | hpart <;> split at hpart
  · rw [List.mem_singleton] at hpart
    subst hpart
    constructor <;> simp only [Encloses] <;> omega
  · simp at hpart
  · rw [List.mem_singleton] at hpart
    subst hpart
    constructor <;> simp only [Encloses] <;> omega
  · simp at hpart

/-- The parts and the range cut out cover each address as often as the whole. -/
theorem multiplicity_remainder (h : self.Encloses taken) (x : ℕ) :
    multiplicity addresses (self.remainder taken) x + multiplicity addresses [taken] x =
      multiplicity addresses [self] x := by
  obtain ⟨hl, hr⟩ := h
  simp only [remainder, multiplicity_append]
  split <;> split <;> simp only [multiplicity_cons, multiplicity_nil, mem_addresses] <;>
    split_ifs <;> omega

/-- Joining two ranges, the second of which starts at the end of the first. -/
theorem multiplicity_join (h : a.base + a.size = b.base) (x : ℕ) :
    multiplicity addresses [⟨a.base, a.size + b.size⟩] x =
      multiplicity addresses [a, b] x := by
  simp only [multiplicity_cons, multiplicity_nil, mem_addresses]
  split_ifs <;> omega

end Range

end Kernel
