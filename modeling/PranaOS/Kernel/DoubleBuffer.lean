import Mathlib.Tactic
import PranaOS.Kernel.KResult

/-!
# `Kernel/DoubleBuffer`

A pipe of bytes in two halves: bytes are written to the end of the write buffer and read from the
start of the read buffer, and a reader that finds the read buffer used up swaps the two. Together
the two halves are a queue (`contents`). How the queue is cut into halves shows in
`spaceForWriting`, which counts the write buffer only, and in `read`, which never goes past the
end of the read buffer.
-/

namespace Kernel

/-- `DoubleBuffer`. -/
structure DoubleBuffer where
  /-- `m_capacity`, the size of each half. -/
  capacity : ℕ
  /-- The bytes of `m_write_buffer`. -/
  writeBuffer : List UInt8
  /-- The bytes of `m_read_buffer` from `m_read_buffer_index` on. -/
  readBuffer : List UInt8
deriving DecidableEq, Repr

namespace DoubleBuffer

/-- `DoubleBuffer(capacity)`. -/
def create (capacity : ℕ) : DoubleBuffer where
  capacity := capacity
  writeBuffer := []
  readBuffer := []

/-- `is_empty`. -/
def isEmpty (self : DoubleBuffer) : Bool := self.readBuffer.isEmpty && self.writeBuffer.isEmpty

variable (self : DoubleBuffer)

/-- `space_for_writing`. -/
def spaceForWriting : ℕ := self.capacity - self.writeBuffer.length

/-- `write`. The storage is claimed before the bytes are copied to it, so a copy that fails
(`copied` is false) leaves the claimed bytes in the buffer; `data` is what they are then. -/
def write (data : List UInt8) (copied : Bool) :
    KResultOr ℕ × DoubleBuffer :=
  let bytesToWrite := min data.length self.spaceForWriting
  let self' := { self with writeBuffer := self.writeBuffer ++ data.take bytesToWrite }
  if data.length = 0 then (.ok 0, self)
  else if copied then (.ok bytesToWrite, self')
  else (.error .EFAULT, self')

/-- `flip`, as `read` calls it: if the read buffer is used up and the write buffer is not empty. -/
def flip : DoubleBuffer :=
  if self.readBuffer.isEmpty && !self.writeBuffer.isEmpty then
    { self with readBuffer := self.writeBuffer, writeBuffer := [] }
  else self

/-- `read`, as the bytes it hands to the caller. A failed copy is the negative number that the
function returns for it. -/
def read (size : ℕ) (copied : Bool) :
    KResultOr (List UInt8) × DoubleBuffer :=
  if size = 0 then (.ok [], self)
  else if self.flip.readBuffer.isEmpty then (.ok [], self.flip)
  else if copied then
    (.ok (self.flip.readBuffer.take size),
      { self.flip with readBuffer := self.flip.readBuffer.drop size })
  else (.error .EFAULT, self.flip)

/-- `peek`: what `read` hands out, without moving `m_read_buffer_index`. -/
def peek (size : ℕ) (copied : Bool) :
    KResultOr (List UInt8) × DoubleBuffer :=
  ((self.read size copied).1, self.flip)

/-- The bytes written and not yet read, oldest first. -/
def contents : List UInt8 := self.readBuffer ++ self.writeBuffer

/-- Reading `size` bytes takes the whole queue: one read takes one half at most. -/
def ReadsAll (size : ℕ) : Prop :=
  (self.readBuffer = [] ∨ self.writeBuffer = []) ∧ self.contents.length ≤ size
deriving Decidable

variable {self : DoubleBuffer} {data bytes : List UInt8} {size : ℕ} {copied : Bool}

/-- The buffer is empty if its queue is. -/
theorem isEmpty_iff : self.isEmpty = true ↔ self.contents = [] := by
  simp [isEmpty, contents]

theorem isEmpty_eq_false_iff : self.isEmpty = false ↔ self.contents ≠ [] := by
  rw [← Bool.not_eq_true, isEmpty_iff]

/-- Swapping the halves keeps the queue. -/
@[simp]
theorem contents_flip (self : DoubleBuffer) : self.flip.contents = self.contents := by
  unfold flip contents
  split
  next h =>
    simp only [Bool.and_eq_true, List.isEmpty_iff] at h
    simp [h.1]
  next => rfl

/-- After the swap the read buffer is used up only if there is nothing to read. -/
theorem readBuffer_flip_eq_nil_iff : self.flip.readBuffer = [] ↔ self.contents = [] := by
  unfold flip contents
  split
  next h =>
    simp only [Bool.and_eq_true, List.isEmpty_iff, Bool.not_eq_true'] at h
    simp [h.1]
  next h =>
    simp only [Bool.and_eq_true, List.isEmpty_iff, Bool.not_eq_true', List.isEmpty_eq_false_iff,
      not_and, ne_eq, not_not] at h
    constructor
    · intro hread
      simp [hread, h hread]
    · intro hcontents
      exact (List.append_eq_nil_iff.mp hcontents).1

/-- Written bytes are queued behind the others, as many as there is space for. -/
theorem contents_write :
    (self.write data copied).2.contents =
      self.contents ++ data.take (min data.length self.spaceForWriting) := by
  unfold write contents
  split
  next h => simp [List.length_eq_zero_iff.mp h]
  next => split <;> simp

@[simp]
theorem capacity_write : (self.write data copied).2.capacity = self.capacity := by
  unfold write
  split
  · rfl
  · split <;> rfl

@[simp]
theorem capacity_flip : self.flip.capacity = self.capacity := by
  unfold flip
  split <;> rfl

@[simp]
theorem capacity_read : (self.read size copied).2.capacity = self.capacity := by
  unfold read
  split_ifs <;> simp

/-- The bytes a reader gets are the oldest of the queue, and they leave it. -/
theorem append_contents_read (h : (self.read size copied).1 = .ok bytes) :
    bytes ++ (self.read size copied).2.contents = self.contents := by
  unfold read at h ⊢
  split_ifs at h ⊢
  · simp_all
  · simp_all
  · obtain rfl := Except.ok.inj h
    rw [← contents_flip self, contents, contents, ← List.append_assoc, List.take_append_drop]

/-- A reader that gets an error takes nothing. -/
theorem contents_read_of_error {e : Errno} (h : (self.read size copied).1 = .error e) :
    (self.read size copied).2.contents = self.contents := by
  unfold read at h ⊢
  split_ifs at h ⊢
  · simp

/-- Reading from a buffer that is not empty yields at least one byte. -/
theorem read_ne_nil (hne : self.contents ≠ []) (hsize : size ≠ 0)
    (h : (self.read size copied).1 = .ok bytes) : bytes ≠ [] := by
  have hread : self.flip.readBuffer ≠ [] := mt readBuffer_flip_eq_nil_iff.mp hne
  rw [read, if_neg hsize, if_neg (by simpa using hread)] at h
  split_ifs at h
  obtain rfl := Except.ok.inj h
  simp [hread, hsize]

/-- After the swap the write buffer is empty if one half was empty before. -/
theorem writeBuffer_flip_eq_nil_iff :
    self.flip.writeBuffer = [] ↔ self.readBuffer = [] ∨ self.writeBuffer = [] := by
  unfold flip
  split
  next h =>
    simp only [Bool.and_eq_true, List.isEmpty_iff] at h
    simp [h.1]
  next h =>
    simp only [Bool.and_eq_true, List.isEmpty_iff, Bool.not_eq_true', List.isEmpty_eq_false_iff,
      not_and, ne_eq, not_not] at h
    constructor
    · exact Or.inr
    · rintro (hread | hwrite)
      · exact h hread
      · exact hwrite

/-- A read leaves the buffer empty exactly if it takes the whole queue. -/
theorem isEmpty_read_iff (size : ℕ) (copied : Bool) (hne : self.isEmpty = false) :
    (self.read size copied).2.isEmpty = true ↔ copied = true ∧ self.ReadsAll size := by
  rw [isEmpty_eq_false_iff] at hne
  have hread : self.flip.readBuffer ≠ [] := mt readBuffer_flip_eq_nil_iff.mp hne
  rw [isEmpty_iff, ReadsAll]
  by_cases hsize : size = 0
  · simp [read, hsize, hne]
  · rw [read, if_neg hsize, if_neg (by simpa using hread)]
    by_cases hcopied : copied = true
    · rw [if_pos hcopied, contents, List.append_eq_nil_iff, List.drop_eq_nil_iff,
        writeBuffer_flip_eq_nil_iff]
      -- With one half empty, the queue is what the read buffer holds after the swap.
      have hflip : self.readBuffer = [] ∨ self.writeBuffer = [] →
          self.flip.readBuffer.length = self.contents.length := by
        intro h
        rw [← contents_flip, contents, writeBuffer_flip_eq_nil_iff.mpr h, List.append_nil]
      constructor
      · rintro ⟨hle, hhalf⟩
        exact ⟨hcopied, hhalf, (hflip hhalf).symm.trans_le hle⟩
      · rintro ⟨-, hhalf, hle⟩
        exact ⟨(hflip hhalf).trans_le hle, hhalf⟩
    · simp [hcopied, hne]

end DoubleBuffer

end Kernel
