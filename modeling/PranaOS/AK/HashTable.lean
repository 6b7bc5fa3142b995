import PranaOS.AK.HashFunctions
import PranaOS.ToMathlib.Except
import PranaOS.ToMathlib.Probing
import PranaOS.ToMathlib.Run

/-!
# `AK/HashTable.h`

A set in an array of buckets with open addressing. A value is looked for at the buckets that its hash
and the iterates of `double_hash` on it give modulo the capacity. Removed values leave a bucket that
is marked as deleted, and a table whose used and deleted buckets reach 60 per cent of the capacity is
moved to an array of twice the size.

`size_t` has 32 bits. Operations end with one of three errors of type `HashTable.Halt`:

* `verify`: an assertion fails;
* `invalidAccess`: a bucket outside the allocated array is accessed;
* `hang`: a loop does not end.

The loops of `lookup_with_hash` and `lookup_for_writing` have no state but the hash and the first bucket
that is not in use, and both are left at a bucket that only the hash chooses. A loop that has not ended
after `2 ^ 32` rounds has seen the buckets of all hashes it will ever see, and never ends.
-/

namespace AK

/-- What `HashTable` knows of its element type: `hash` and `equals` of `TraitsForT`, and the size of a
bucket. A bucket has three flags and room for a value of at least one byte. -/
structure Traits (α : Type) where
  /-- `TraitsForT::hash`. -/
  hash : α → BitVec 32
  /-- `TraitsForT::equals`. -/
  equals : α → α → Bool
  /-- `sizeof(Bucket)`. -/
  sizeofBucket : ℕ
  equals_refl : ∀ a, equals a a = true
  equals_symm : ∀ a b, equals a b = true → equals b a = true
  equals_trans : ∀ a b c, equals a b = true → equals b c = true → equals a c = true
  hash_eq_of_equals : ∀ a b, equals a b = true → hash a = hash b
  four_le_sizeofBucket : 4 ≤ sizeofBucket

/-- `Traits<u32>`. With its flags and padding, a bucket for a `u32` takes eight bytes. -/
def traitsU32 : Traits (BitVec 32) where
  hash := intHash
  equals a b := a == b
  sizeofBucket := 8
  equals_refl a := beq_self_eq_true a
  equals_symm a b h := by rwa [beq_iff_eq, eq_comm, ← beq_iff_eq]
  equals_trans a b c h h' := by rw [beq_iff_eq] at *; exact h.trans h'
  hash_eq_of_equals a b h := by rw [beq_iff_eq.mp h]
  four_le_sizeofBucket := by decide

/-- `HashSetResult`. -/
inductive HashSetResult
  | insertedNewEntry
  | replacedExistingEntry
  deriving DecidableEq

namespace HashTable

/-- Why an operation does not complete. -/
inductive Halt
  | verify
  | invalidAccess
  | hang
  deriving DecidableEq

/-- `Bucket`. The slot holds a value exactly while `used` is set. -/
structure Bucket (α : Type) where
  deleted : Bool := false
  /-- `end`. -/
  isEnd : Bool := false
  slot : Option α := none
  deriving DecidableEq

/-- `used`. -/
def Bucket.used {α : Type} (bucket : Bucket α) : Bool := bucket.slot.isSome

/-- The load factor of 60 per cent, as `should_grow` tests it with `used` buckets in use or deleted. -/
def growsAt (used capacity : ℕ) : Bool :=
  decide ((used + 1) * 100 % 2 ^ 32 ≥ capacity * 60 % 2 ^ 32)

end HashTable

open HashTable

/-- `HashTable`. The list of buckets is empty while `m_buckets` is null. -/
structure HashTable (α : Type) where
  buckets : List (Bucket α) := []
  size : ℕ := 0
  capacity : ℕ := 0
  deletedCount : ℕ := 0
  deriving DecidableEq

namespace HashTable

variable {α : Type} (traits : Traits α) (self : HashTable α)

/-- `is_empty`. -/
def isEmpty : Bool := self.size == 0

/-- `used_bucket_count`. -/
def usedBucketCount : ℕ := (self.size + self.deletedCount) % 2 ^ 32

/-- `should_grow`. -/
def shouldGrow : Bool := growsAt self.usedBucketCount self.capacity

/-! ## Lookup -/

/-- The loop of `lookup_with_hash`. -/
def lookupLoop (finder : α → Bool) : ℕ → BitVec 32 → Except Halt (Option ℕ)
  | 0, _ => .error .hang
  | rounds + 1, hash =>
    match self.buckets[hash.toNat % self.capacity]? with
    | none => .error .invalidAccess
    | some bucket =>
      if bucket.slot.any finder then .ok (some (hash.toNat % self.capacity))
      else if !bucket.used && !bucket.deleted then .ok none
      else lookupLoop finder rounds (doubleHash hash)

/-- `lookup_with_hash`, as the index of the bucket it finds. -/
def lookupWithHash (hash : BitVec 32) (finder : α → Bool) : Except Halt (Option ℕ) :=
  if self.isEmpty then .ok none else self.lookupLoop finder (2 ^ 32) hash

/-- `find`. -/
def find (value : α) : Except Halt (Option ℕ) :=
  self.lookupWithHash (traits.hash value) fun other => traits.equals value other

/-- `contains`. -/
def contains (value : α) : Except Halt Bool := do
  let iterator ← self.find traits value
  return iterator.isSome

/-- The loop of `lookup_for_writing`. -/
def writingLoop (value : α) : ℕ → BitVec 32 → Option ℕ → Except Halt ℕ
  | 0, _, _ => .error .hang
  | rounds + 1, hash, firstEmptyBucket =>
    match self.buckets[hash.toNat % self.capacity]? with
    | none => .error .invalidAccess
    | some bucket =>
      if bucket.slot.any (traits.equals · value) then .ok (hash.toNat % self.capacity)
      else if bucket.used then writingLoop value rounds (doubleHash hash) firstEmptyBucket
      else
        let firstEmptyBucket := firstEmptyBucket.getD (hash.toNat % self.capacity)
        if !bucket.deleted then .ok firstEmptyBucket
        else writingLoop value rounds (doubleHash hash) (some firstEmptyBucket)

/-- The first statement of `lookup_for_writing`, with `rehash` for the function that moves the table to
another capacity. -/
def growWith (rehash : HashTable α → ℕ → Except Halt (HashTable α)) : Except Halt (HashTable α) :=
  if self.shouldGrow then rehash self (self.capacity * 2 % 2 ^ 32) else .ok self

/-- `lookup_for_writing`. It returns the table, which may have grown, and the index of a bucket. -/
def lookupForWritingWith (rehash : HashTable α → ℕ → Except Halt (HashTable α)) (value : α) :
    Except Halt (HashTable α × ℕ) := do
  let self ← self.growWith rehash
  let index ← self.writingLoop traits value (2 ^ 32) (traits.hash value) none
  return (self, index)

/-- The value is put into the slot of a bucket, which becomes used. -/
def setSlot (index : ℕ) (value : α) : HashTable α :=
  { self with buckets := self.buckets.modify index fun bucket => { bucket with slot := some value } }

/-- `insert_during_rehash`. -/
def insertDuringRehash (rehash : HashTable α → ℕ → Except Halt (HashTable α)) (value : α) :
    Except Halt (HashTable α) := do
  let (self, index) ← self.lookupForWritingWith traits rehash value
  return self.setSlot index value

/-- The array that `rehash` allocates. The block has room for as many buckets as the wrapped size says,
and the last one is marked as the end. -/
def allocate (newCapacity : ℕ) : Except Halt (HashTable α) :=
  let buckets := List.replicate
    (traits.sizeofBucket * (newCapacity + 1) % 2 ^ 32 / traits.sizeofBucket) {}
  if newCapacity < buckets.length then
    .ok { self with
      buckets := buckets.set newCapacity { isEnd := true }
      capacity := newCapacity
      deletedCount := 0 }
  else .error .invalidAccess

/-- `rehash`. Inserting a value can make the table grow again, up to `depth` times inside one
another. -/
def rehash : ℕ → HashTable α → ℕ → Except Halt (HashTable α)
  | 0, _, _ => .error .hang
  | depth + 1, self, newCapacity => do
    let moved ← self.allocate traits (max newCapacity 4)
    (self.buckets.take self.capacity).foldlM (fun moved oldBucket =>
      match oldBucket.slot with
      | some value => moved.insertDuringRehash traits (rehash depth) value
      | none => pure moved) moved

/-- How often growing can be nested: the capacity doubles each time, and the address space has no room
for `2 ^ 30` buckets. -/
def maxDepth : ℕ := 32

/-- `lookup_for_writing`, with `rehash` itself. -/
def lookupForWriting (value : α) : Except Halt (HashTable α × ℕ) :=
  self.lookupForWritingWith traits (rehash traits maxDepth) value

/-! ## The operations -/

/-- The flags and counts of a bucket that comes into use. -/
def insertAt (index : ℕ) (deleted : Bool) (value : α) : HashTable α :=
  { buckets := self.buckets.modify index fun bucket =>
      { bucket with slot := some value, deleted := false }
    size := (self.size + 1) % 2 ^ 32
    capacity := self.capacity
    deletedCount := if deleted then (self.deletedCount + 2 ^ 32 - 1) % 2 ^ 32 else self.deletedCount }

/-- `set`. -/
def set (value : α) : Except Halt (HashTable α × HashSetResult) := do
  let (self, index) ← self.lookupForWriting traits value
  match self.buckets[index]? with
  | none => .error .invalidAccess
  | some bucket =>
    if bucket.used then return (self.setSlot index value, .replacedExistingEntry)
    else return (self.insertAt index bucket.deleted value, .insertedNewEntry)

/-- The flags and counts of a bucket whose value is taken out. -/
def eraseAt (index : ℕ) : HashTable α :=
  { buckets := self.buckets.modify index fun bucket => { bucket with slot := none, deleted := true }
    size := (self.size + 2 ^ 32 - 1) % 2 ^ 32
    capacity := self.capacity
    deletedCount := (self.deletedCount + 1) % 2 ^ 32 }

/-- `remove(Iterator)`, for the bucket the iterator points to. -/
def removeAt (iterator : Option ℕ) : Except Halt (HashTable α) :=
  match iterator with
  | none => .error .verify
  | some index =>
    match self.buckets[index]? with
    | none => .error .invalidAccess
    | some bucket =>
      if bucket.used ∧ ¬bucket.isEnd ∧ ¬bucket.deleted then .ok (self.eraseAt index)
      else .error .verify

/-- `remove(const T&)`. -/
def remove (value : α) : Except Halt (HashTable α × Bool) := do
  match ← self.find traits value with
  | some index => return (← self.removeAt (some index), true)
  | none => return (self, false)

/-- `ensure_capacity`. -/
def ensureCapacity (capacity : ℕ) : Except Halt (HashTable α) :=
  if capacity ≥ self.size then rehash traits maxDepth self (capacity * 2 % 2 ^ 32)
  else .error .verify

/-! ## Iteration -/

/-- `begin`, as the index of a bucket. -/
def beginIndex : Option ℕ :=
  (List.range self.capacity).find? fun i => (self.buckets[i]?).any Bucket.used

/-- The loop of `skip_to_next`, from the buckets behind the one the iterator points to. -/
def skipToNext : List (Bucket α) → ℕ → Except Halt (Option ℕ)
  | [], _ => .error .invalidAccess
  | bucket :: rest, index =>
    if bucket.used then .ok (some index)
    else if bucket.isEnd then .ok none
    else skipToNext rest (index + 1)

/-- The values that a loop from `iterator` to `end()` visits. -/
def visit : ℕ → Option ℕ → Except Halt (List α)
  | _, none => .ok []
  | 0, some _ => .error .hang
  | rounds + 1, some index =>
    match self.buckets[index]?.bind Bucket.slot with
    | none => .error .invalidAccess
    | some value => do
      let next ← skipToNext (self.buckets.drop (index + 1)) (index + 1)
      let rest ← visit rounds next
      return value :: rest

/-- The values that `for (auto& it : table)` visits. -/
def values : Except Halt (List α) := self.visit (self.capacity + 1) self.beginIndex

/-- `HashTable(const HashTable&)`. -/
def copy : Except Halt (HashTable α) := do
  let table ← rehash traits maxDepth {} self.capacity
  let values ← self.values
  values.foldlM (fun table value => Prod.fst <$> table.set traits value) table

end HashTable

end AK
