import Mathlib.Data.Nat.Digits.Defs
import PranaOS.ToMathlib.Except

/-!
# `traverse_as_directory` in `Kernel/FileSystem/Ext2FileSystem`

The function goes through the records of a directory, which it has read into a buffer, by the lengths
that the records give for themselves. It checks none of these lengths: `traversesInside_iff` says for
which directories it comes to an end without leaving the buffer.
-/

namespace Kernel

open Except

namespace Ext2FSInode

/-- What keeps a traversal from ending with `KSuccess`. -/
inductive Stop where
  /-- A byte outside of the buffer is read. -/
  | outside
  /-- The loop has not ended yet. -/
  | running
deriving DecidableEq, Repr

/-- `FS::DirectoryEntryView`. -/
structure DirectoryEntryView where
  name : List (BitVec 8)
  inode : ℕ
  fileType : ℕ
deriving DecidableEq, Repr

variable (buffer : List (BitVec 8))

/-- The little-endian number in the `n` bytes at `offset`. -/
def number (offset n : ℕ) : ℕ :=
  Nat.ofDigits 256 (((buffer.drop offset).take n).map BitVec.toNat)

variable (offset : ℕ)

/-- `entry->inode` of the record at `offset`. -/
def inodeAt : ℕ := number buffer offset 4

/-- `entry->rec_len`. -/
def recLenAt : ℕ := number buffer (offset + 4) 2

/-- `entry->name_len`. -/
def nameLenAt : ℕ := number buffer (offset + 6) 1

/-- The bytes up to `bound` can be read. -/
def inside (bound : ℕ) : Except Stop Unit := require (bound ≤ buffer.length) .outside

/-- The entry that the callback gets, with its name, for the record at `offset`. -/
def entryAt : Except Stop DirectoryEntryView := do
  inside buffer (offset + 8)
  inside buffer (offset + 8 + nameLenAt buffer offset)
  return ⟨(buffer.drop (offset + 8)).take (nameLenAt buffer offset), inodeAt buffer offset,
    number buffer (offset + 7) 1⟩

/-- What `callback` returns for the record at `offset`. It may depend on the `entries` that it was
called with before. An unused record is skipped. -/
def visit (callback : List DirectoryEntryView → Bool) (offset : ℕ)
    (entries : List DirectoryEntryView) : Except Stop (Bool × List DirectoryEntryView) := do
  inside buffer (offset + 4)
  if inodeAt buffer offset ≠ 0 then
    let entry ← entryAt buffer offset
    return (callback (entries ++ [entry]), entries ++ [entry])
  else return (true, entries)

/-- `traverse_as_directory`, from the record at `offset` on. Returns the entries that `callback` was
called with. -/
def traverse (callback : List DirectoryEntryView → Bool) :
    ℕ → ℕ → List DirectoryEntryView → Except Stop (List DirectoryEntryView)
  | 0, _, _ => .error .running
  | fuel + 1, offset, entries =>
    if offset < buffer.length then do
      let (more, entries) ← visit buffer callback offset entries
      if more then
        inside buffer (offset + 6)
        traverse callback fuel (offset + recLenAt buffer offset) entries
      else return entries
    else return entries

/-- The traversal of the directory ends, and reads nothing outside of the buffer. -/
def TraversesInside : Prop :=
  ∀ callback, ∃ fuel entries, traverse buffer callback fuel 0 [] = .ok entries

/-- The offsets that the lengths of the records lead to. -/
inductive RecordAt : ℕ → Prop
  | first : RecordAt 0
  | next {offset : ℕ} : RecordAt offset → offset < buffer.length →
      RecordAt (offset + recLenAt buffer offset)

/-- A record with a length, which lies in the buffer as far as it is used. -/
structure RecordOk (buffer : List (BitVec 8)) (offset : ℕ) : Prop where
  advances : recLenAt buffer offset ≠ 0
  header : offset + 6 ≤ buffer.length
  entry : inodeAt buffer offset ≠ 0 → offset + 8 + nameLenAt buffer offset ≤ buffer.length

variable {buffer}

theorem inside_eq_ok {bound : ℕ} {u : Unit} : inside buffer bound = .ok u ↔ bound ≤ buffer.length :=
  require_eq_ok

/-- What has to lie in the buffer for a record to be visited. -/
theorem exists_visit_iff {callback : List DirectoryEntryView → Bool} {offset : ℕ}
    {entries : List DirectoryEntryView} :
    (∃ result, visit buffer callback offset entries = .ok result) ↔
      offset + 4 ≤ buffer.length ∧ (inodeAt buffer offset ≠ 0 →
        offset + 8 + nameLenAt buffer offset ≤ buffer.length) := by
  unfold visit
  split
  next hinode =>
    simp only [bind_eq_ok, inside_eq_ok, entryAt, hinode, ne_eq, not_false_eq_true, true_imp_iff]
    constructor
    · rintro ⟨_, _, hle, _, ⟨_, _, _, hentry, -⟩, -⟩
      exact ⟨hle, hentry⟩
    · rintro ⟨hle, hentry⟩
      exact ⟨_, (), hle, _, ⟨(), by omega, (), hentry, rfl⟩, rfl⟩
  next hinode =>
    simp only [bind_eq_ok, inside_eq_ok, hinode, false_imp_iff, and_true]
    exact ⟨fun ⟨_, _, hle, _⟩ => hle, fun hle => ⟨_, (), hle, rfl⟩⟩

/-- If all records are well-formed, the offsets increase until the end of the buffer is reached. -/
theorem exists_traverse (h : ∀ offset, RecordAt buffer offset → offset < buffer.length →
    RecordOk buffer offset) (callback : List DirectoryEntryView → Bool) {offset fuel : ℕ}
    (hrecord : RecordAt buffer offset) (hfuel : buffer.length - offset < fuel)
    (entries : List DirectoryEntryView) :
    ∃ result, traverse buffer callback fuel offset entries = .ok result := by
  induction fuel generalizing offset entries with
  | zero => omega
  | succ fuel ih =>
    rw [traverse]
    split
    next hlt =>
      have hok := h offset hrecord hlt
      have hheader := hok.header
      obtain ⟨⟨more, entries'⟩, hvisit⟩ : ∃ result, visit buffer callback offset entries = _ :=
        exists_visit_iff.mpr ⟨by omega, hok.entry⟩
      rw [hvisit]
      have hadvances := hok.advances
      cases more with
      | false => exact ⟨entries', rfl⟩
      | true =>
        obtain ⟨result, hresult⟩ := ih (hrecord.next hlt) (by omega) entries'
        exact ⟨result, by simp [bind, Except.bind, inside, require, hok.header, hresult]⟩
    next => exact ⟨entries, rfl⟩

/-- One iteration with a callback that does not end the traversal. -/
theorem next_of_traverse {offset fuel : ℕ} {entries result : List DirectoryEntryView}
    (hlt : offset < buffer.length)
    (h : traverse buffer (fun _ => true) (fuel + 1) offset entries = .ok result) :
    offset + 6 ≤ buffer.length ∧
      (inodeAt buffer offset ≠ 0 → offset + 8 + nameLenAt buffer offset ≤ buffer.length) ∧
        ∃ entries', traverse buffer (fun _ => true) fuel (offset + recLenAt buffer offset) entries' =
          .ok result := by
  rw [traverse, if_pos hlt, bind_eq_ok] at h
  obtain ⟨⟨more, entries'⟩, hvisit, h⟩ := h
  obtain ⟨-, hentry⟩ := exists_visit_iff.mp ⟨_, hvisit⟩
  have hmore : more = true := by
    unfold visit at hvisit
    split at hvisit <;> simp only [bind_eq_ok] at hvisit
    · obtain ⟨_, -, _, -, hvisit⟩ := hvisit
      exact (Prod.mk.inj (Except.ok.inj hvisit)).1.symm
    · obtain ⟨-, -, hvisit⟩ := hvisit
      exact (Prod.mk.inj (Except.ok.inj hvisit)).1.symm
  subst hmore
  simp only [if_true, bind_eq_ok, inside_eq_ok] at h
  obtain ⟨-, hheader, h⟩ := h
  exact ⟨hheader, hentry, entries', h⟩

/-- A traversal that has ended has found every record well-formed, since it stays forever at a record
of length 0. -/
theorem recordOk_of_traverse {offset fuel : ℕ} {entries result : List DirectoryEntryView}
    (hlt : offset < buffer.length)
    (h : traverse buffer (fun _ => true) fuel offset entries = .ok result) :
    RecordOk buffer offset := by
  have hadvances : recLenAt buffer offset ≠ 0 := by
    intro hzero
    induction fuel generalizing entries with
    | zero => cases h
    | succ fuel ih =>
      obtain ⟨-, -, entries', h⟩ := next_of_traverse hlt h
      rw [hzero, Nat.add_zero] at h
      exact ih h
  cases fuel with
  | zero => cases h
  | succ fuel =>
    obtain ⟨hheader, hentry, -⟩ := next_of_traverse hlt h
    exact ⟨hadvances, hheader, hentry⟩

/-- The traversal ends inside of the buffer, whatever the callback does, if and only if every record
that the lengths lead to has a length, and lies in the buffer with its name. -/
theorem traversesInside_iff :
    TraversesInside buffer ↔
      ∀ offset, RecordAt buffer offset → offset < buffer.length → RecordOk buffer offset := by
  refine ⟨fun h offset hrecord hlt => ?_, fun h callback => ?_⟩
  · have hreach : ∃ fuel entries result,
        traverse buffer (fun _ => true) fuel offset entries = .ok result := by
      induction hrecord with
      | first => exact (h _).imp fun fuel h => ⟨[], h⟩
      | next hrecord hbefore ih =>
        obtain ⟨fuel, entries, result, hresult⟩ := ih hbefore
        cases fuel with
        | zero => cases hresult
        | succ fuel =>
          obtain ⟨-, -, entries', hnext⟩ := next_of_traverse hbefore hresult
          exact ⟨fuel, entries', result, hnext⟩
    obtain ⟨fuel, entries, result, hresult⟩ := hreach
    exact recordOk_of_traverse hlt hresult
  · exact ⟨buffer.length + 1, exists_traverse h callback .first (by omega) []⟩

/-- In a block of zeroes, the first record has no length. -/
theorem not_traversesInside_zeroes : ¬TraversesInside (List.replicate 12 0) := by
  intro h
  obtain ⟨fuel, entries, htraverse⟩ := h fun _ => true
  exact (recordOk_of_traverse (by decide) htraverse).advances (by decide)

end Ext2FSInode

end Kernel
