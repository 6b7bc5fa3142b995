import Mathlib.Data.Nat.Bitwise
import PranaOS.ToMathlib.OnesComplement

/-!
# `Kernel/Net/IPv4.h`: the internet checksum

`internet_checksum` adds up the words of a buffer. A byte at the end of a buffer of odd length is not
added, and a sum that reaches `2 ^ 31` is folded with an `or` in place of an addition. The value
therefore is the checksum of the buffer only as far as these two errors cancel
(`internetChecksum_verifies_iff`).
-/

namespace Kernel

open OnesComplement Nat

/-- One round of the first loop of `internet_checksum`. -/
def checksumStep (checksum word : ℕ) : ℕ :=
  let checksum := (checksum + word) % 2 ^ 32
  if checksum &&& 0x80000000 ≠ 0 then (checksum &&& 0xffff) ||| (checksum >>> 16) else checksum

/-- The first loop of `internet_checksum`, which goes on while there are two bytes. -/
def checksumLoop : ℕ → List UInt8 → ℕ
  | checksum, high :: low :: rest =>
    checksumLoop (checksumStep checksum (high.toNat * 256 + low.toNat)) rest
  | checksum, _ => checksum

/-- The second loop of `internet_checksum`. -/
def foldLoop (checksum : ℕ) : ℕ :=
  if checksum >>> 16 = 0 then checksum else foldLoop ((checksum &&& 0xffff) + (checksum >>> 16))
termination_by checksum
decreasing_by
  rw [Nat.and_two_pow_sub_one_eq_mod checksum 16, Nat.shiftRight_eq_div_pow] at *
  omega

/-- `internet_checksum`. -/
def internetChecksum (bytes : List UInt8) : ℕ :=
  (2 ^ 32 - 1 - foldLoop (checksumLoop 0 bytes)) &&& 0xffff

/-- The bytes of a 16-bit field, the more significant one first. -/
def networkOrdered (value : ℕ) : List UInt8 := [.ofNat (value / 256), .ofNat value]

/-- The bytes of a 32-bit field, the more significant ones first. -/
def networkOrdered32 (value : BitVec 32) : List UInt8 :=
  networkOrdered (value.toNat / 2 ^ 16) ++ networkOrdered value.toNat

/-- The one's complement sum of all the words is all ones. -/
def ChecksumValid (bytes : List UInt8) : Prop := sumFrom 0 (words bytes) = 0xffff

/-- The buffer becomes valid if the checksum is inserted in a field that is zero. -/
def Verifies (front back : List UInt8) : Prop :=
  ChecksumValid (front ++ networkOrdered (internetChecksum (front ++ [0, 0] ++ back)) ++ back)

/-! ## What is lost -/

/-- The byte behind the words that are added. -/
def oddByte : List UInt8 → UInt8
  | [] => 0
  | [byte] => byte
  | _ :: _ :: rest => oddByte rest

/-- The number of times that a sum of words reaches `2 ^ 31` with its bit 15 set: this is the bit
that is not added to itself. -/
def lostCarries : ℕ → List UInt8 → ℕ
  | sum, high :: low :: rest =>
    let sum := sum + (high.toNat * 256 + low.toNat)
    if sum < 2 ^ 31 then lostCarries sum rest
    else if sum % 2 ^ 16 < 2 ^ 15 then lostCarries (sum % 2 ^ 16 + 2 ^ 15) rest
    else lostCarries (sum % 2 ^ 16) rest + 1
  | _, _ => 0

/-- Setting bit 15 adds it, unless it is set. -/
theorem or_two_pow_fifteen {low : ℕ} (h : low < 2 ^ 16) :
    low ||| 2 ^ 15 = if low < 2 ^ 15 then low + 2 ^ 15 else low := by
  have hor : ∀ rest < 2 ^ 15, 2 ^ 15 + rest = 2 ^ 15 ||| rest := fun rest hrest => by
    simpa using two_pow_add_eq_or_of_lt hrest 1
  split
  next hlt => rw [Nat.or_comm, ← hor low hlt, Nat.add_comm]
  next hge =>
    obtain ⟨rest, rfl⟩ := Nat.exists_eq_add_of_le (not_lt.mp hge)
    rw [hor rest (by omega), Nat.or_comm, ← Nat.or_assoc, Nat.or_self]

variable {sum word : ℕ} {bytes front back : List UInt8}

/-- A round of the loop adds a word, and folds the sum if it has become too large. -/
theorem checksumStep_eq (hsum : sum < 2 ^ 31) (hword : word ≤ 65535) :
    checksumStep sum word = if sum + word < 2 ^ 31 then sum + word
      else if (sum + word) % 2 ^ 16 < 2 ^ 15 then (sum + word) % 2 ^ 16 + 2 ^ 15
      else (sum + word) % 2 ^ 16 := by
  rw [checksumStep, mod_eq_of_lt (by omega), show 0x80000000 = 2 ^ 31 from rfl, and_two_pow,
    testBit_eq_decide_div_mod_eq]
  by_cases hlt : sum + word < 2 ^ 31
  · rw [if_pos hlt, div_eq_of_lt hlt]
    rfl
  · rw [if_neg hlt, ← or_two_pow_fifteen (mod_lt _ (by decide)), if_pos, shiftRight_eq_div_pow,
      show (sum + word) / 2 ^ 16 = 2 ^ 15 by omega]
    · exact congrArg (· ||| 2 ^ 15) (and_two_pow_sub_one_eq_mod (sum + word) 16)
    · rw [show (sum + word) / 2 ^ 31 = 1 by omega]
      decide

/-- The sum of the words, but for what is lost, is what the first loop ends with. -/
theorem checksumLoop_spec (bytes : List UInt8) (hsum : sum < 2 ^ 31) :
    checksumLoop sum bytes ≤ sum + total (words bytes) ∧
      sum + total (words bytes) ≡
        checksumLoop sum bytes +
          (2 ^ 15 * lostCarries sum bytes + 256 * (oddByte bytes).toNat) [MOD 65535] := by
  induction bytes using words.induct generalizing sum with
  | case1 => exact ⟨le_rfl, rfl⟩
  | case2 byte =>
    simp only [checksumLoop, lostCarries, oddByte, words, total]
    exact ⟨Nat.le_add_right _ _, by rw [Nat.mul_comm, Nat.mul_zero, Nat.zero_add]; rfl⟩
  | case3 high low rest ih =>
    obtain ⟨word, hword⟩ : ∃ word, word = high.toNat * 256 + low.toNat := ⟨_, rfl⟩
    have hle : word ≤ 65535 := by
      have := high.toNat_lt
      have := low.toNat_lt
      omega
    simp only [checksumLoop, lostCarries, oddByte, words, total, ← hword, checksumStep_eq hsum hle]
    unfold Nat.ModEq at *
    split_ifs with hlt hbit
    · obtain ⟨hupper, hmod⟩ := ih hlt
      exact ⟨by omega, by omega⟩
    · obtain ⟨hupper, hmod⟩ := @ih ((sum + word) % 2 ^ 16 + 2 ^ 15) (by omega)
      exact ⟨by omega, by omega⟩
    · obtain ⟨hupper, hmod⟩ := @ih ((sum + word) % 2 ^ 16) (by omega)
      exact ⟨by omega, by omega⟩

/-- The second loop ends with a word that stands for the sum. -/
theorem represents_foldLoop (n : ℕ) : Represents (foldLoop n) n := by
  induction n using foldLoop.induct with
  | case1 n h =>
    rw [foldLoop, if_pos h]
    exact ⟨by omega, rfl, Iff.rfl⟩
  | case2 n h ih =>
    rw [foldLoop, if_neg h]
    rw [and_two_pow_sub_one_eq_mod n 16, shiftRight_eq_div_pow] at *
    obtain ⟨hle, hmod, hzero⟩ := ih
    unfold Nat.ModEq at hmod
    exact ⟨hle, by unfold Nat.ModEq; omega, by omega⟩

/-- The checksum is what is missing to all ones. -/
theorem internetChecksum_add (bytes : List UInt8) :
    internetChecksum bytes + foldLoop (checksumLoop 0 bytes) = 65535 := by
  have hle := (represents_foldLoop (checksumLoop 0 bytes)).le
  rw [internetChecksum, and_two_pow_sub_one_eq_mod _ 16]
  omega

/-- A field adds its value to the sum. -/
theorem total_words_insert (h : Even front.length) {value : ℕ} (hvalue : value ≤ 65535) :
    total (words (front ++ networkOrdered value ++ back)) =
      total (words (front ++ [0, 0] ++ back)) + value := by
  have hsplit : ∀ high low : UInt8, total (words (front ++ [high, low] ++ back)) =
      total (words front) + (high.toNat * 256 + low.toNat + total (words back)) := by
    intro high low
    rw [List.append_assoc, words_append h, total_append]
    rfl
  rw [networkOrdered, hsplit, hsplit, UInt8.toNat_ofNat', UInt8.toNat_ofNat']
  simp only [UInt8.toNat_zero]
  omega

/-- A buffer verifies iff the carries and the byte that are lost cancel. -/
theorem verifies_iff (h : Even front.length) :
    Verifies front back ↔
      65535 ∣ lostCarries 0 (front ++ [0, 0] ++ back) +
        512 * (oddByte (front ++ [0, 0] ++ back)).toNat := by
  have hadd := internetChecksum_add (front ++ [0, 0] ++ back)
  have hfold := represents_foldLoop (checksumLoop 0 (front ++ [0, 0] ++ back))
  obtain ⟨hupper, hmod⟩ := checksumLoop_spec (front ++ [0, 0] ++ back) (by decide : 0 < 2 ^ 31)
  rw [Verifies, ChecksumValid, (represents_sum le_of_mem_words).eq_ones_iff,
    total_words_insert h (by omega)]
  obtain ⟨-, hmod', hzero⟩ := hfold
  unfold Nat.ModEq at hmod hmod'
  omega

/-- Nothing is carried in a buffer that is short enough. -/
theorem lostCarries_eq_zero (h : sum + 65535 * (bytes.length / 2) < 2 ^ 31) :
    lostCarries sum bytes = 0 := by
  induction bytes using words.induct generalizing sum with
  | case1 => rfl
  | case2 => rfl
  | case3 high low rest ih =>
    have := high.toNat_lt
    have := low.toNat_lt
    simp only [List.length_cons] at h
    rw [lostCarries, if_pos (by omega)]
    exact ih (by omega)

theorem oddByte_eq_zero_iff : oddByte bytes = 0 ↔ Even bytes.length ∨ bytes.getLast? = some 0 := by
  induction bytes using words.induct with
  | case1 => simp [oddByte]
  | case2 byte => simp [oddByte]
  | case3 high low rest ih =>
    rw [oddByte, ih]
    cases rest with
    | nil => simp
    | cons byte rest => simp [Nat.even_add_one]

/-- The reply that `handle_icmp` sends to an echo request, unless the packet is too small for one:
type and code, the checksum, and the rest of the request. -/
def echoReply (request : List UInt8) : Option (List UInt8) :=
  if request.head? ≠ some 8 ∨ request.length < 8 then none
  else
    let rest := request.drop 4
    some ([0, 0] ++ networkOrdered (internetChecksum ([0, 0] ++ [0, 0] ++ rest)) ++ rest)

/-- For every buffer the value that is returned verifies iff the carries and the byte that are lost
cancel, and the reply to an echo request does iff the request has no odd byte, or it is zero. -/
theorem internetChecksum_verifies_iff (front back request reply : List UInt8) :
    (Even front.length → (Verifies front back ↔
      65535 ∣ lostCarries 0 (front ++ [0, 0] ++ back) +
        512 * (oddByte (front ++ [0, 0] ++ back)).toNat)) ∧
    (request.length < 2 ^ 16 → echoReply request = some reply →
      (ChecksumValid reply ↔ Even request.length ∨ request.getLast? = some 0)) := by
  refine ⟨fun h => verifies_iff h, fun hlength hreply => ?_⟩
  rw [echoReply] at hreply
  split at hreply
  · cases hreply
  next hge =>
    obtain rfl := Option.some.inj hreply
    have hlower : 8 ≤ request.length := not_lt.mp (not_or.mp hge).2
    rcases request with _ | ⟨_, _ | ⟨_, _ | ⟨_, _ | ⟨_, rest⟩⟩⟩⟩
    iterate 4 · simp at hlower
    have hcarries : lostCarries 0 (0 :: 0 :: 0 :: 0 :: rest) = 0 := by
      refine lostCarries_eq_zero ?_
      simp only [List.length_cons] at hlength ⊢
      omega
    have hodd := (oddByte rest).toNat_lt
    rw [← oddByte_eq_zero_iff]
    change Verifies [0, 0] rest ↔ oddByte rest = 0
    rw [verifies_iff (by decide)]
    change 65535 ∣ lostCarries 0 (0 :: 0 :: 0 :: 0 :: rest) + 512 * (oddByte rest).toNat ↔ _
    rw [hcarries, ← UInt8.toNat_inj, UInt8.toNat_zero]
    omega

/-- The last of three bytes is not in the sum, nor is the payload of an echo reply with one byte. -/
theorem oddBuffer_not_verifies :
    ¬Verifies [] [1] ∧
      ∃ reply, echoReply [8, 0, 0, 0, 0, 1, 0, 2, 3] = some reply ∧ ¬ChecksumValid reply := by
  refine ⟨(verifies_iff (by decide)).not.mpr (by decide), _, rfl, ?_⟩
  exact (verifies_iff (by decide)).not.mpr (by decide)

theorem evenBuffer_verifies : Verifies [0x45, 0] [1, 2] :=
  ((internetChecksum_verifies_iff [0x45, 0] [1, 2] [] []).1 (by decide)).mpr (by decide)

end Kernel
