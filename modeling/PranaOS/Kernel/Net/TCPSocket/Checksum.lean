import PranaOS.AK.Assertions
import PranaOS.Kernel.Net.IPv4

/-!
# `Kernel/Net/TCPSocket.cpp`: `compute_tcp_checksum`

The checksum of a segment covers a pseudo header with the two addresses, the header and the payload.
A segment is valid with the value that `compute_tcp_checksum` returns iff it has no options, and its
checksum was zero when the value was computed (`tcpVerifies_iff`).
-/

namespace Kernel

open AK OnesComplement List

/-- The fields of `TCPPacket`. -/
structure TCPHeader where
  sourcePort : BitVec 16
  destinationPort : BitVec 16
  sequenceNumber : BitVec 32
  ackNumber : BitVec 32
  flagsAndDataOffset : BitVec 16
  windowSize : BitVec 16
  checksum : BitVec 16
  urgent : BitVec 16
deriving DecidableEq, Repr

namespace TCPHeader

variable (self : TCPHeader)

/-- `data_offset`. -/
def dataOffset : ℕ := ((self.flagsAndDataOffset &&& 0xf000) >>> 12).toNat

/-- `header_size`. -/
def headerSize : ℕ := self.dataOffset * 4

/-- The bytes in front of the checksum. -/
def front : List UInt8 :=
  networkOrdered self.sourcePort.toNat ++ networkOrdered self.destinationPort.toNat ++
    networkOrdered32 self.sequenceNumber ++ networkOrdered32 self.ackNumber ++
    networkOrdered self.flagsAndDataOffset.toNat ++ networkOrdered self.windowSize.toNat

/-- The bytes of the header. -/
def bytes : List UInt8 :=
  self.front ++ networkOrdered self.checksum.toNat ++ networkOrdered self.urgent.toNat

end TCPHeader

/-- The bytes of `PseudoHeader`, for the protocol TCP. -/
def pseudoHeader (source destination : BitVec 32) (size : ℕ) : List UInt8 :=
  networkOrdered32 source ++ networkOrdered32 destination ++ networkOrdered 6 ++ networkOrdered size

/-- A word is added, and the sum folded. -/
def addWord (checksum word : ℕ) : ℕ :=
  let checksum := (checksum + word) % 2 ^ 32
  if checksum > 0xffff then (checksum >>> 16) + (checksum &&& 0xffff) else checksum

/-- `compute_tcp_checksum`, where `behind` are the bytes behind the 20 bytes of `TCPPacket`. -/
def computeTcpChecksum (source destination : BitVec 32) (packet : TCPHeader) (behind : List UInt8)
    (payloadSize : ℕ) : Option (BitVec 16) := do
  let checksum := (words (pseudoHeader source destination (20 + payloadSize))).foldl addWord 0
  let checksum := (words packet.bytes).foldl addWord checksum
  verify (packet.dataOffset * 4 = 20)
  let payload := (behind.drop (packet.headerSize - 20)).take payloadSize
  -- the byte at the end of an odd payload is expanded to a word
  let checksum := (words payload).foldl addWord checksum
  return ~~~BitVec.ofNat 16 checksum

/-- What the checksum of a segment covers. -/
def covered (source destination : BitVec 32) (packet : TCPHeader) (options payload : List UInt8) :
    List UInt8 :=
  pseudoHeader source destination (packet.headerSize + payload.length) ++ packet.bytes ++
    (options ++ payload)

/-- A value is computed, and the segment is valid once it is stored in the header. -/
def TCPVerifies (source destination : BitVec 32) (packet : TCPHeader) (options payload : List UInt8) :
    Prop :=
  ∃ checksum, computeTcpChecksum source destination packet (options ++ payload) payload.length =
      some checksum ∧
    ChecksumValid (covered source destination { packet with checksum := checksum } options payload)

theorem addWord_eq_add {a b : ℕ} (ha : a ≤ 65535) (hb : b ≤ 65535) : addWord a b = add a b := by
  rw [addWord, add, Nat.mod_eq_of_lt (by omega), Nat.shiftRight_eq_div_pow,
    Nat.and_two_pow_sub_one_eq_mod _ 16]
  split <;> omega

theorem foldl_addWord {a : ℕ} {xs : List ℕ} (ha : a ≤ 65535) (hxs : ∀ word ∈ xs, word ≤ 65535) :
    xs.foldl addWord a = sumFrom a xs := by
  induction xs generalizing a with
  | nil => rfl
  | cons word rest ih =>
    obtain ⟨hword, hrest⟩ := forall_mem_cons.mp hxs
    have hle : add a word ≤ 65535 := ((Represents.mk ha rfl Iff.rfl).add hword).le
    rw [foldl_cons, addWord_eq_add ha hword, ih hle hrest]
    rfl

variable {source destination : BitVec 32} {packet : TCPHeader} {options payload : List UInt8}

/-- The checksum is one of the words that are covered, and the number of the protocol another. -/
theorem exists_total_covered (source destination : BitVec 32) (packet : TCPHeader)
    (options payload : List UInt8) : ∃ rest, ∀ checksum : BitVec 16,
      total (words (covered source destination { packet with checksum := checksum } options payload)) =
        rest + 6 + checksum.toNat := by
  let addresses := networkOrdered32 source ++ networkOrdered32 destination
  let front := networkOrdered (packet.headerSize + payload.length) ++ packet.front
  let back := networkOrdered packet.urgent.toNat ++ (options ++ payload)
  refine ⟨total (words (addresses ++ [0, 0] ++ (front ++ [0, 0] ++ back))), fun checksum => ?_⟩
  have hsplit : covered source destination { packet with checksum := checksum } options payload =
      addresses ++ networkOrdered 6 ++ front ++ networkOrdered checksum.toNat ++ back := by
    rfl
  rw [hsplit, total_words_insert ⟨14, rfl⟩ (Nat.le_of_lt_succ checksum.isLt),
    ← total_words_insert ⟨4, rfl⟩ (by decide : 6 ≤ 65535)]
  simp

/-- What is computed for a segment without options. -/
theorem computeTcpChecksum_eq (hsize : packet.headerSize = 20) :
    computeTcpChecksum source destination packet payload payload.length =
      some (~~~BitVec.ofNat 16 (sumFrom 0 (words (covered source destination packet [] payload)))) := by
  have hsize' : packet.dataOffset * 4 = 20 := hsize
  rw [← foldl_addWord (by decide) le_of_mem_words, covered, hsize, words_append ⟨16, rfl⟩,
    words_append ⟨6, rfl⟩]
  simp [computeTcpChecksum, hsize, hsize', foldl_append]

/-- The checksum that is there when the value is computed is added to the sum as well. -/
theorem tcpVerifies_nil_iff (hsize : packet.headerSize = 20) :
    TCPVerifies source destination packet [] payload ↔
      packet.checksum = 0 ∨ packet.checksum = 0xffff := by
  obtain ⟨rest, hrest⟩ := exists_total_covered source destination packet [] payload
  obtain ⟨hle, hmod, -⟩ : Represents (sumFrom 0 (words (covered source destination packet [] payload)))
      (rest + 6 + packet.checksum.toNat) := hrest packet.checksum ▸ represents_sum le_of_mem_words
  simp only [TCPVerifies, nil_append, computeTcpChecksum_eq hsize, Option.some.injEq,
    exists_eq_left']
  rw [ChecksumValid, (represents_sum le_of_mem_words).eq_ones_iff, hrest, BitVec.toNat_not,
    BitVec.toNat_ofNat, Nat.mod_eq_of_lt (Nat.lt_succ_of_le hle), ← BitVec.toNat_inj,
    ← BitVec.toNat_inj]
  change _ ↔ packet.checksum.toNat = 0 ∨ packet.checksum.toNat = 65535
  unfold Nat.ModEq at hmod
  omega

/-- No value is computed for a header with options. -/
theorem not_tcpVerifies_of_ne (hsize : packet.headerSize ≠ 20) :
    ¬TCPVerifies source destination packet options payload := by
  rintro ⟨checksum, hcompute, -⟩
  simp only [computeTcpChecksum, verify_bind_eq_some] at hcompute
  exact hsize hcompute.1

/-- A segment verifies iff it has no options, and its checksum is zero or all ones before the value is
stored. -/
theorem tcpVerifies_iff (hoptions : options.length + 20 = packet.headerSize) :
    TCPVerifies source destination packet options payload ↔
      options = [] ∧ (packet.checksum = 0 ∨ packet.checksum = 0xffff) := by
  by_cases hempty : options = []
  · subst hempty
    rw [tcpVerifies_nil_iff hoptions.symm]
    simp
  · have hsize : packet.headerSize ≠ 20 := by
      have := length_pos_iff.mpr hempty
      omega
    exact iff_of_false (not_tcpVerifies_of_ne hsize) fun h => hempty h.1

/-- A header of five words. -/
def plainHeader : TCPHeader where
  sourcePort := 80
  destinationPort := 1025
  sequenceNumber := 7
  ackNumber := 9
  flagsAndDataOffset := 0x5010
  windowSize := 1024
  checksum := 0
  urgent := 0

/-- With options a `VERIFY` fails, and a checksum that is there already enters the sum. -/
theorem plainHeader_not_verifies :
    ¬TCPVerifies 0 0 { plainHeader with flagsAndDataOffset := 0x6010 } [0, 0, 0, 0] [] ∧
      ¬TCPVerifies 0 0 { plainHeader with checksum := 1 } [] [] :=
  ⟨not_tcpVerifies_of_ne (by decide), (tcpVerifies_nil_iff (by decide)).not.mpr (by decide)⟩

theorem plainHeader_verifies : TCPVerifies 0x0a000001 0x0a000002 plainHeader [] [1, 2, 3] :=
  (tcpVerifies_iff (by decide)).mpr ⟨rfl, .inl rfl⟩

end Kernel
