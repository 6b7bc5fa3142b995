import PranaOS.AK.StdLibExtras
import PranaOS.Kernel.Net.IPv4

/-!
# `Kernel/Net/NetworkAdapter.cpp`: `send_ipv4_fragmented`

A payload that does not fit the MTU is sent in fragments of a multiple of 8 bytes. There is one more
fragment than full ones, so the last one is empty if the payload is made of full ones only: the
fragments reassemble to the payload iff it is not (`reassembles_iff`).
-/

namespace Kernel

open AK List Nat

/-- `IPv4Packet`. -/
structure IPv4Packet where
  versionAndIhl : BitVec 8
  dscpAndEcn : BitVec 8
  length : BitVec 16
  ident : BitVec 16
  flagsAndFragment : BitVec 16
  ttl : BitVec 8
  protocol : BitVec 8
  checksum : BitVec 16
  source : BitVec 32
  destination : BitVec 32
deriving DecidableEq, Repr

namespace IPv4Packet

variable (self : IPv4Packet)

/-- The bytes of the header. -/
def bytes : List UInt8 :=
  [.ofBitVec self.versionAndIhl, .ofBitVec self.dscpAndEcn] ++ networkOrdered self.length.toNat ++
    networkOrdered self.ident.toNat ++ networkOrdered self.flagsAndFragment.toNat ++
    [.ofBitVec self.ttl, .ofBitVec self.protocol] ++ networkOrdered self.checksum.toNat ++
    networkOrdered32 self.source ++ networkOrdered32 self.destination

/-- `fragment_offset`. -/
def fragmentOffset : BitVec 16 := self.flagsAndFragment &&& 0x1fff

/-- `flags`. -/
def flags : BitVec 16 := self.flagsAndFragment &&& (0x2000 ||| 0x4000)

/-- The flag `MoreFragments` is set. -/
def moreFragments : Bool := self.flags &&& 0x2000 ≠ 0

/-- `set_has_more_fragments`. -/
def setHasMoreFragments (moreFragments : Bool) : IPv4Packet :=
  if moreFragments then { self with flagsAndFragment := self.flagsAndFragment ||| 0x2000 }
  else { self with flagsAndFragment := self.flagsAndFragment &&& 0x2000 }

/-- `set_fragment_offset`. -/
def setFragmentOffset (offset : BitVec 16) : IPv4Packet :=
  { self with flagsAndFragment := self.flags ||| (offset &&& 0x1fff) }

/-- `set_checksum` of `compute_checksum`; the checksum of a new packet is zero. -/
def setChecksum : IPv4Packet :=
  { self with checksum := BitVec.ofNat 16 (internetChecksum self.bytes) }

end IPv4Packet

/-- A frame with an IPv4 packet. What is behind the payload is zero. -/
structure Frame where
  size : ℕ
  source : BitVec 48
  destination : BitVec 48
  ipv4 : IPv4Packet
  payload : List UInt8
deriving DecidableEq

/-- Who sends a packet to whom. -/
structure Route where
  mac : BitVec 48
  destinationMac : BitVec 48
  source : BitVec 32
  destination : BitVec 32
  protocol : BitVec 8
  ttl : BitVec 8

/-- `packet_boundary_size`. -/
def packetBoundarySize (mtu : ℕ) : ℕ := sub32 mtu (20 + 14) &&& 0xfffffff8

/-- `packet_payload_size`, for a payload of `size` bytes in `count` blocks. -/
def packetPayloadSize (mtu size count packetIndex : ℕ) : ℕ :=
  if packetIndex + 1 = count then size - packetBoundarySize mtu * (count - 1) else packetBoundarySize mtu

variable (route : Route)

/-- The packet of a fragment, before the fields for the fragmentation are set. -/
def unfragmented (identification : BitVec 16) (packetPayloadSize : ℕ) : IPv4Packet where
  versionAndIhl := 0x45
  dscpAndEcn := 0
  length := BitVec.ofNat 16 (20 + packetPayloadSize)
  ident := identification
  flagsAndFragment := 0
  ttl := route.ttl
  protocol := route.protocol
  checksum := 0
  source := route.source
  destination := route.destination

theorem flagsAndFragment_unfragmented (identification : BitVec 16) (size : ℕ) :
    (unfragmented route identification size).flagsAndFragment = 0 := rfl

/-- The frame that is sent for `packet_index`. -/
def fragment (mtu : ℕ) (identification : BitVec 16) (payload : List UInt8)
    (count packetIndex : ℕ) : Frame where
  size := mtu
  source := route.mac
  destination := route.destinationMac
  ipv4 :=
    (((unfragmented route identification
      (packetPayloadSize mtu payload.length count packetIndex)).setHasMoreFragments
        (!decide (packetIndex + 1 = count))).setFragmentOffset
          (BitVec.ofNat 16 (packetIndex * (packetBoundarySize mtu / 8)))).setChecksum
  payload := (payload.drop (packetIndex * packetBoundarySize mtu)).take
    (packetPayloadSize mtu payload.length count packetIndex)

/-- `send_ipv4_fragmented`, of a payload that can be read: the frames that are sent. -/
def sendIpv4Fragmented (mtu : ℕ) (identification : BitVec 16) (payload : List UInt8) :
    List Frame :=
  let fragmentBlockCount := (payload.length + packetBoundarySize mtu) / packetBoundarySize mtu
  (List.range fragmentBlockCount).map (fragment route mtu identification payload fragmentBlockCount)

/-- The frames reassemble to the payload: each one is the slice that starts where the ones before end,
is not empty and fits. All but the last one are a multiple of 8 long, and say that there are more. -/
structure Reassembles (mtu : ℕ) (payload : List UInt8) (frames : List Frame) : Prop where
  covers : frames.flatMap (·.payload) = payload
  slices : ∀ k frame, frames[k]? = some frame →
    8 * frame.ipv4.fragmentOffset.toNat = ((frames.take k).flatMap (·.payload)).length ∧
      frame.ipv4.length.toNat = 20 + frame.payload.length ∧ frame.payload ≠ [] ∧
      frame.size ≤ mtu ∧ 14 + 20 + frame.payload.length ≤ frame.size ∧
      (frame.ipv4.moreFragments = true ↔ k + 1 < frames.length) ∧
      (k + 1 < frames.length → 8 ∣ frame.payload.length)

/-- The flags and the offset share a field, and both are there after they were set. -/
theorem setFragmentOffset_spec {ipv4 : IPv4Packet} (h : ipv4.flagsAndFragment = 0) (more : Bool)
    (offset : BitVec 16) :
    let set := ((ipv4.setHasMoreFragments more).setFragmentOffset offset).setChecksum
    set.fragmentOffset.toNat = offset.toNat % 2 ^ 13 ∧ set.moreFragments = more ∧
      set.length = ipv4.length := by
  have hoffset : ∀ n, n &&& 8191 = n % 8192 := fun n => and_two_pow_sub_one_eq_mod n 13
  have hflags : offset &&& 8191#16 &&& 24576#16 = 0#16 := by
    rw [BitVec.and_assoc]
    exact BitVec.and_zero
  cases more <;>
    simp [IPv4Packet.setHasMoreFragments, IPv4Packet.setFragmentOffset, IPv4Packet.setChecksum,
      IPv4Packet.fragmentOffset, IPv4Packet.moreFragments, IPv4Packet.flags, h,
      BitVec.and_or_distrib_right, hoffset, hflags]

theorem packetBoundarySize_spec {mtu : ℕ} (h : 42 < mtu) (hlt : mtu < 2 ^ 32) :
    8 ∣ packetBoundarySize mtu ∧ 8 ≤ packetBoundarySize mtu ∧ packetBoundarySize mtu + 34 ≤ mtu := by
  rw [packetBoundarySize, sub32_eq_sub (by omega) hlt, show 0xfffffff8 = not32 (2 ^ 3 - 1) from rfl,
    and_not32_two_pow (by omega) (by decide)]
  omega

/-- Blocks of one size, one after the other. -/
theorem flatMap_blocks (payload : List UInt8) (size count : ℕ) :
    (List.range count).flatMap (fun k => (payload.drop (k * size)).take size) =
      payload.take (count * size) := by
  induction count with
  | zero => simp
  | succ count ih =>
    rw [range_succ, flatMap_append, ih, succ_mul, take_add]
    simp

section

variable {route : Route} {mtu : ℕ} {identification : BitVec 16} {payload : List UInt8} {count k : ℕ}

theorem mul_packetBoundarySize_le {size : ℕ} (hk : k < size / packetBoundarySize mtu + 1) :
    k * packetBoundarySize mtu ≤ size :=
  (Nat.mul_le_mul_right _ (Nat.le_of_lt_succ hk)).trans (div_mul_le_self _ _)

/-- Each fragment takes a block, or what is left. -/
theorem packetPayloadSize_eq {size : ℕ} (hpos : 0 < packetBoundarySize mtu)
    (hk : k < size / packetBoundarySize mtu + 1) :
    packetPayloadSize mtu size (size / packetBoundarySize mtu + 1) k =
      min (packetBoundarySize mtu) (size - k * packetBoundarySize mtu) := by
  have hmod := mod_lt size hpos
  have hsplit := div_add_mod size (packetBoundarySize mtu)
  rw [packetPayloadSize]
  split
  next hlast =>
    obtain rfl : k = size / packetBoundarySize mtu := by omega
    rw [Nat.add_sub_cancel, Nat.mul_comm _ (packetBoundarySize mtu)]
    omega
  next hnext =>
    have hle : (k + 1) * packetBoundarySize mtu ≤ size := mul_packetBoundarySize_le (by omega)
    rw [succ_mul] at hle
    omega

variable (route identification)

/-- What a fragment is, in terms of blocks of one size. -/
theorem fragment_spec (hmtu : 42 < mtu) (hlt : mtu < 2 ^ 32) (hlength : payload.length + 20 ≤ 65535)
    (hk : k < payload.length / packetBoundarySize mtu + 1) :
    let frame := fragment route mtu identification payload
      (payload.length / packetBoundarySize mtu + 1) k
    frame.payload = (payload.drop (k * packetBoundarySize mtu)).take (packetBoundarySize mtu) ∧
      8 * frame.ipv4.fragmentOffset.toNat = k * packetBoundarySize mtu ∧
      frame.ipv4.length.toNat = 20 + frame.payload.length ∧
      (frame.ipv4.moreFragments = true ↔ k < payload.length / packetBoundarySize mtu) ∧
      frame.size = mtu := by
  obtain ⟨⟨blocks, hblocks⟩, hpos, -⟩ := packetBoundarySize_spec hmtu hlt
  have hle := mul_packetBoundarySize_le hk
  have hblock : k * (packetBoundarySize mtu / 8) * 8 = k * packetBoundarySize mtu := by
    rw [hblocks, Nat.mul_div_cancel_left _ (by decide), Nat.mul_assoc, Nat.mul_comm blocks]
  simp only [fragment, (setFragmentOffset_spec (flagsAndFragment_unfragmented ..) _ _).1,
    (setFragmentOffset_spec (flagsAndFragment_unfragmented ..) _ _).2]
  rw [packetPayloadSize_eq (by omega) hk]
  generalize packetBoundarySize mtu = size at *
  refine ⟨?_, ?_, ?_, by simp; omega, trivial⟩
  · rw [← length_drop, ← take_eq_take_min]
  · rw [BitVec.toNat_ofNat]
    omega
  · simp only [unfragmented, BitVec.toNat_ofNat, length_take, length_drop]
    omega

/-- The fragments reassemble to the payload iff the payload is not made of full fragments. -/
theorem reassembles_iff (hmtu : 42 < mtu) (hsize : payload.length + 20 > mtu)
    (hlength : payload.length + 20 ≤ 65535) :
    Reassembles mtu payload (sendIpv4Fragmented route mtu identification payload) ↔
      ¬packetBoundarySize mtu ∣ payload.length := by
  obtain ⟨hdvd, hpos, hle⟩ := packetBoundarySize_spec hmtu (by omega)
  have hspec := fun k => @fragment_spec route mtu identification payload k hmtu (by omega) hlength
  have hsplit := div_add_mod payload.length (packetBoundarySize mtu)
  have hmod := mod_lt payload.length (by omega : packetBoundarySize mtu > 0)
  rw [sendIpv4Fragmented, add_div_right _ (by omega), dvd_iff_mod_eq_zero]
  generalize hfragment : fragment route mtu identification payload
    (payload.length / packetBoundarySize mtu + 1) = frame at *
  generalize packetBoundarySize mtu = size at *
  generalize hcount : payload.length / size = count at *
  -- the payloads of the first frames
  have hfirst : ∀ k ≤ count + 1, ((List.range k).map frame).flatMap (·.payload) =
      payload.take (k * size) := by
    intro k hk
    rw [flatMap_map, ← flatMap_blocks]
    exact flatMap_congr fun i hi => (hspec i (by have := mem_range.mp hi; omega)).1
  have hlast : payload.length < (count + 1) * size := by
    rw [succ_mul, Nat.mul_comm]
    omega
  have hget : ∀ k < count + 1, ((List.range (count + 1)).map frame)[k]? = some (frame k) := fun k hk => by
    rw [getElem?_map, getElem?_range hk, Option.map_some]
  constructor
  · intro h hzero
    refine (h.slices count _ (hget count (by omega))).2.2.1 ?_
    rw [(hspec count (by omega)).1, drop_eq_nil_of_le (by rw [Nat.mul_comm]; omega), take_nil]
  · refine fun hne => ⟨by rw [hfirst _ le_rfl, take_of_length_le hlast.le], fun k other hother => ?_⟩
    have hk : k < count + 1 := by simpa using (List.getElem?_eq_some_iff.mp hother).1
    obtain rfl : frame k = other := Option.some.inj ((hget k hk).symm.trans hother)
    obtain ⟨hpayload, hoffset, hfield, hmore, hframe⟩ := hspec k hk
    have hlower : k * size < payload.length := by
      have := Nat.mul_le_mul_left size (Nat.le_of_lt_succ hk)
      rw [Nat.mul_comm]
      omega
    have hbytes : (frame k).payload.length = min size (payload.length - k * size) := by
      rw [hpayload, length_take, length_drop]
    refine ⟨?_, hfield, ne_nil_of_length_pos (by omega), hframe.le, by omega, by simp [hmore], ?_⟩
    · rw [hoffset, ← map_take, take_range, Nat.min_eq_left hk.le, hfirst k hk.le,
        length_take, Nat.min_eq_left hlower.le]
    · intro hnext
      have := Nat.mul_le_mul_left size (by simpa using hnext : k + 1 ≤ count)
      rw [mul_succ, Nat.mul_comm] at this
      rw [hbytes, Nat.min_eq_left (by omega)]
      exact hdvd

end

/-- A UDP packet. -/
def sampleRoute : Route := ⟨0, 0, 0, 0, 17, 64⟩

/-- The last of three fragments is empty. -/
theorem fullFragments_not_reassemble :
    (sendIpv4Fragmented sampleRoute 50 7 (List.replicate 32 1)).map (·.payload.length) = [16, 16, 0] ∧
      ¬Reassembles 50 (List.replicate 32 1)
        (sendIpv4Fragmented sampleRoute 50 7 (List.replicate 32 1)) :=
  ⟨by decide, fun h => (h.slices 2 _ rfl).2.2.1 (by decide)⟩

theorem partialFragment_reassembles :
    Reassembles 50 (List.replicate 33 1) (sendIpv4Fragmented sampleRoute 50 7 (List.replicate 33 1)) :=
  (reassembles_iff sampleRoute 7 (by decide) (by decide) (by decide)).mpr (by decide)

end Kernel
