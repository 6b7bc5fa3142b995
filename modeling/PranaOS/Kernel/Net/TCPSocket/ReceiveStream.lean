import PranaOS.Kernel.Net.TCPSocket.RetransmissionQueue

/-!
# The receive stream of a TCP socket

The peer has a stream of bytes, which it cuts into segments as it likes. The network delivers them in
any order, any number of times or not at all. The application should get a prefix of the stream, and
the socket should acknowledge nothing that is not in its receive buffer.

`handle_tcp` looks at the sequence number of no segment: whatever arrives is appended, and what is
acknowledged is the end of the last segment, even if the receive buffer had no room for it.
-/

namespace Kernel.TCPSocket

open AK TCPFlags Transition List

/-! ## The peer -/

/-- The other end of the connection. -/
structure Peer where
  /-- The bytes that it sends. -/
  stream : List UInt8
  /-- Its initial sequence number. -/
  irs : BitVec 32

/-- A segment of the peer. Segments may overlap. -/
structure Segment (peer : Peer) extends IncomingPacket where
  /-- Where the payload starts in the stream. -/
  offset : ℕ
  payload_isPrefix : payload <+: peer.stream.drop offset
  sequenceNumber_eq : sequenceNumber =
    if toTCPPacket.hasSyn then peer.irs else peer.irs + 1 + BitVec.ofNat 32 offset
  offset_eq_zero : toTCPPacket.hasSyn = true → offset = 0
  dataEnd_eq : toTCPPacket.hasFin = true → offset + payload.length = peer.stream.length

/-- Where the payload ends in the stream. -/
def Segment.dataEnd {peer : Peer} (segment : Segment peer) : ℕ :=
  segment.offset + segment.payload.length

/-- What can happen to a socket that is connected with the peer. -/
inductive PeerEvent (peer : Peer) where
  | deliver (segment : Segment peer) (network : Network)
  /-- Anything that is not the arrival of a segment. -/
  | own (event : Event) (h : ∀ packet network, event ≠ .handleTcp packet network)

/-- The event as the socket sees it. -/
def PeerEvent.toEvent {peer : Peer} : PeerEvent peer → Event
  | .deliver segment network => .handleTcp segment.toIncomingPacket network
  | .own event _ => event

variable (peer : Peer)

/-- One step. -/
def peerStep (s : TCPSocket) (event : PeerEvent peer) : Option TCPSocket :=
  s.step event.toEvent

/-! ## The property -/

variable (s : TCPSocket)

/-- The bytes that were put in the receive buffer. -/
def accepted : List UInt8 := s.received ++ s.ipv4.receiveBuffer.contents

/-- The end of what may be acknowledged: the SYN, the bytes that were put in the receive buffer, and
the FIN if it has arrived behind all of them. -/
def ackLimit (s : TCPSocket) : ℕ :=
  1 + s.accepted.length + if s.finReceived ∧ s.accepted.length = peer.stream.length then 1 else 0

/-- The acknowledgement number is not beyond the limit. -/
def AckPermitted (s : TCPSocket) (ackNumber : BitVec 32) : Prop :=
  ∃ position ≤ ackLimit peer s, ackNumber = peer.irs + BitVec.ofNat 32 position

/-- The property. -/
structure StreamOk (peer : Peer) (s : TCPSocket) : Prop where
  received : s.received <+: peer.stream
  sent : ∀ packet, HistoryEvent.sent packet ∈ s.history → packet.hasAck = true →
    AckPermitted peer s packet.ackNumber

/-- The condition on a segment: what is put in the buffer comes next in the stream, and what is
acknowledged without being put in the buffer was put there before. -/
def SegmentOk {peer : Peer} (s : TCPSocket) (segment : Segment peer) : Prop :=
  (s.state = .SynSent → segment.flags ∈ [SYN, ACK ||| SYN, ACK ||| FIN, ACK ||| RST] →
    segment.dataEnd ≤ s.accepted.length) ∧
  (s.state = .SynReceived → segment.flags = ACK → segment.dataEnd ≤ s.accepted.length) ∧
  (s.state = .Established → segment.hasRst = false →
    if segment.payload ≠ [] ∧ s.ipv4.HasRoom segment.ipv4Packet then
      segment.offset = s.accepted.length
    else segment.dataEnd ≤ s.accepted.length)
deriving Decidable

/-- No segment of the peer has set `m_ack_number` yet. -/
def AckUnset : Prop :=
  s.state = .SynSent ∨ (s.state = .Closed ∧ s.error = .UnexpectedFlagsDuringConnect)
deriving Decidable

/-- The condition on a step. -/
def StreamStepOk {peer : Peer} (s : TCPSocket) : PeerEvent peer → Prop
  | .deliver segment _ => SegmentOk s segment
  | .own (.send ..) _ => s.isOpen = true → s.shutDownForWriting = false → ¬ AckUnset s
  | .own _ _ => True

instance decidableStreamStepOk {peer : Peer} (s : TCPSocket) :
    (event : PeerEvent peer) → Decidable (StreamStepOk s event)
  | .deliver segment _ => inferInstanceAs (Decidable (SegmentOk s segment))
  | .own (.send ..) _ => inferInstanceAs
      (Decidable (s.isOpen = true → s.shutDownForWriting = false → ¬ AckUnset s))
  | .own (.handleTcp ..) _ | .own (.recv _) _ | .own (.shutdown ..) _ | .own (.close _) _
  | .own (.sendOutgoingPackets _) _ | .own .accept _ | .own .originatorGone _ => isTrue trivial

/-! ## The invariant -/

/-- The states after the socket has sent a FIN, and the last one. -/
def State.isEnding : State → Bool
  | FinWait1 | FinWait2 | Closing | TimeWait | LastAck | Closed => true
  | _ => false

/-- The application can send nothing more. -/
def Silent : Prop := s.shutDownForWriting = true ∨ s.isOpen = false

/-- What holds of a socket whatever its state is. It depends on the received bytes, the FIN, the history
and the receive buffer only. -/
def StreamCore (s : TCPSocket) : Prop :=
  s.accepted <+: peer.stream ∧
  (∀ packet, HistoryEvent.sent packet ∈ s.history → packet.hasAck = true →
    AckPermitted peer s packet.ackNumber) ∧
  (s.ipv4.receiveBuffer.isEmpty = false → s.ipv4.canReadFlag = true) ∧
  s.ipv4.receiveBuffer.capacity = 65536

/-- The invariant of the runs whose steps meet the condition. The number in `m_ack_number` may be
acknowledged, unless it is not set or will never be sent. -/
structure StreamInv (peer : Peer) (s : TCPSocket) : Prop where
  core : StreamCore peer s
  silent : s.state.isEnding = true → s.state ≠ .Closed → Silent s
  ackNumber : AckPermitted peer s s.ackNumber ∨ AckUnset s ∨ (s.state.isEnding = true ∧ Silent s)

variable {peer : Peer} {s s' : TCPSocket} {network : Network}

theorem streamOk_of_core (h : StreamCore peer s) : StreamOk peer s :=
  ⟨(prefix_append _ _).trans h.1, h.2.1⟩

/-- The limit never goes down. -/
theorem ackLimit_mono (h : s.accepted <+: s'.accepted) (hstream : s'.accepted <+: peer.stream)
    (hfin : s.finReceived = true → s'.finReceived = true) : ackLimit peer s ≤ ackLimit peer s' := by
  have hle := h.length_le
  have hle' := hstream.length_le
  unfold ackLimit
  split
  next hend =>
    rw [if_pos ⟨hfin hend.1, by omega⟩]
    omega
  next => omega

theorem AckPermitted.mono {ackNumber : BitVec 32} (hack : AckPermitted peer s ackNumber)
    (hle : ackLimit peer s ≤ ackLimit peer s') : AckPermitted peer s' ackNumber := by
  obtain ⟨position, hposition, rfl⟩ := hack
  exact ⟨position, hposition.trans hle, rfl⟩

/-- More bytes are received, or a FIN. -/
theorem StreamCore.extend (h : StreamCore peer s) (haccepted : s.accepted <+: s'.accepted)
    (hstream : s'.accepted <+: peer.stream) (hfin : s.finReceived = true → s'.finReceived = true)
    (hhistory : s'.history = s.history) (hbuffer : s'.ipv4.BufferOk) : StreamCore peer s' := by
  refine ⟨hstream, fun packet hpacket hack => ?_, hbuffer.canReadFlag, hbuffer.capacity⟩
  rw [hhistory] at hpacket
  exact (h.2.1 packet hpacket hack).mono (ackLimit_mono haccepted hstream hfin)

/-- A FIN is taken note of. -/
theorem streamCore_setAckNumberOfFin (h : StreamCore peer s) (ackNumber : BitVec 32) :
    StreamCore peer (s.setAckNumberOfFin ackNumber) :=
  h.extend prefix_rfl h.1 (fun _ => rfl) rfl ⟨h.2.2.1, h.2.2.2⟩

/-- Outside the states named, `m_ack_number` may be sent. -/
theorem StreamInv.ackPermitted (h : StreamInv peer s) (hsynSent : s.state ≠ .SynSent)
    (hending : s.state.isEnding = false) : AckPermitted peer s s.ackNumber := by
  rcases h.ackNumber with hack | (hstate | ⟨hstate, -⟩) | ⟨hstate, -⟩
  · exact hack
  · exact absurd hstate hsynSent
  · rw [hstate] at hending
    cases hending
  · rw [hstate] at hending
    cases hending

/-- The socket has ended, and can send nothing more. -/
theorem streamInv_of_ending (h : StreamCore peer s) (hsilent : Silent s)
    (hstate : s.state.isEnding = true) : StreamInv peer s :=
  ⟨h, fun _ _ => hsilent, Or.inr (Or.inr ⟨hstate, hsilent⟩)⟩

/-- The socket has not ended, or was closed by the peer. -/
theorem streamInv_of_ackPermitted (h : StreamCore peer s) (hack : AckPermitted peer s s.ackNumber)
    (hstate : s.state.isEnding = true → s.state = .Closed) : StreamInv peer s :=
  ⟨h, fun hending hne => absurd (hstate hending) hne, Or.inl hack⟩

/-! ## Sending -/

/-- A segment may be sent if it acknowledges nothing, or what may be acknowledged. -/
theorem streamCore_sendTcpPacket (h : StreamCore peer s) (flags : TCPFlags) (payload : List UInt8)
    (hack : flags &&& ACK ≠ 0 → AckPermitted peer s s.ackNumber) (readable : Bool)
    (network : Network) :
    ∃ sequenceNumber notAcked history, (s.sendTcpPacket flags payload readable network).2 =
        { s with sequenceNumber := sequenceNumber, notAcked := notAcked, history := history } ∧
      StreamCore peer { s with history := history } := by
  obtain ⟨sequenceNumber, notAcked, history, hsend, hhistory⟩ :=
    s.sendTcpPacket_frame flags payload readable network
  refine ⟨sequenceNumber, notAcked, history, hsend, h.1, fun packet hpacket hpacketAck => ?_, h.2.2⟩
  rcases hhistory with rfl | rfl
  · exact h.2.1 packet hpacket hpacketAck
  · rcases mem_append.mp hpacket with hpacket | hpacket
    · exact h.2.1 packet hpacket hpacketAck
    · obtain rfl : packet = s.buildPacket flags payload := by simpa using hpacket
      have hflags : flags &&& ACK ≠ 0 := by
        simpa [TCPPacket.hasAck, buildPacket] using hpacketAck
      simp only [buildPacket, if_pos hflags]
      exact hack hflags

/-- An ACK is sent, and the socket goes to another state. -/
theorem streamCore_sendAck (h : StreamCore peer s) (hack : AckPermitted peer s s.ackNumber)
    (network : Network) (state : State) :
    StreamCore peer ((s.sendControl ACK network).setState state) ∧
      AckPermitted peer ((s.sendControl ACK network).setState state)
        ((s.sendControl ACK network).setState state).ackNumber := by
  obtain ⟨sequenceNumber, notAcked, history, hsend, hcore⟩ :=
    streamCore_sendTcpPacket h ACK [] (fun _ => hack) true network
  rw [sendControl, hsend]
  exact ⟨hcore, hack⟩

/-- A socket that answers with RST is closed. -/
theorem streamInv_reset (h : StreamInv peer s) (hstate : s.state ≠ .SynSent) (network : Network) :
    StreamInv peer (s.reset network) := by
  obtain ⟨sequenceNumber, notAcked, history, hsend, hcore⟩ :=
    streamCore_sendTcpPacket h.core RST [] (fun hflags => absurd (by decide) hflags) true network
  rw [reset, sendControl, hsend]
  refine ⟨hcore, fun _ hne => absurd rfl hne, ?_⟩
  rcases h.ackNumber with hack | (hunset | ⟨-, herror⟩) | ⟨-, hsilent⟩
  · exact Or.inl hack
  · exact absurd hunset hstate
  · exact Or.inr (Or.inl (Or.inr ⟨rfl, herror⟩))
  · exact Or.inr (Or.inr ⟨rfl, hsilent⟩)

/-! ## Receiving -/

/-- The acknowledgement of an earlier segment is taken note of. -/
theorem streamInv_receiveTcpPacket (h : StreamInv peer s) (packet : TCPPacket) :
    StreamInv peer (s.receiveTcpPacket packet) := by
  unfold receiveTcpPacket
  split
  · refine ⟨⟨h.core.1, fun sent hsent hack => ?_, h.core.2.2⟩, h.silent, h.ackNumber⟩
    rcases mem_append.mp hsent with hsent | hsent
    · exact h.core.2.1 sent hsent hack
    · simp at hsent
  · exact h

/-- The sequence number behind the payload, as a position in the sequence space of the peer. -/
theorem Segment.sequenceNumber_add (segment : Segment peer) :
    segment.sequenceNumber + segment.payloadSize =
      peer.irs + BitVec.ofNat 32 ((if segment.hasSyn then 0 else 1) + segment.dataEnd) := by
  rw [segment.sequenceNumber_eq, TCPPacket.payloadSize, Segment.dataEnd]
  split
  next hsyn => simp [segment.offset_eq_zero hsyn]
  next => simp [BitVec.ofNat_add, BitVec.add_assoc]

/-- The end of a segment without SYN and FIN may be acknowledged if its payload was received. -/
theorem ackPermitted_of_dataEnd_le {segment : Segment peer}
    (h : segment.dataEnd ≤ s.accepted.length) :
    AckPermitted peer s (segment.sequenceNumber + segment.payloadSize) := by
  refine ⟨_, ?_, segment.sequenceNumber_add⟩
  unfold ackLimit
  split <;> omega

/-- The end of a segment with SYN may be acknowledged if its payload was received. -/
theorem ackPermitted_of_syn {segment : Segment peer} (hsyn : segment.hasSyn = true)
    (h : segment.dataEnd ≤ s.accepted.length) :
    AckPermitted peer s (segment.sequenceNumber + segment.payloadSize + 1) := by
  refine ⟨1 + segment.dataEnd, ?_, ?_⟩
  · unfold ackLimit
    omega
  · rw [segment.sequenceNumber_add, if_pos hsyn, Nat.zero_add, Nat.add_comm, BitVec.ofNat_add,
      BitVec.add_assoc]
    rfl

/-- The end of a segment with FIN may be acknowledged if its payload was received. -/
theorem ackPermitted_of_fin (hcore : StreamCore peer s) {segment : Segment peer}
    (hfin : segment.hasFin = true) (h : segment.dataEnd ≤ s.accepted.length) (ackNumber : BitVec 32) :
    AckPermitted peer (s.setAckNumberOfFin ackNumber)
      (segment.sequenceNumber + segment.payloadSize + 1) := by
  have hend : segment.dataEnd = peer.stream.length := segment.dataEnd_eq hfin
  have hle : s.accepted.length ≤ peer.stream.length := hcore.1.length_le
  refine ⟨(if segment.hasSyn then 0 else 1) + segment.dataEnd + 1, ?_, ?_⟩
  · have hlimit : ackLimit peer (s.setAckNumberOfFin ackNumber) = 1 + s.accepted.length + 1 := by
      rw [ackLimit, if_pos ⟨rfl, show s.accepted.length = peer.stream.length by omega⟩]
      rfl
    split <;> omega
  · rw [segment.sequenceNumber_add, BitVec.ofNat_add _ 1, BitVec.add_assoc]
    rfl

/-- The payload is put in the buffer behind what comes before it in the stream, or it was put there
before. -/
theorem streamCore_didReceive (h : StreamCore peer s) (segment : Segment peer)
    (hok : if s.ipv4.HasRoom segment.ipv4Packet then segment.offset = s.accepted.length
      else segment.dataEnd ≤ s.accepted.length) :
    ∃ taken s', s.didReceive segment.toIncomingPacket = some (taken, s') ∧ StreamCore peer s' ∧
      segment.dataEnd ≤ s'.accepted.length ∧ s' = { s with ipv4 := s'.ipv4 } := by
  rcases didReceive_eq ⟨h.2.2.1, h.2.2.2⟩ segment.toIncomingPacket with
    ⟨hroom, receiveBuffer, hreceive, hcontents, hcapacity⟩ | ⟨hroom, hreceive⟩
  · rw [if_pos hroom] at hok
    refine ⟨true, _, hreceive, ?_⟩
    generalize hs' : { s with ipv4 := { s.ipv4 with
      receiveBuffer := receiveBuffer, canReadFlag := !receiveBuffer.isEmpty } } = s'
    have haccepted : s'.accepted = s.accepted ++ segment.payload := by
      rw [← hs', accepted, accepted, append_assoc, ← hcontents]
    have hstream : s'.accepted <+: peer.stream := by
      -- The payload comes next in the stream.
      obtain ⟨rest, hrest⟩ := h.1
      have hpayload := segment.payload_isPrefix
      rw [hok, ← hrest, drop_left] at hpayload
      rw [haccepted, ← hrest]
      exact (prefix_append_right_inj _).mpr hpayload
    refine ⟨h.extend (haccepted ▸ prefix_append _ _) hstream (by rw [← hs']; exact id)
      (by rw [← hs']) ?_, ?_, ?_⟩
    · rw [← hs']
      exact ⟨fun hne => by simpa using hne, hcapacity⟩
    · rw [haccepted, length_append, Segment.dataEnd, hok]
    · rw [← hs']
  · rw [if_neg hroom] at hok
    exact ⟨false, s, hreceive, h, hok, rfl⟩

section

variable (h : StreamInv peer s)

include h

theorem streamInv_handleSynSent (segment : Segment peer) (network : Network)
    (hok : segment.flags ∈ [SYN, ACK ||| SYN, ACK ||| FIN, ACK ||| RST] →
      segment.dataEnd ≤ s.accepted.length) :
    StreamInv peer (s.handleSynSent segment.toTCPPacket network) := by
  have hcore := h.core
  have hset : ∀ ackNumber, StreamCore peer (s.setAckNumber ackNumber) := fun _ => hcore
  unfold handleSynSent
  split_ifs with hsyn hsynAck hfin hrst
  · have hend := hok (by simp [hsyn])
    have hflag : segment.hasSyn = true := by simp [TCPPacket.hasSyn, hsyn]; decide
    obtain ⟨hcore', hack⟩ := streamCore_sendAck (hset _)
      (ackPermitted_of_syn hflag hend) network .SynReceived
    exact streamInv_of_ackPermitted hcore' hack fun hending => by cases hending
  · have hend := hok (by simp [hsynAck])
    have hflag : segment.hasSyn = true := by simp [TCPPacket.hasSyn, hsynAck]; decide
    obtain ⟨hcore', hack⟩ := streamCore_sendAck (hset _)
      (ackPermitted_of_syn hflag hend) network .Established
    exact streamInv_of_ackPermitted hcore' hack fun hending => by cases hending
  · have hend := hok (by simp [hfin])
    have hflag : segment.hasFin = true := by simp [TCPPacket.hasFin, hfin]; decide
    obtain ⟨hcore', hack⟩ := streamCore_sendAck (streamCore_setAckNumberOfFin hcore _)
      (ackPermitted_of_fin hcore hflag hend _) network .Closed
    exact streamInv_of_ackPermitted hcore' hack fun _ => rfl
  · have hend := hok (by simp [hrst])
    obtain ⟨hcore', hack⟩ := streamCore_sendAck (hset _)
      (ackPermitted_of_dataEnd_le hend) network .Closed
    exact streamInv_of_ackPermitted hcore' hack fun _ => rfl
  · -- The socket is closed without an acknowledgement number.
    obtain ⟨sequenceNumber, notAcked, history, hsend, hcore'⟩ :=
      streamCore_sendTcpPacket hcore RST [] (fun hflags => absurd (by decide) hflags) true network
    rw [reset, sendControl, hsend]
    exact ⟨hcore', fun _ hne => absurd rfl hne, Or.inr (Or.inl (Or.inr ⟨rfl, rfl⟩))⟩

theorem streamInv_handleSynReceived (hstate : s.state = .SynReceived)
    (segment : Segment peer) (network : Network)
    (hok : segment.flags = ACK → segment.dataEnd ≤ s.accepted.length) :
    StreamInv peer (s.handleSynReceived segment.toTCPPacket network) := by
  unfold handleSynReceived
  split
  next hflags =>
    have hack := ackPermitted_of_dataEnd_le (hok hflags)
    have hI : StreamInv peer (s.setAckNumber (segment.sequenceNumber + segment.payloadSize)) :=
      streamInv_of_ackPermitted h.core hack (by simp [setAckNumber, hstate, State.isEnding])
    have hreset := streamInv_reset hI (by simp [setAckNumber, hstate]) network
    simp only
    split
    · split
      · exact hreset
      · exact streamInv_of_ackPermitted h.core hack fun hending => by cases hending
    · exact streamInv_of_ackPermitted h.core hack fun hending => by cases hending
    · exact hreset
  next => exact streamInv_reset h (by simp [hstate]) network

/-- After its FIN the socket acknowledges nothing any more, so that it does not matter what the peer
sends. -/
theorem streamInv_handleClosing (hending : s.state.isEnding = true)
    (hne : s.state ≠ .Closed) (packet : TCPPacket) (network : Network) :
    StreamInv peer (s.handleClosing packet network) := by
  have hsilent := h.silent hending hne
  have hset : ∀ ackNumber state, state.isEnding = true →
      StreamInv peer ((s.setAckNumber ackNumber).setState state) :=
    fun _ _ hstate => streamInv_of_ending h.core hsilent hstate
  have hsetFin : ∀ ackNumber state, state.isEnding = true →
      StreamInv peer ((s.setAckNumberOfFin ackNumber).setState state) := fun ackNumber _ hstate =>
    streamInv_of_ending (streamCore_setAckNumberOfFin h.core ackNumber) hsilent hstate
  have hreset := streamInv_reset h (fun hstate => by simp [hstate, State.isEnding] at hending) network
  have hclosed : StreamInv peer (s.setState .Closed) := streamInv_of_ending h.core hsilent rfl
  unfold handleClosing
  split
  · split_ifs; exacts [hset _ _ rfl, hreset]
  · split_ifs; exacts [hset _ _ rfl, hsetFin _ _ rfl, hreset]
  · split_ifs; exacts [hsetFin _ _ rfl, hclosed, hreset]
  · split_ifs; exacts [hset _ _ rfl, hreset]
  · exact h

theorem streamInv_handleEstablished (hstate : s.state = .Established)
    (segment : Segment peer) (network : Network)
    (hok : segment.hasRst = false →
      if segment.payload ≠ [] ∧ s.ipv4.HasRoom segment.ipv4Packet then
        segment.offset = s.accepted.length
      else segment.dataEnd ≤ s.accepted.length) :
    ∃ s', s.handleEstablished segment.toIncomingPacket network = some s' ∧ StreamInv peer s' := by
  have hack := h.ackPermitted (by simp [hstate]) (by simp [hstate, State.isEnding])
  unfold handleEstablished
  split
  next =>
    exact ⟨_, rfl, streamInv_of_ackPermitted h.core hack fun _ => rfl⟩
  next hrst =>
    replace hok := hok (by simpa using hrst)
    split
    next hfin =>
      obtain ⟨taken, s₁, hreceive, hcore₁, hend⟩ : ∃ taken s₁,
          (if segment.payload ≠ [] then s.didReceive segment.toIncomingPacket else some (false, s)) =
            some (taken, s₁) ∧ StreamCore peer s₁ ∧ segment.dataEnd ≤ s₁.accepted.length := by
        split
        next hpayload =>
          obtain ⟨taken, s₁, hreceive, hcore₁, hend, -⟩ :=
            streamCore_didReceive h.core segment (by simpa [hpayload] using hok)
          exact ⟨taken, s₁, hreceive, hcore₁, hend⟩
        next hpayload => exact ⟨false, s, rfl, h.core, by simpa [hpayload] using hok⟩
      obtain ⟨hcore', hack'⟩ := streamCore_sendAck (streamCore_setAckNumberOfFin hcore₁ _)
        (ackPermitted_of_fin hcore₁ hfin hend _) network .CloseWait
      rw [hreceive]
      exact ⟨_, rfl, streamInv_of_ackPermitted hcore' hack'
        fun hending => by cases hending⟩
    next =>
      split
      next hpayload =>
        have hend : segment.dataEnd ≤ s.accepted.length := by simpa [hpayload] using hok
        exact ⟨_, rfl, streamInv_of_ackPermitted h.core (ackPermitted_of_dataEnd_le hend)
          (by simp [setAckNumber, hstate, State.isEnding])⟩
      next hpayload =>
        have hroom : if s.ipv4.HasRoom segment.ipv4Packet then segment.offset = s.accepted.length
            else segment.dataEnd ≤ s.accepted.length := by
          simpa [hpayload] using hok
        obtain ⟨taken, s₁, hreceive, hcore₁, hend, hframe⟩ := streamCore_didReceive
          (s := s.setAckNumber (segment.sequenceNumber + segment.payloadSize)) h.core segment hroom
        have hack₁ : AckPermitted peer s₁ s₁.ackNumber := by
          rw [hframe]
          rw [hframe] at hend
          exact ackPermitted_of_dataEnd_le hend
        have hstate₁ : s₁.state = .Established := by
          rw [hframe]
          exact hstate
        simp only [hreceive, Option.bind_eq_bind, Option.bind_some]
        refine ⟨_, rfl, ?_⟩
        cases taken with
        | true =>
          obtain ⟨sequenceNumber, notAcked, history, hsend, hcore'⟩ :=
            streamCore_sendTcpPacket hcore₁ ACK [] (fun _ => hack₁) true network
          simp only [if_true, sendControl, hsend]
          exact streamInv_of_ackPermitted hcore' hack₁ (by simp [hstate₁, State.isEnding])
        | false =>
          exact streamInv_of_ackPermitted hcore₁ hack₁ (by simp [hstate₁, State.isEnding])

theorem streamInv_handleTcp (segment : Segment peer) (network : Network)
    (hok : SegmentOk s segment) :
    ∃ s', s.handleTcp segment.toIncomingPacket network = some s' ∧ StreamInv peer s' := by
  have hI := streamInv_receiveTcpPacket h segment.toTCPPacket
  obtain ⟨notAcked, history, hreceive⟩ : ∃ notAcked history, s.receiveTcpPacket segment.toTCPPacket =
      { s with notAcked := notAcked, history := history } := by
    unfold receiveTcpPacket
    split
    · exact ⟨_, _, rfl⟩
    · exact ⟨_, _, rfl⟩
  obtain ⟨hsynSent, hsynReceived, hestablished⟩ := hok
  simp only [handleTcp]
  rw [hreceive] at hI ⊢
  have hclosing : ∀ state : State, state.isEnding = true → state ≠ .Closed → s.state = state →
      ∃ s', some (handleClosing { s with notAcked := notAcked, history := history }
        segment.toTCPPacket network) = some s' ∧ StreamInv peer s' := by
    rintro state hending hne rfl
    exact ⟨_, rfl, streamInv_handleClosing hI hending hne _ network⟩
  split
  next => exact ⟨_, rfl, hI⟩
  next => exact ⟨_, rfl, hI⟩
  next hstate => exact ⟨_, rfl, streamInv_reset hI (by rw [hstate]; decide) network⟩
  next hstate => exact ⟨_, rfl, streamInv_reset hI (by rw [hstate]; decide) network⟩
  next hstate => exact ⟨_, rfl, streamInv_handleSynSent hI segment network (hsynSent hstate)⟩
  next hstate =>
    exact ⟨_, rfl, streamInv_handleSynReceived hI hstate segment network (hsynReceived hstate)⟩
  next hstate => exact hclosing .LastAck rfl (by decide) hstate
  next hstate => exact hclosing .FinWait1 rfl (by decide) hstate
  next hstate => exact hclosing .FinWait2 rfl (by decide) hstate
  next hstate => exact hclosing .Closing rfl (by decide) hstate
  next hstate => exact streamInv_handleEstablished hI hstate segment network (hestablished hstate)

/-! ## The application -/

theorem streamInv_protocolSend (hopen : s.isOpen = true)
    (hok : s.shutDownForWriting = false → ¬ AckUnset s) (data : List UInt8) (readable : Bool)
    (network : Network) : StreamInv peer (s.protocolSend data readable network).2 := by
  unfold protocolSend
  split
  next => exact h
  next hshut =>
    have hshut : s.shutDownForWriting = false := by simpa using hshut
    have hack : AckPermitted peer s s.ackNumber := by
      rcases h.ackNumber with hack | hunset | ⟨-, hsilent | hclosed⟩
      · exact hack
      · exact absurd hunset (hok hshut)
      · rw [hshut] at hsilent
        cases hsilent
      · rw [hopen] at hclosed
        cases hclosed
    obtain ⟨sequenceNumber, notAcked, history, hsend, hcore⟩ :=
      streamCore_sendTcpPacket h.core (PUSH ||| ACK) data (fun _ => hack) readable network
    have hI : StreamInv peer (s.sendTcpPacket (PUSH ||| ACK) data readable network).2 := by
      rw [hsend]
      exact ⟨hcore, h.silent, h.ackNumber⟩
    split <;> simp_all

end

/-- What the application receives leaves the buffer. -/
theorem accepted_recv (s : TCPSocket) (params : ReceiveParams) :
    (s.recv params).accepted = s.accepted := by
  unfold recv
  split
  · rfl
  · simp only [accepted, ReceiveParams.take]
    cases params.peek with
    | true =>
      simp only [if_true, DoubleBuffer.peek, DoubleBuffer.contents_flip]
      split <;> rfl
    | false =>
      simp only [Bool.false_eq_true, if_false]
      split
      next bytes hbytes => rw [append_assoc, DoubleBuffer.append_contents_read hbytes]
      next e herror => rw [DoubleBuffer.contents_read_of_error herror]

section

variable (h : StreamInv peer s)

include h

theorem streamInv_recv (params : ReceiveParams) :
    StreamInv peer (s.recv params) := by
  obtain ⟨ipv4, received, hrecv, hbuffer⟩ := s.recv_frame params
  have haccepted := accepted_recv s params
  rw [hrecv] at haccepted ⊢
  have hgrow : s.accepted <+: accepted { s with ipv4 := ipv4, received := received } :=
    haccepted ▸ prefix_rfl
  have hstream : accepted { s with ipv4 := ipv4, received := received } <+: peer.stream :=
    haccepted ▸ h.core.1
  exact ⟨h.core.extend hgrow hstream id rfl (hbuffer ⟨h.core.2.2.1, h.core.2.2.2⟩), h.silent,
    h.ackNumber.imp_left fun hack => hack.mono (ackLimit_mono hgrow hstream id)⟩

/-- The end of `Socket::shutdown` notes what was shut down. -/
theorem streamInv_noteShutdown (reading writing : Bool) (canReadFlag : Bool)
    (hcanRead : s.ipv4.canReadFlag = true → canReadFlag = true) :
    StreamInv peer { s with
      ipv4 := { s.ipv4 with
        canReadFlag := canReadFlag, shutDownForReading := s.ipv4.shutDownForReading || reading }
      shutDownForWriting := s.shutDownForWriting || writing } := by
  obtain ⟨haccepted, hsent, hflag, hcapacity⟩ := h.core
  refine ⟨⟨haccepted, hsent, fun hne => hcanRead (hflag hne), hcapacity⟩, ?_, ?_⟩
  · intro hending hne
    exact (h.silent hending hne).imp_left fun hshut => by simp [hshut]
  · rcases h.ackNumber with hack | hunset | ⟨hending, hsilent⟩
    · exact Or.inl hack
    · exact Or.inr (Or.inl hunset)
    · exact Or.inr (Or.inr ⟨hending, hsilent.imp_left fun hshut => by simp [hshut]⟩)

/-- A FIN is sent, and the socket goes to a state in which it sends nothing more. -/
theorem streamCore_sendFin (hsynSent : s.state ≠ .SynSent)
    (hending : s.state.isEnding = false) (network : Network) (state : State) :
    StreamCore peer ((s.sendControl (FIN ||| ACK) network).setState state) := by
  obtain ⟨sequenceNumber, notAcked, history, hsend, hcore⟩ := streamCore_sendTcpPacket h.core
    (FIN ||| ACK) [] (fun _ => h.ackPermitted hsynSent hending) true network
  rw [sendControl, hsend]
  exact hcore

/-- `shutdown` sends at most a FIN, and only in the state `Established`. -/
theorem streamInv_shutdown (reading writing : Bool) (network : Network) :
    StreamInv peer (s.shutdown reading writing network).2 := by
  by_cases hconnected : s.connected = true
  · obtain ⟨s₁, hs₁⟩ : ∃ s₁, (if !s.shutDownForWriting && writing then
        s.shutDownForWritingNow network else s) = s₁ := ⟨_, rfl⟩
    obtain ⟨canReadFlag, hshutdown, hcanRead⟩ := shutdown_eq hconnected reading writing network hs₁
    rw [hshutdown]
    by_cases hsend : (!s.shutDownForWriting && writing) = true ∧ s.state = .Established
    · obtain ⟨hwriting, hstate⟩ := hsend
      obtain ⟨haccepted, hsent, hflag, hcapacity⟩ :=
        streamCore_sendFin h (by rw [hstate]; decide) (by rw [hstate]; rfl) network .FinWait1
      rw [if_pos hwriting, shutDownForWritingNow, if_pos hstate] at hs₁
      subst hs₁
      refine streamInv_of_ending ⟨haccepted, hsent, fun hne => hcanRead (hflag hne), hcapacity⟩
        (Or.inl ?_) rfl
      simp only [Bool.and_eq_true] at hwriting
      simp [hwriting.2]
    · have hsame : s₁ = s := by
        rw [← hs₁]
        split
        next hwriting => exact if_neg fun hstate => hsend ⟨hwriting, hstate⟩
        next => rfl
      subst hsame
      exact streamInv_noteShutdown h reading writing canReadFlag hcanRead
  · rw [shutdown, if_pos (by simpa using hconnected)]
    exact h

theorem streamInv_close (network : Network) :
    StreamInv peer (s.close network) := by
  have hI := streamInv_shutdown h true true network
  simp only [close]
  split
  next hstate =>
    have hcore := streamCore_sendFin hI (by rw [hstate]; decide) (by rw [hstate]; rfl) network .LastAck
    exact streamInv_of_ending hcore (Or.inr rfl) rfl
  next =>
    refine ⟨hI.core, fun _ _ => Or.inr rfl, ?_⟩
    rcases hI.ackNumber with hack | hunset | ⟨hending, -⟩
    · exact Or.inl hack
    · exact Or.inr (Or.inl hunset)
    · exact Or.inr (Or.inr ⟨hending, Or.inr rfl⟩)

/-- Every step that meets the condition completes and keeps the invariant. -/
theorem stream_step_spec (event : PeerEvent peer) (hok : StreamStepOk s event) :
    ∃ s', peerStep peer s event = some s' ∧ StreamInv peer s' := by
  cases event with
  | deliver segment network => exact streamInv_handleTcp h segment network hok
  | own event hevent =>
    cases event with
    | handleTcp packet network => exact absurd rfl (hevent packet network)
    | send data readable network =>
      refine ⟨_, rfl, ?_⟩
      split
      next hopen => exact streamInv_protocolSend h hopen (hok hopen) data readable network
      next => exact h
    | recv params =>
      refine ⟨_, rfl, ?_⟩
      split
      · exact streamInv_recv h params
      · exact h
    | shutdown reading writing network =>
      refine ⟨_, rfl, ?_⟩
      split
      · exact streamInv_shutdown h reading writing network
      · exact h
    | close network =>
      refine ⟨_, rfl, ?_⟩
      split
      · exact streamInv_close h network
      · exact h
    | sendOutgoingPackets network =>
      exact ⟨_, rfl, h.core, h.silent, h.ackNumber⟩
    | accept =>
      refine ⟨_, rfl, ?_⟩
      split
      · exact ⟨h.core, h.silent, h.ackNumber⟩
      · exact h
    | originatorGone =>
      exact ⟨_, rfl, h.core, h.silent, h.ackNumber⟩

end

/-! ## Whole connections -/

/-- The socket has sent its SYN: `connect` was called, or a listener has created the socket for a SYN
of the peer without payload. -/
inductive OpenedWith (peer : Peer) : TCPSocket → Prop where
  | connect (random : BitVec 32) {network : Network} (h : network.routable = true) :
    OpenedWith peer (create.protocolConnect random network).2
  | listen (segment : Segment peer) (network : Network) (hflags : segment.flags = SYN)
    (hpayload : segment.payload = []) : OpenedWith peer (createClient segment.toTCPPacket network)

theorem streamInv_of_openedWith (h : OpenedWith peer s) : StreamInv peer s := by
  have hempty : ∀ s : TCPSocket, s.ipv4 = create.ipv4 → s.received = [] → s.history = [] →
      StreamCore peer s := by
    intro s hipv4 hreceived hhistory
    rw [StreamCore, accepted, hreceived, hhistory, hipv4]
    exact ⟨ nil_prefix, by simp, by decide, rfl⟩
  cases h with
  | @connect random network hroutable =>
    obtain ⟨sequenceNumber, notAcked, history, hsend, hcore⟩ := streamCore_sendTcpPacket
      (hempty { create with sequenceNumber := random, ackNumber := 0, setupState := .InProgress }
        rfl rfl rfl) SYN [] (fun hflags => absurd (by decide) hflags) true network
    simp only [protocolConnect, hroutable, Bool.not_true, Bool.false_eq_true, if_false, sendControl,
      hsend]
    exact ⟨hcore, (fun hending => by cases hending), Or.inr (Or.inl (Or.inl rfl))⟩
  | listen segment network hflags hpayload =>
    have hsyn : segment.hasSyn = true := by simp [TCPPacket.hasSyn, hflags]; decide
    have hend : segment.dataEnd = 0 := by
      simp [Segment.dataEnd, segment.offset_eq_zero hsyn, hpayload]
    obtain ⟨client, hclient⟩ : ∃ client : TCPSocket, client = { create with
      setupState := .InProgress, direction := .Incoming, hasOriginator := true,
      sequenceNumber := 1000,
      ackNumber := segment.sequenceNumber + segment.payloadSize + 1 } := ⟨_, rfl⟩
    have hack : AckPermitted peer client client.ackNumber := by
      rw [hclient]
      exact ackPermitted_of_syn hsyn (by omega)
    obtain ⟨sequenceNumber, notAcked, history, hsend, hcore⟩ := streamCore_sendTcpPacket
      (hempty client (by rw [hclient]) (by rw [hclient]; rfl) (by rw [hclient]; rfl))
      (SYN ||| ACK) [] (fun _ => hack) true network
    have hcreate : createClient segment.toTCPPacket network =
        ((client.sendTcpPacket (SYN ||| ACK) [] true network).2).setState .SynReceived := by
      rw [hclient]
      rfl
    rw [hcreate, hsend]
    exact streamInv_of_ackPermitted hcore hack fun hending => by cases hending

/-- **The receive stream.** In every connection whose steps meet the condition, for every stream of the
peer, what the application has received is a prefix of the stream, and the socket has acknowledged
nothing that it had not put in its receive buffer. -/
theorem streamOk_of_meets (h : OpenedWith peer s) (events : List (PeerEvent peer))
    (hmeets : Meets (peerStep peer) StreamStepOk s events) :
    Safe (peerStep peer) (StreamOk peer) s events :=
  safe_of_meets (fun _ hI => streamOk_of_core hI.core)
    (fun _ event hI hok => stream_step_spec hI event hok) (streamInv_of_openedWith h) hmeets

/-- A peer that sends three bytes. -/
def threeBytes : Peer := ⟨[1, 2, 3], 7⟩

/-- The first segment of the peer. -/
def synAck : Segment threeBytes where
  toIncomingPacket := fromPeer 7 42 (ACK ||| SYN)
  offset := 0
  payload_isPrefix := by decide
  sequenceNumber_eq := by decide
  offset_eq_zero _ := rfl
  dataEnd_eq := by decide

/-- The first two bytes. -/
def firstData : Segment threeBytes where
  toIncomingPacket := ⟨⟨8, 42, ACK, 20, [1, 2]⟩, by simp [TCPPacket.ipv4Size]⟩
  offset := 0
  payload_isPrefix := by decide
  sequenceNumber_eq := by decide
  offset_eq_zero _ := rfl
  dataEnd_eq := by decide

/-- The last byte, with the FIN. -/
def lastData : Segment threeBytes where
  toIncomingPacket := ⟨⟨10, 42, FIN ||| ACK, 20, [3]⟩, by simp [TCPPacket.ipv4Size]⟩
  offset := 2
  payload_isPrefix := by decide
  sequenceNumber_eq := by decide
  offset_eq_zero := by decide
  dataEnd_eq _ := rfl

/-- The application receives as much as there is. -/
def receiveAll : PeerEvent threeBytes := .own (.recv ⟨false, 100, false, true⟩) (by simp)

/-- The connection is established and the bytes arrive in order. -/
theorem streamOk_of_meets_in_order :
    Safe (peerStep threeBytes) (StreamOk threeBytes) (connecting 41)
      [.deliver synAck wire, .deliver firstData wire, receiveAll, .deliver lastData wire,
        receiveAll] :=
  streamOk_of_meets (.connect 41 rfl) _ (by decide)

/-- Bytes that arrive twice are received twice. If only the last segment arrives, its byte is received
as the first one, and the whole stream and the FIN are acknowledged. -/
theorem duplicate_received_and_lost_acknowledged :
    (∃ s, run (peerStep threeBytes) (connecting 41) [.deliver synAck wire, .deliver firstData wire,
        .deliver firstData wire, receiveAll] = some s ∧
      s.received = [1, 2, 1, 2]) ∧
    ∃ s, run (peerStep threeBytes) (connecting 41) [.deliver synAck wire, .deliver lastData wire,
        receiveAll] = some s ∧
      s.received = [3] ∧ s.history.getLast? = some (.sent ⟨42, 7 + 1 + 3 + 1, ACK, 20, []⟩) :=
  ⟨⟨_, rfl, rfl⟩, ⟨_, rfl, rfl, rfl⟩⟩

end Kernel.TCPSocket
