import PranaOS.Kernel.Net.NetworkTask

/-!
# The retransmission queue of a TCP socket

Every segment that takes sequence space has to be kept until it is acknowledged. What should be kept
follows from the history of the connection alone: the segments that were sent, without those that an
acknowledgement covers.

`send_tcp_packet` neither keeps nor counts a FIN, and `receive_tcp_packet` compares sequence numbers
as if they never wrapped around.
-/

namespace Kernel.TCPSocket

open AK TCPFlags Transition List

/-! ## What should be in the queue -/

/-- In the circular order of the sequence numbers, `a` does not come after `b`. -/
def CircularLe (a b : BitVec 32) : Prop := (b - a).toNat < 2 ^ 31
deriving Decidable

/-- The sequence number behind the segment. -/
def endOf (packet : TCPPacket) : BitVec 32 :=
  packet.sequenceNumber + BitVec.ofNat 32 packet.sequenceLength

/-- What is outstanding after one more event. -/
def outstandingAfter (outstanding : List TCPPacket) : HistoryEvent → List TCPPacket
  | .sent packet => if 0 < packet.sequenceLength then outstanding ++ [packet] else outstanding
  | .acknowledged ackNumber => outstanding.filter fun packet => ¬ CircularLe (endOf packet) ackNumber

variable (history : List HistoryEvent)

/-- The segments that were sent and that no acknowledgement covered since. -/
def outstanding : List TCPPacket := history.foldl outstandingAfter []

/-- How much sequence space an event takes. -/
def HistoryEvent.sequenceLength : HistoryEvent → ℕ
  | .sent packet => packet.sequenceLength
  | .acknowledged _ => 0

/-- How much sequence space was taken: one for every SYN and FIN, and the bytes of the payload. -/
def sequenceSpace : ℕ :=
  history.foldl (fun total event => total + event.sequenceLength) 0

/-- The property. -/
structure RetransmissionOk (isn : BitVec 32) (s : TCPSocket) : Prop where
  notAcked : s.notAcked.map (·.packet) = outstanding s.history
  sequenceNumber : s.sequenceNumber = isn + BitVec.ofNat 32 (sequenceSpace s.history)

/-- The comparison of the code agrees with the circular order on the queue, in which the segments that
are covered come first. -/
def AckAgrees (ackNumber : BitVec 32) (notAcked : List OutgoingPacket) : Prop :=
  (∀ packet ∈ notAcked, packet.ackNumber ≤ ackNumber ↔ CircularLe packet.ackNumber ackNumber) ∧
    notAcked.Pairwise fun first second =>
      CircularLe second.ackNumber ackNumber → CircularLe first.ackNumber ackNumber
deriving Decidable

variable (s : TCPSocket)

/-- `shutdown` sends a FIN. -/
def ShutdownSendsFin : Prop :=
  s.connected = true ∧ s.shutDownForWriting = false ∧ s.state = .Established
deriving Decidable

/-- The condition on a step: the comparison agrees with the circular order, and no FIN is sent. -/
def QueueOk : Event → Prop
  | .handleTcp packet _ => packet.hasAck = true → AckAgrees packet.ackNumber s.notAcked
  | .shutdown _ writing _ => s.isOpen = true → writing = true → ¬ ShutdownSendsFin s
  | .close _ => s.isOpen = true → ¬ ShutdownSendsFin s ∧ s.state ≠ .CloseWait
  | _ => True

instance decidableQueueOk : (event : Event) → Decidable (QueueOk s event)
  | .handleTcp packet _ =>
    inferInstanceAs (Decidable (packet.hasAck = true → AckAgrees packet.ackNumber s.notAcked))
  | .shutdown _ writing _ =>
    inferInstanceAs (Decidable (s.isOpen = true → writing = true → ¬ ShutdownSendsFin s))
  | .close _ =>
    inferInstanceAs (Decidable (s.isOpen = true → ¬ ShutdownSendsFin s ∧ s.state ≠ .CloseWait))
  | .send .. | .recv _ | .sendOutgoingPackets _ | .accept | .originatorGone => isTrue trivial

/-! ## The invariant -/

/-- The invariant of the runs whose steps meet the condition. It depends on the queue, the history, the
sequence number and the receive buffer only. -/
def QueueInv (isn : BitVec 32) (s : TCPSocket) : Prop :=
  s.notAcked.map (·.packet) = outstanding s.history ∧
  s.sequenceNumber = isn + BitVec.ofNat 32 (sequenceSpace s.history) ∧
  (∀ packet ∈ s.notAcked, packet.ackNumber = endOf packet.packet) ∧
  (s.ipv4.receiveBuffer.isEmpty = false → s.ipv4.canReadFlag = true) ∧
  s.ipv4.receiveBuffer.capacity = 65536

variable {isn : BitVec 32} {s s' : TCPSocket} {network : Network}

theorem outstanding_concat (event : HistoryEvent) :
    outstanding (history ++ [event]) = outstandingAfter (outstanding history) event := by
  simp [outstanding]

theorem sequenceSpace_concat (event : HistoryEvent) :
    sequenceSpace (history ++ [event]) = sequenceSpace history + event.sequenceLength := by
  simp [sequenceSpace]

variable (hI : QueueInv isn s)

include hI

/-- Sending the segments again changes none of them. -/
theorem queueInv_sendOutgoingPackets (network : Network) :
    QueueInv isn (s.sendOutgoingPackets network) := by
  have htransmit : ∀ packet : OutgoingPacket,
      (packet.transmit network.now).packet = packet.packet ∧
        (packet.transmit network.now).ackNumber = packet.ackNumber := by
    intro packet
    unfold OutgoingPacket.transmit
    split <;> exact ⟨rfl, rfl⟩
  obtain ⟨hnotAcked, hsequence, hackNumber, hbuffer⟩ := hI
  unfold sendOutgoingPackets
  split
  · refine ⟨?_, hsequence, ?_, hbuffer⟩
    · rw [← hnotAcked, List.map_map]
      exact map_congr_left fun packet _ => (htransmit packet).1
    · intro packet hpacket
      obtain ⟨before, hbefore, rfl⟩ := mem_map.mp hpacket
      rw [(htransmit before).1, (htransmit before).2]
      exact hackNumber before hbefore
  · exact ⟨hnotAcked, hsequence, hackNumber, hbuffer⟩

/-! ## Sending -/

/-- A segment that takes no sequence space is sent. -/
theorem queueInv_record {packet : TCPPacket} (h : packet.sequenceLength = 0) :
    QueueInv isn (s.record (.sent packet)) := by
  obtain ⟨hnotAcked, hsequence, hrest⟩ := hI
  refine ⟨?_, ?_, hrest⟩
  · rw [history_record, outstanding_concat, notAcked_record, hnotAcked, outstandingAfter, h]
    simp
  · rw [history_record, sequenceNumber_record, sequenceSpace_concat, HistoryEvent.sequenceLength, h,
      hsequence, Nat.add_zero]

/-- A segment without SYN, FIN and payload takes no sequence space. -/
theorem queueInv_sendControl {flags : TCPFlags} (hsyn : flags &&& SYN = 0)
    (hfin : flags &&& FIN = 0) (network : Network) : QueueInv isn (s.sendControl flags network) := by
  rcases sendControl_eq s hsyn network with h | h <;> rw [h]
  · apply queueInv_record hI
    simp [TCPPacket.sequenceLength, TCPPacket.hasSyn, TCPPacket.hasFin, buildPacket, hsyn, hfin]
  · exact hI

/-- A segment with a SYN or with payload is queued and counted, unless it has a FIN. -/
theorem queueInv_sendTcpPacket (flags : TCPFlags) (payload : List UInt8)
    (hfin : flags &&& FIN = 0) (hsyn : flags &&& SYN ≠ 0 → payload = []) (readable : Bool)
    (network : Network) : QueueInv isn (s.sendTcpPacket flags payload readable network).2 := by
  obtain ⟨packet, hpacket⟩ : ∃ packet, packet = s.buildPacket flags payload := ⟨_, rfl⟩
  have hflags : packet.flags = flags := by rw [hpacket]; rfl
  have hpayload : packet.payload = payload := by rw [hpacket]; rfl
  have hsequence : packet.sequenceNumber = s.sequenceNumber := by rw [hpacket]; rfl
  have hhasSyn : packet.hasSyn = true ↔ flags &&& SYN ≠ 0 := by simp [TCPPacket.hasSyn, hflags]
  have hlength : packet.sequenceLength = payload.length + if packet.hasSyn then 1 else 0 := by
    simp [TCPPacket.sequenceLength, TCPPacket.hasFin, hflags, hfin, hpayload]
  -- The sequence number moves behind the segment.
  have hnext : (if flags &&& SYN ≠ 0 then s.sequenceNumber + 1
      else s.sequenceNumber + packet.payloadSize) = endOf packet := by
    rw [endOf, hlength]
    split
    next h => simp [hhasSyn.mpr h, hsyn h, hsequence]
    next h => simp [mt hhasSyn.mp h, TCPPacket.payloadSize, hsequence, hpayload]
  simp only [sendTcpPacket, ← hpacket]
  rw [hnext]
  cases readable with
  | false => exact hI
  | true =>
    simp only [Bool.not_true, Bool.false_eq_true, if_false]
    split
    next hqueued =>
      apply queueInv_sendOutgoingPackets
      have hpos : 0 < packet.sequenceLength := by
        rw [hlength]
        rcases Bool.or_eq_true_iff.mp hqueued with h | h
        · simp [h]
        · have : payload.length ≠ 0 := by simpa using h
          omega
      obtain ⟨hnotAcked, hsequence', hackNumber, hbuffer⟩ := hI
      refine ⟨?_, ?_, ?_, hbuffer⟩
      · rw [history_record, history_enqueue, outstanding_concat, outstandingAfter, if_pos hpos,
          ← hnotAcked]
        simp
      · rw [history_record, history_enqueue, sequenceSpace_concat, BitVec.ofNat_add,
          ← BitVec.add_assoc, ← hsequence', ← hsequence]
        rfl
      · intro p hp
        rcases mem_append.mp hp with hp | hp
        · exact hackNumber p hp
        · rw [mem_singleton.mp hp]
    next hcontrol =>
      have hzero : packet.sequenceLength = 0 := by
        obtain ⟨hnotSyn, hempty⟩ : packet.hasSyn = false ∧ payload = [] := by simpa using hcontrol
        simp [hlength, hnotSyn, hempty]
      have hsame : endOf packet = s.sequenceNumber := by
        simp [endOf, hzero, hsequence]
      have hI' : QueueInv isn { s with sequenceNumber := endOf packet } := by
        rw [hsame]
        exact hI
      split
      · exact hI'
      · split
        · exact hI'
        · exact queueInv_record hI' hzero

omit hI

/-! ## Receiving -/

/-- Where the comparison agrees with the circular order, exactly the covered segments are removed. -/
theorem removeAcked_eq_filter {ackNumber : BitVec 32} {notAcked : List OutgoingPacket}
    (h : AckAgrees ackNumber notAcked) :
    removeAcked ackNumber notAcked =
      notAcked.filter fun packet => ¬ CircularLe packet.ackNumber ackNumber := by
  obtain ⟨hagree, hfront⟩ := h
  induction notAcked with
  | nil => rfl
  | cons packet rest ih =>
    obtain ⟨hfirst, hrest⟩ := pairwise_cons.mp hfront
    have hiff := hagree packet mem_cons_self
    rw [removeAcked]
    split
    next hle =>
      rw [filter_cons_of_neg (by simpa using hiff.mp hle)]
      exact ih (fun p hp => hagree p (mem_cons_of_mem _ hp)) hrest
    next hle =>
      -- Nothing behind a segment that is not covered is covered.
      have hnot : ¬ CircularLe packet.ackNumber ackNumber := mt hiff.mpr hle
      rw [filter_cons_of_pos (by simpa using hnot), filter_eq_self.mpr]
      intro p hp
      simpa using mt (hfirst p hp) hnot

section

variable (hI : QueueInv isn s)

include hI

theorem queueInv_receiveTcpPacket {packet : TCPPacket}
    (h : packet.hasAck = true → AckAgrees packet.ackNumber s.notAcked) :
    QueueInv isn (s.receiveTcpPacket packet) := by
  unfold receiveTcpPacket
  split
  next hack =>
    have hremove := removeAcked_eq_filter (h hack)
    obtain ⟨hnotAcked, hsequence, hackNumber, hbuffer⟩ := hI
    refine ⟨?_, ?_, ?_, hbuffer⟩
    · rw [history_record, notAcked_record, outstanding_concat, outstandingAfter, ← hnotAcked,
        hremove, filter_map]
      congr 1
      apply filter_congr
      intro p hp
      simp [hackNumber p hp]
    · rw [history_record, sequenceNumber_record, sequenceSpace_concat,
        HistoryEvent.sequenceLength, Nat.add_zero, hsequence]
    · intro p hp
      rw [notAcked_record, hremove] at hp
      exact hackNumber p (mem_filter.mp hp).1
  next => exact hI

variable (packet : IncomingPacket)

/-- `did_receive` only changes the receive buffer. -/
theorem queueInv_didReceive :
    ∃ taken s', s.didReceive packet = some (taken, s') ∧ QueueInv isn s' := by
  obtain ⟨hnotAcked, hsequence, hackNumber, hflag, hcapacity⟩ := hI
  rcases didReceive_eq ⟨hflag, hcapacity⟩ packet with ⟨-, receiveBuffer, h, -, hcapacity'⟩ | ⟨-, h⟩
  · exact ⟨true, _, h, hnotAcked, hsequence, hackNumber, fun hne => by simpa using hne, hcapacity'⟩
  · exact ⟨false, s, h, hnotAcked, hsequence, hackNumber, hflag, hcapacity⟩

theorem queueInv_reset (network : Network) : QueueInv isn (s.reset network) :=
  queueInv_sendControl hI (by decide) (by decide) network

theorem queueInv_sendAck (network : Network) :
    QueueInv isn (s.sendControl ACK network) :=
  queueInv_sendControl hI (by decide) (by decide) network

theorem queueInv_handleSynSent (packet : TCPPacket) (network : Network) :
    QueueInv isn (s.handleSynSent packet network) := by
  have hack : ∀ ackNumber, QueueInv isn ((s.setAckNumber ackNumber).sendControl ACK network) :=
    fun ackNumber => queueInv_sendAck (s := s.setAckNumber ackNumber) hI network
  have hackFin : ∀ ackNumber, QueueInv isn ((s.setAckNumberOfFin ackNumber).sendControl ACK network) :=
    fun ackNumber => queueInv_sendAck (s := s.setAckNumberOfFin ackNumber) hI network
  unfold handleSynSent
  split_ifs
  · exact hack _
  · exact hack (packet.sequenceNumber + packet.payloadSize + 1)
  · exact hackFin _
  · exact hack _
  · exact queueInv_reset hI network

theorem queueInv_handleSynReceived (packet : TCPPacket) (network : Network) :
    QueueInv isn (s.handleSynReceived packet network) := by
  have hreset := queueInv_reset
    (s := s.setAckNumber (packet.sequenceNumber + packet.payloadSize)) hI network
  unfold handleSynReceived
  split
  · simp only
    split
    · split
      · exact hreset
      · exact hI
    · exact hI
    · exact hreset
  · exact queueInv_reset hI network

theorem queueInv_handleClosing (packet : TCPPacket) (network : Network) :
    QueueInv isn (s.handleClosing packet network) := by
  have hreset := queueInv_reset hI network
  unfold handleClosing
  split
  · split_ifs; exacts [hI, hreset]
  · split_ifs; exacts [hI, hI, hreset]
  · split_ifs; exacts [hI, hI, hreset]
  · split_ifs; exacts [hI, hreset]
  · exact hI

theorem queueInv_handleEstablished
    (network : Network) :
    ∃ s', s.handleEstablished packet network = some s' ∧ QueueInv isn s' := by
  unfold handleEstablished
  split
  · exact ⟨_, rfl, hI⟩
  · split
    · obtain ⟨taken, s₁, hreceive, hI₁⟩ : ∃ taken s₁, (if packet.payload ≠ [] then s.didReceive packet
          else some (false, s)) = some (taken, s₁) ∧ QueueInv isn s₁ := by
        split
        · exact queueInv_didReceive hI packet
        · exact ⟨false, s, rfl, hI⟩
      rw [hreceive]
      exact ⟨_, rfl, queueInv_sendAck (s := s₁.setAckNumberOfFin
        (packet.sequenceNumber + packet.payloadSize + 1)) hI₁ network⟩
    · simp only
      split
      · exact ⟨_, rfl, hI⟩
      · obtain ⟨taken, s₁, hreceive, hI₁⟩ := queueInv_didReceive
          (s := s.setAckNumber (packet.sequenceNumber + packet.payloadSize)) hI packet
        simp only [hreceive, Option.bind_eq_bind, Option.bind_some]
        refine ⟨_, rfl, ?_⟩
        cases taken with
        | true => exact queueInv_sendAck hI₁ network
        | false => exact hI₁

theorem queueInv_handleTcp (network : Network)
    (h : packet.hasAck = true → AckAgrees packet.ackNumber s.notAcked) :
    ∃ s', s.handleTcp packet network = some s' ∧ QueueInv isn s' := by
  have hI' := queueInv_receiveTcpPacket hI h
  simp only [handleTcp]
  split
  · exact ⟨_, rfl, hI'⟩
  · exact ⟨_, rfl, hI'⟩
  · exact ⟨_, rfl, queueInv_reset hI' network⟩
  · exact ⟨_, rfl, queueInv_reset hI' network⟩
  · exact ⟨_, rfl, queueInv_handleSynSent hI' _ network⟩
  · exact ⟨_, rfl, queueInv_handleSynReceived hI' _ network⟩
  · exact ⟨_, rfl, queueInv_handleClosing hI' _ network⟩
  · exact ⟨_, rfl, queueInv_handleClosing hI' _ network⟩
  · exact ⟨_, rfl, queueInv_handleClosing hI' _ network⟩
  · exact ⟨_, rfl, queueInv_handleClosing hI' _ network⟩
  · exact queueInv_handleEstablished hI' packet network

/-! ## The application -/

theorem queueInv_protocolSend (data : List UInt8) (readable : Bool)
    (network : Network) : QueueInv isn (s.protocolSend data readable network).2 := by
  have hsend := queueInv_sendTcpPacket hI (PUSH ||| ACK) data (by decide)
    (fun h => absurd (by decide) h) readable network
  unfold protocolSend
  split
  · exact hI
  · split <;> simp_all

/-- `recv` only changes the receive buffer. -/
theorem queueInv_recv (params : ReceiveParams) :
    QueueInv isn (s.recv params) := by
  obtain ⟨ipv4, received, hrecv, hbuffer⟩ := s.recv_frame params
  obtain ⟨hnotAcked, hsequence, hackNumber, hflag, hcapacity⟩ := hI
  obtain ⟨hflag', hcapacity'⟩ := hbuffer ⟨hflag, hcapacity⟩
  rw [hrecv]
  exact ⟨hnotAcked, hsequence, hackNumber, hflag', hcapacity'⟩

/-- A `shutdown` that sends no FIN does not change the queue, nor the state of the protocol. -/
theorem queueInv_shutdown (reading writing : Bool) (network : Network)
    (h : writing = true → ¬ ShutdownSendsFin s) :
    QueueInv isn (s.shutdown reading writing network).2 ∧
      (s.shutdown reading writing network).2.state = s.state := by
  by_cases hconnected : s.connected = true
  · have hsame : (if !s.shutDownForWriting && writing then s.shutDownForWritingNow network
        else s) = s := by
      split
      next hsend =>
        obtain ⟨hshut, hwriting⟩ : s.shutDownForWriting = false ∧ writing = true := by
          simpa using hsend
        exact if_neg fun hstate => h hwriting ⟨hconnected, hshut, hstate⟩
      next => rfl
    obtain ⟨canReadFlag, hshutdown, hcanRead⟩ := shutdown_eq hconnected reading writing network hsame
    obtain ⟨hnotAcked, hsequence, hackNumber, hflag, hcapacity⟩ := hI
    rw [hshutdown]
    exact ⟨⟨hnotAcked, hsequence, hackNumber, fun hne => hcanRead (hflag hne), hcapacity⟩, rfl⟩
  · rw [shutdown, if_pos (by simpa using hconnected)]
    exact ⟨hI, rfl⟩

theorem queueInv_close (network : Network) (h : ¬ ShutdownSendsFin s)
    (hstate : s.state ≠ .CloseWait) : QueueInv isn (s.close network) := by
  obtain ⟨hI', hstate'⟩ := queueInv_shutdown hI true true network fun _ => h
  simp only [close]
  rw [if_neg (by rw [hstate']; exact hstate)]
  exact hI'

/-- Every step that meets the condition completes and keeps the invariant. -/
theorem queue_step_spec (event : Event) (hok : QueueOk s event) :
    ∃ s', s.step event = some s' ∧ QueueInv isn s' := by
  cases event with
  | handleTcp packet network => exact queueInv_handleTcp hI packet network hok
  | send data readable network =>
    refine ⟨_, rfl, ?_⟩
    split
    · exact queueInv_protocolSend hI data readable network
    · exact hI
  | recv params =>
    refine ⟨_, rfl, ?_⟩
    split
    · exact queueInv_recv hI params
    · exact hI
  | shutdown reading writing network =>
    refine ⟨_, rfl, ?_⟩
    split
    next hopen => exact (queueInv_shutdown hI reading writing network (hok hopen)).1
    next => exact hI
  | close network =>
    refine ⟨_, rfl, ?_⟩
    split
    next hopen => exact queueInv_close hI network (hok hopen).1 (hok hopen).2
    next => exact hI
  | sendOutgoingPackets network => exact ⟨_, rfl, queueInv_sendOutgoingPackets hI network⟩
  | accept =>
    refine ⟨_, rfl, ?_⟩
    split <;> exact hI
  | originatorGone => exact ⟨_, rfl, hI⟩

end

/-! ## Whole connections -/

/-- The socket has just sent its SYN with the initial sequence number `isn`: `connect` was called, or a
listener has created the socket. -/
inductive Opened : BitVec 32 → TCPSocket → Prop where
  | connect (random : BitVec 32) {network : Network} (h : network.routable = true) :
    Opened random (create.protocolConnect random network).2
  | listen (packet : TCPPacket) (network : Network) : Opened 1000 (createClient packet network)

theorem queueInv_of_opened (h : Opened isn s) : QueueInv isn s := by
  have hempty : ∀ s : TCPSocket, s.notAcked = [] → s.history = [] → s.ipv4 = create.ipv4 →
      QueueInv s.sequenceNumber s := by
    intro s hnotAcked hhistory hipv4
    rw [QueueInv, hnotAcked, hhistory, hipv4]
    exact ⟨rfl, by simp [sequenceSpace], by simp, by decide, rfl⟩
  cases h with
  | @connect _ network hroutable =>
    have hI := queueInv_sendTcpPacket (hempty { create with
      sequenceNumber := isn, ackNumber := 0, setupState := .InProgress } rfl rfl rfl)
      SYN [] (by decide) (fun _ => rfl) true network
    simp only [protocolConnect, hroutable, Bool.not_true, Bool.false_eq_true, if_false]
    exact hI
  | listen packet network =>
    have hI := queueInv_sendTcpPacket (hempty ({ create with
      setupState := .InProgress, direction := .Incoming, hasOriginator := true,
      sequenceNumber := 1000 }.setAckNumber (packet.sequenceNumber + packet.payloadSize + 1)) rfl rfl
        rfl)
      (SYN ||| ACK) [] (by decide) (fun _ => rfl) true network
    exact hI

/-- **The retransmission queue.** In every connection whose steps meet the condition, from any initial
sequence number, the queue has exactly the segments that are outstanding, and the next sequence number
is behind everything that was sent. -/
theorem retransmissionOk_of_meets (h : Opened isn s) (events : List Event)
    (hmeets : Meets step QueueOk s events) : Safe step (RetransmissionOk isn) s events :=
  safe_of_meets (fun _ hI => ⟨hI.1, hI.2.1⟩) (fun _ event hI hok => queue_step_spec hI event hok)
    (queueInv_of_opened h) hmeets

/-- A network that carries everything. -/
def wire : Network := ⟨1000000000, true, none⟩

/-- A segment of the peer. -/
def fromPeer (sequenceNumber ackNumber : BitVec 32) (flags : TCPFlags) : IncomingPacket :=
  ⟨⟨sequenceNumber, ackNumber, flags, 20, []⟩, by simp [TCPPacket.ipv4Size]⟩

/-- A socket that has connected with the initial sequence number `isn`. -/
def connecting (isn : BitVec 32) : TCPSocket := (create.protocolConnect isn wire).2

/-- The connection is established, two bytes are sent and acknowledged. -/
theorem retransmissionOk_of_meets_send :
    Safe step (RetransmissionOk 41) (connecting 41)
      [.handleTcp (fromPeer 7 42 (ACK ||| SYN)) wire, .send [1, 2] true wire,
        .handleTcp (fromPeer 8 44 ACK) wire] :=
  retransmissionOk_of_meets (.connect 41 rfl) _ (by decide)

/-- The FIN that `shutdown` sends is neither queued nor counted, and just before the sequence numbers
wrap around a segment is dropped by an acknowledgement of the segment before it. -/
theorem fin_and_wrapped_segment_dropped :
    (∃ s, run step (connecting 41) [.handleTcp (fromPeer 7 42 (ACK ||| SYN)) wire,
        .shutdown false true wire] = some s ∧
      (outstanding s.history).map (·.hasFin) = [true] ∧ s.notAcked.length = 0 ∧
      s.sequenceNumber = 42 ∧ sequenceSpace s.history = 2) ∧
    ∃ s, run step (connecting 0xFFFFFFFE) [.handleTcp (fromPeer 7 0xFFFFFFFF (ACK ||| SYN)) wire,
        .send [1, 2] true wire, .handleTcp (fromPeer 8 0xFFFFFFFF ACK) wire] = some s ∧
      (outstanding s.history).map (·.payload) = [[1, 2]] ∧ s.notAcked.length = 0 :=
  ⟨⟨_, rfl, by decide, rfl, rfl, rfl⟩, ⟨_, rfl, by decide, rfl⟩⟩

end Kernel.TCPSocket
