import PranaOS.Kernel.Net.IPv4Socket

/-!
# `Kernel/Net/TCPSocket.cpp`

One end of a TCP connection: what it sends, the segments that it keeps in `m_not_acked` until they are
acknowledged, and what the application and the timer do to it. What the network does to it is
`handle_tcp`.

`history` and `received` are not part of the socket: they record the segments that were sent, the
acknowledgements that arrived, and the bytes that the application has got.
-/

namespace Kernel

open AK

/-- `TCPFlags`. -/
abbrev TCPFlags := BitVec 9

namespace TCPFlags

def FIN : TCPFlags := 0x01
def SYN : TCPFlags := 0x02
def RST : TCPFlags := 0x04
def PUSH : TCPFlags := 0x08
def ACK : TCPFlags := 0x10

end TCPFlags

/-- A `TCPPacket` with its payload, small enough for an IPv4 packet. -/
structure TCPPacket where
  sequenceNumber : BitVec 32
  ackNumber : BitVec 32
  flags : TCPFlags
  headerSize : ℕ
  payload : List UInt8
deriving DecidableEq

namespace TCPPacket

variable (self : TCPPacket)

/-- `has_fin`. -/
def hasFin : Bool := self.flags &&& TCPFlags.FIN ≠ 0

/-- `has_syn`. -/
def hasSyn : Bool := self.flags &&& TCPFlags.SYN ≠ 0

/-- `has_rst`. -/
def hasRst : Bool := self.flags &&& TCPFlags.RST ≠ 0

/-- `has_ack`. -/
def hasAck : Bool := self.flags &&& TCPFlags.ACK ≠ 0

/-- `payload_size`, as it enters the arithmetic of sequence numbers. -/
def payloadSize : BitVec 32 := BitVec.ofNat 32 self.payload.length

/-- The size of the IPv4 packet. -/
def ipv4Size : ℕ := 20 + self.headerSize + self.payload.length

/-- How much of the sequence space the segment takes. -/
def sequenceLength : ℕ :=
  self.payload.length + (if self.hasSyn then 1 else 0) + if self.hasFin then 1 else 0

end TCPPacket

/-- A packet that arrives in an IPv4 packet, whose total length has 16 bits. -/
structure IncomingPacket extends TCPPacket where
  size_lt : toTCPPacket.ipv4Size < 2 ^ 16

/-- The IPv4 packet that carries the segment. -/
def IncomingPacket.ipv4Packet (self : IncomingPacket) : Packet where
  size := self.ipv4Size
  payload := self.payload
  size_lt := self.size_lt
  payload_le := by
    simp only [TCPPacket.ipv4Size]
    omega

/-- What the network is like when the socket sends. -/
structure Network where
  /-- The time. -/
  now : ℕ
  /-- `route_to` finds a route. -/
  routable : Bool
  /-- What `send_ipv4` fails with, if it does. -/
  sendError : Option Errno

namespace TCPSocket

/-- `TCPSocket::State`. -/
inductive State where
  | Closed
  | Listen
  | SynSent
  | SynReceived
  | Established
  | CloseWait
  | LastAck
  | FinWait1
  | FinWait2
  | Closing
  | TimeWait
deriving DecidableEq, Repr

/-- `TCPSocket::Direction`. -/
inductive Direction where
  | Unspecified
  | Outgoing
  | Incoming
  | Passive
deriving DecidableEq, Repr

/-- `TCPSocket::Error`. -/
inductive Error where
  | None
  | FINDuringConnect
  | RSTDuringConnect
  | UnexpectedFlagsDuringConnect
deriving DecidableEq, Repr

/-- `Socket::SetupState`. -/
inductive SetupState where
  | Unstarted
  | InProgress
  | Completed
deriving DecidableEq, Repr

/-- `OutgoingPacket`. -/
structure OutgoingPacket where
  /-- `ack_number`, the sequence number behind the segment. -/
  ackNumber : BitVec 32
  /-- `buffer`. -/
  packet : TCPPacket
  /-- `tx_counter`. -/
  txCounter : ℕ
  /-- `tx_time`. -/
  txTime : ℕ

/-- What happened on the connection, for the record. -/
inductive HistoryEvent where
  /-- `send_tcp_packet` built the segment and queued it or gave it to the adapter. -/
  | sent (packet : TCPPacket)
  /-- An acknowledgement arrived. -/
  | acknowledged (ackNumber : BitVec 32)

end TCPSocket

open TCPSocket in
/-- `TCPSocket`. -/
structure TCPSocket where
  /-- What it inherits from `IPv4Socket`. -/
  ipv4 : IPv4Socket
  /-- `m_state`. -/
  state : State
  /-- `m_direction`. -/
  direction : Direction
  /-- `m_error`. -/
  error : Error
  /-- `m_setup_state`. -/
  setupState : SetupState
  /-- `m_connected`. -/
  connected : Bool
  /-- `m_shut_down_for_writing`. -/
  shutDownForWriting : Bool
  /-- `m_originator` is set. -/
  hasOriginator : Bool
  /-- The application has not closed the socket. -/
  isOpen : Bool
  /-- `m_sequence_number`. -/
  sequenceNumber : BitVec 32
  /-- `m_ack_number`. -/
  ackNumber : BitVec 32
  /-- `m_not_acked`. -/
  notAcked : List OutgoingPacket
  /-- What was sent, and which acknowledgements arrived. -/
  history : List HistoryEvent
  /-- The bytes that the application has received. -/
  received : List UInt8
  /-- A FIN has been taken note of in `m_ack_number`. -/
  finReceived : Bool

namespace TCPSocket

/-- `protocol_is_disconnected`. -/
def State.isDisconnected : State → Bool
  | Closed | CloseWait | LastAck | FinWait1 | FinWait2 | Closing | TimeWait => true
  | _ => false

/-- A socket as `socket()` makes it. -/
def create : TCPSocket where
  ipv4 := .create .None true
  state := .Closed
  direction := .Unspecified
  error := .None
  setupState := .Unstarted
  connected := false
  shutDownForWriting := false
  hasOriginator := false
  isOpen := true
  sequenceNumber := 0
  ackNumber := 0
  notAcked := []
  history := []
  received := []
  finReceived := false

variable (self : TCPSocket)

/-- `set_state`. A socket that is closed is released to its originator. -/
def setState (newState : State) : TCPSocket :=
  { self with
    state := newState
    ipv4 := { self.ipv4 with
      role :=
        if newState = .Established ∧ self.direction = .Outgoing then .Connected else self.ipv4.role
      protocolIsDisconnected := newState.isDisconnected }
    hasOriginator := if newState = .Closed then false else self.hasOriginator }

/-! ## Sending -/

/-- One iteration of the loop of `send_outgoing_packets`. -/
def OutgoingPacket.transmit (now : ℕ) (packet : OutgoingPacket) : OutgoingPacket :=
  if now - packet.txTime ≤ 500000000 then packet
  else { packet with txTime := now, txCounter := packet.txCounter + 1 }

/-- `send_outgoing_packets`. -/
def sendOutgoingPackets (network : Network) : TCPSocket :=
  { self with
    notAcked :=
      if network.routable then self.notAcked.map (OutgoingPacket.transmit network.now)
      else self.notAcked }

/-- The segment that `send_tcp_packet` builds. -/
def buildPacket (flags : TCPFlags) (payload : List UInt8) : TCPPacket where
  sequenceNumber := self.sequenceNumber
  ackNumber := if flags &&& TCPFlags.ACK ≠ 0 then self.ackNumber else 0
  flags := flags
  headerSize := 20
  payload := payload

/-- The segment is recorded. -/
def record (event : HistoryEvent) : TCPSocket :=
  { self with history := self.history ++ [event] }

/-- The segment is queued until it is acknowledged. -/
def enqueue (packet : TCPPacket) : TCPSocket :=
  { self with
    notAcked := self.notAcked ++
      [{ ackNumber := self.sequenceNumber, packet := packet, txCounter := 0, txTime := 0 }] }

section

variable (self : TCPSocket) (event : HistoryEvent) (packet : TCPPacket)

@[simp]
theorem history_record : (self.record event).history = self.history ++ [event] := rfl

@[simp]
theorem notAcked_record : (self.record event).notAcked = self.notAcked := rfl

@[simp]
theorem sequenceNumber_record : (self.record event).sequenceNumber = self.sequenceNumber := rfl

@[simp]
theorem history_enqueue : (self.enqueue packet).history = self.history := rfl

@[simp]
theorem notAcked_enqueue :
    (self.enqueue packet).notAcked = self.notAcked ++ [⟨self.sequenceNumber, packet, 0, 0⟩] := rfl

end

/-- `send_tcp_packet`. The payload can be read if `readable`. -/
def sendTcpPacket (flags : TCPFlags) (payload : List UInt8) (readable : Bool)
    (network : Network) : KResultOr Unit × TCPSocket :=
  let packet := self.buildPacket flags payload
  if !readable then (.error .EFAULT, self)
  else
    let self := { self with
      sequenceNumber :=
        if flags &&& TCPFlags.SYN ≠ 0 then self.sequenceNumber + 1
        else self.sequenceNumber + packet.payloadSize }
    if packet.hasSyn || !payload.isEmpty then
      (.ok (), ((self.enqueue packet).record (.sent packet)).sendOutgoingPackets network)
    else if !network.routable then (.error .EHOSTUNREACH, self)
    else
      match network.sendError with
      | some error => (.error error, self)
      | none => (.ok (), self.record (.sent packet))

/-- What sending can change. -/
theorem sendTcpPacket_frame (flags : TCPFlags) (payload : List UInt8)
    (readable : Bool) (network : Network) :
    ∃ sequenceNumber notAcked history, (self.sendTcpPacket flags payload readable network).2 =
        { self with sequenceNumber := sequenceNumber, notAcked := notAcked, history := history } ∧
      (history = self.history ∨
        history = self.history ++ [.sent (self.buildPacket flags payload)]) := by
  simp only [sendTcpPacket]
  split
  · exact ⟨_, _, _, rfl, Or.inl rfl⟩
  · split
    · exact ⟨_, _, _, rfl, Or.inr rfl⟩
    · split
      · exact ⟨_, _, _, rfl, Or.inl rfl⟩
      · split
        · exact ⟨_, _, _, rfl, Or.inl rfl⟩
        · exact ⟨_, _, _, rfl, Or.inr rfl⟩

/-- A segment without payload is sent, whatever comes of it. -/
def sendControl (flags : TCPFlags) (network : Network) : TCPSocket :=
  (self.sendTcpPacket flags [] true network).2

/-- A segment without SYN and without payload is sent or not, and changes nothing else. -/
theorem sendControl_eq {flags : TCPFlags} (hsyn : flags &&& TCPFlags.SYN = 0)
    (network : Network) :
    self.sendControl flags network = self.record (.sent (self.buildPacket flags [])) ∨
      self.sendControl flags network = self := by
  have hsame : self.sequenceNumber + (self.buildPacket flags []).payloadSize =
      self.sequenceNumber := by
    simp [TCPPacket.payloadSize, buildPacket]
  have hnotSyn : (self.buildPacket flags []).hasSyn = false := by
    simp [TCPPacket.hasSyn, buildPacket, hsyn]
  simp only [sendControl, sendTcpPacket, hsyn, hsame, hnotSyn, Bool.not_true, Bool.false_eq_true,
    if_false, ne_eq, not_true_eq_false, List.isEmpty_nil, Bool.or_self]
  split
  · exact Or.inr rfl
  · split
    · exact Or.inr rfl
    · exact Or.inl rfl

/-- `protocol_connect`, until it blocks. -/
def protocolConnect (random : BitVec 32) (network : Network) :
    KResultOr Unit × TCPSocket :=
  if !network.routable then (.error .EHOSTUNREACH, self)
  else
    let self := { self with
      sequenceNumber := random, ackNumber := 0, setupState := .InProgress }
    let self := self.sendControl TCPFlags.SYN network
    (.ok (), { self with
      state := .SynSent
      direction := .Outgoing
      ipv4 := { self.ipv4 with role := .Connecting, protocolIsDisconnected := false } })

/-- `protocol_send`, called by `Socket::write` or `sys$sendmsg`. -/
def protocolSend (data : List UInt8) (readable : Bool) (network : Network) :
    KResultOr ℕ × TCPSocket :=
  if self.shutDownForWriting then (.error .EPIPE, self)
  else
    match self.sendTcpPacket (TCPFlags.PUSH ||| TCPFlags.ACK) data readable network with
    | (.ok (), self) => (.ok data.length, self)
    | (.error error, self) => (.error error, self)

/-! ## Receiving -/

/-- The loop of `receive_tcp_packet`. -/
def removeAcked (ackNumber : BitVec 32) : List OutgoingPacket → List OutgoingPacket
  | [] => []
  | packet :: rest =>
    if packet.ackNumber ≤ ackNumber then removeAcked ackNumber rest else packet :: rest

/-- `receive_tcp_packet`. -/
def receiveTcpPacket (packet : TCPPacket) : TCPSocket :=
  if packet.hasAck then
    { self with notAcked := removeAcked packet.ackNumber self.notAcked }.record
      (.acknowledged packet.ackNumber)
  else self

/-- `did_receive`. -/
def didReceive (self : TCPSocket) (packet : IncomingPacket) : Option (Bool × TCPSocket) := do
  let (result, ipv4) ← self.ipv4.didReceive packet.ipv4Packet
  some (result, { self with ipv4 := ipv4 })

/-- A packet is put in the receive buffer exactly if there is room for it. -/
theorem didReceive_eq {self : TCPSocket} (h : self.ipv4.BufferOk) (packet : IncomingPacket) :
    (self.ipv4.HasRoom packet.ipv4Packet ∧ ∃ receiveBuffer, self.didReceive packet =
        some (true, { self with ipv4 := { self.ipv4 with
          receiveBuffer := receiveBuffer, canReadFlag := !receiveBuffer.isEmpty } }) ∧
      receiveBuffer.contents = self.ipv4.receiveBuffer.contents ++ packet.payload ∧
      receiveBuffer.capacity = 65536) ∨
    (¬ self.ipv4.HasRoom packet.ipv4Packet ∧ self.didReceive packet = some (false, self)) := by
  rcases IPv4Socket.didReceive_eq h packet.ipv4Packet with
    ⟨hroom, receiveBuffer, hreceive, hcontents⟩ | ⟨hroom, hreceive⟩
  · exact Or.inl ⟨hroom, receiveBuffer, by simp [didReceive, hreceive], hcontents⟩
  · exact Or.inr ⟨hroom, by simp [didReceive, hreceive]⟩

/-- `receive_byte_buffered` of a call that finds bytes. What it does without them is the subject of
`IPv4Socket`. -/
def recv (params : ReceiveParams) : TCPSocket :=
  if self.ipv4.shutDownForReading || self.ipv4.receiveBuffer.isEmpty then self
  else
    let (nreceived, receiveBuffer) := params.take self.ipv4.receiveBuffer
    { self with
      ipv4 := { self.ipv4 with
        receiveBuffer := receiveBuffer, canReadFlag := !receiveBuffer.isEmpty }
      received :=
        match nreceived with
        | .ok bytes => if params.peek then self.received else self.received ++ bytes
        | .error _ => self.received }

/-- What receiving can change. -/
theorem recv_frame (params : ReceiveParams) :
    ∃ ipv4 received, self.recv params = { self with ipv4 := ipv4, received := received } ∧
      (self.ipv4.BufferOk → ipv4.BufferOk) := by
  unfold recv
  split
  · exact ⟨_, _, rfl, id⟩
  · refine ⟨_, _, rfl, fun hbuffer => ⟨fun hne => by simpa using hne, ?_⟩⟩
    exact (params.capacity_take _).trans hbuffer.capacity

/-! ## Closing -/

/-- `shut_down_for_writing`. -/
def shutDownForWritingNow (network : Network) : TCPSocket :=
  if self.state = .Established then
    (self.sendControl (TCPFlags.FIN ||| TCPFlags.ACK) network).setState .FinWait1
  else self

/-- `Socket::shutdown`. -/
def shutdown (reading writing : Bool) (network : Network) :
    KResultOr Unit × TCPSocket :=
  if !self.connected then (.error .ENOTCONN, self)
  else
    let self :=
      if !self.shutDownForWriting && writing then self.shutDownForWritingNow network else self
    let self :=
      if !self.ipv4.shutDownForReading && reading then
        { self with ipv4 := { self.ipv4 with canReadFlag := true } }
      else self
    (.ok (), { self with
      ipv4 := { self.ipv4 with shutDownForReading := self.ipv4.shutDownForReading || reading }
      shutDownForWriting := self.shutDownForWriting || writing })

/-- After the FIN, if there is one, `shutdown` only notes what is shut down. -/
theorem shutdown_eq {self : TCPSocket} (hconnected : self.connected = true) (reading writing : Bool)
    (network : Network) {self' : TCPSocket}
    (h : (if !self.shutDownForWriting && writing then self.shutDownForWritingNow network else self) =
      self') :
    ∃ canReadFlag, (self.shutdown reading writing network).2 = { self' with
        ipv4 := { self'.ipv4 with
          canReadFlag := canReadFlag
          shutDownForReading := self'.ipv4.shutDownForReading || reading }
        shutDownForWriting := self'.shutDownForWriting || writing } ∧
      (self'.ipv4.canReadFlag = true → canReadFlag = true) := by
  simp only [shutdown, hconnected, Bool.not_true, Bool.false_eq_true, if_false, h]
  split
  · exact ⟨true, rfl, fun _ => rfl⟩
  · exact ⟨_, rfl, id⟩

/-- `close`. -/
def close (network : Network) : TCPSocket :=
  let self := (self.shutdown true true network).2
  let self :=
    if self.state = .CloseWait then
      (self.sendControl (TCPFlags.FIN ||| TCPFlags.ACK) network).setState .LastAck
    else self
  { self with isOpen := false }

end TCPSocket

end Kernel
