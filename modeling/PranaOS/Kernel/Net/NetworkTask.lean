import PranaOS.Kernel.Net.TCPSocket

/-!
# `Kernel/Net/NetworkTask.cpp`: `handle_tcp`

What a TCP segment does to the socket it is for, in every state of the socket, and the life of a
socket from `connect`, or from the segment that opens a connection to a listener, onwards.
-/

namespace Kernel.TCPSocket

open AK TCPFlags Transition

variable (self : TCPSocket)

/-- An unexpected segment: the socket answers with RST and is closed. -/
def reset (network : Network) : TCPSocket :=
  (self.sendControl RST network).setState .Closed

/-- `set_ack_number`. -/
def setAckNumber (ackNumber : BitVec 32) : TCPSocket :=
  { self with ackNumber := ackNumber }

/-- `set_ack_number` with the number behind a FIN. -/
def setAckNumberOfFin (ackNumber : BitVec 32) : TCPSocket :=
  { self with ackNumber := ackNumber, finReceived := true }

/-- `set_error`, with the end of the setup. -/
def fail (error : Error) : TCPSocket :=
  { self with error := error, setupState := .Completed }

/-- The socket that a listener creates for a segment with SYN. -/
def createClient (packet : TCPPacket) (network : Network) : TCPSocket :=
  let client := { create with
    setupState := .InProgress, direction := .Incoming, hasOriginator := true, sequenceNumber := 1000 }
  let client := client.setAckNumber (packet.sequenceNumber + packet.payloadSize + 1)
  (client.sendControl (SYN ||| ACK) network).setState .SynReceived

/-- `handle_tcp`, in the state `SynSent`. -/
def handleSynSent (packet : TCPPacket) (network : Network) : TCPSocket :=
  if packet.flags = SYN then
    ((self.setAckNumber (packet.sequenceNumber + packet.payloadSize + 1)).sendControl ACK
      network).setState .SynReceived
  else if packet.flags = ACK ||| SYN then
    let self := ((self.setAckNumber (packet.sequenceNumber + packet.payloadSize + 1)).sendControl ACK
      network).setState .Established
    { self with setupState := .Completed, connected := true }
  else if packet.flags = ACK ||| FIN then
    (((self.setAckNumberOfFin (packet.sequenceNumber + packet.payloadSize + 1)).sendControl ACK
      network).setState .Closed).fail .FINDuringConnect
  else if packet.flags = ACK ||| RST then
    (((self.setAckNumber (packet.sequenceNumber + packet.payloadSize)).sendControl ACK
      network).setState .Closed).fail .RSTDuringConnect
  else (self.reset network).fail .UnexpectedFlagsDuringConnect

/-- `handle_tcp`, in the state `SynReceived`. -/
def handleSynReceived (packet : TCPPacket) (network : Network) : TCPSocket :=
  if packet.flags = ACK then
    let self := self.setAckNumber (packet.sequenceNumber + packet.payloadSize)
    match self.direction with
    | .Incoming =>
      if !self.hasOriginator then self.reset network
      else
        let self := self.setState .Established
        { self with setupState := .Completed, hasOriginator := false }
    | .Outgoing =>
      let self := self.setState .Established
      { self with setupState := .Completed, connected := true }
    | _ => self.reset network
  else self.reset network

/-- `handle_tcp`, in the states after the socket has sent a FIN. -/
def handleClosing (packet : TCPPacket) (network : Network) : TCPSocket :=
  match self.state with
  | .LastAck =>
    if packet.flags = ACK then
      (self.setAckNumber (packet.sequenceNumber + packet.payloadSize)).setState .Closed
    else self.reset network
  | .FinWait1 =>
    if packet.flags = ACK then
      (self.setAckNumber (packet.sequenceNumber + packet.payloadSize)).setState .FinWait2
    else if packet.flags = FIN then
      (self.setAckNumberOfFin (packet.sequenceNumber + packet.payloadSize + 1)).setState .Closing
    else self.reset network
  | .FinWait2 =>
    if packet.flags = FIN then
      (self.setAckNumberOfFin (packet.sequenceNumber + packet.payloadSize + 1)).setState .TimeWait
    else if packet.flags = ACK ||| RST then self.setState .Closed
    else self.reset network
  | .Closing =>
    if packet.flags = ACK then
      (self.setAckNumber (packet.sequenceNumber + packet.payloadSize)).setState .TimeWait
    else self.reset network
  | _ => self

/-- `handle_tcp`, in the state `Established`. -/
def handleEstablished (packet : IncomingPacket) (network : Network) :
    Option TCPSocket :=
  if packet.hasRst then some (self.setState .Closed)
  else if packet.hasFin then do
    let (_, self) ←
      (if packet.payload ≠ [] then self.didReceive packet else some (false, self))
    let self := ((self.setAckNumberOfFin (packet.sequenceNumber + packet.payloadSize + 1)).sendControl
      ACK network).setState .CloseWait
    some { self with connected := false }
  else do
    let self := self.setAckNumber (packet.sequenceNumber + packet.payloadSize)
    if packet.payload = [] then some self
    else
      let (taken, self) ← self.didReceive packet
      some (if taken then self.sendControl ACK network else self)

/-- `handle_tcp`, for the socket that the segment is for. A listener is not changed itself by the
segment that makes it create a client. -/
def handleTcp (packet : IncomingPacket) (network : Network) : Option TCPSocket :=
  let self := self.receiveTcpPacket packet.toTCPPacket
  match self.state with
  | .Closed | .Listen => some self
  | .TimeWait | .CloseWait => some (self.reset network)
  | .SynSent => some (self.handleSynSent packet.toTCPPacket network)
  | .SynReceived => some (self.handleSynReceived packet.toTCPPacket network)
  | .LastAck | .FinWait1 | .FinWait2 | .Closing =>
    some (self.handleClosing packet.toTCPPacket network)
  | .Established => self.handleEstablished packet network

/-! ## The life of a socket -/

/-- What can happen next. -/
inductive Event where
  | handleTcp (packet : IncomingPacket) (network : Network)
  /-- The application sends data. -/
  | send (data : List UInt8) (readable : Bool) (network : Network)
  /-- The application receives data. -/
  | recv (params : ReceiveParams)
  | shutdown (reading writing : Bool) (network : Network)
  | close (network : Network)
  /-- Segments that have not been acknowledged are sent again. -/
  | sendOutgoingPackets (network : Network)
  /-- The application accepts the connection. -/
  | accept
  /-- The listener disappears. -/
  | originatorGone

/-- One step. After `close` the application does nothing with the socket any more. -/
def step : Event → Option TCPSocket
  | .handleTcp packet network => self.handleTcp packet network
  | .send data readable network =>
    some (if self.isOpen then (self.protocolSend data readable network).2 else self)
  | .recv params => some (if self.isOpen then self.recv params else self)
  | .shutdown reading writing network =>
    some (if self.isOpen then (self.shutdown reading writing network).2 else self)
  | .close network => some (if self.isOpen then self.close network else self)
  | .sendOutgoingPackets network => some (self.sendOutgoingPackets network)
  | .accept => some (if self.direction = .Incoming then { self with connected := true } else self)
  | .originatorGone => some { self with hasOriginator := false }

end Kernel.TCPSocket
