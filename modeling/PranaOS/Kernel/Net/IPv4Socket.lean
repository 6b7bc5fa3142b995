import PranaOS.AK.Assertions
import PranaOS.ToMathlib.Run
import PranaOS.Kernel.ThreadBlockers

/-!
# `Kernel/Net/IPv4Socket.cpp`: `receive_byte_buffered`

Threads that receive from one stream socket, together with what the network and other threads do to
the socket in between. What a thread does under the lock of the socket is one step. A receiving
thread gives the lock up while it blocks, and takes it again before it asserts that the receive
buffer is not empty.
-/

namespace Kernel

open AK

/-- `Socket::Role`. -/
inductive Role where
  | None
  | Listener
  | Accepted
  | Connected
  | Connecting
deriving DecidableEq, Repr

/-- `IPv4Socket`, of the kind `BufferMode::Bytes`. -/
structure IPv4Socket where
  /-- `m_role`. -/
  role : Role
  /-- The number of connections in `m_pending`. -/
  pending : ℕ
  /-- `protocol_is_disconnected()`, which the state of the protocol gives. -/
  protocolIsDisconnected : Bool
  /-- `m_shut_down_for_reading`. -/
  shutDownForReading : Bool
  /-- `m_can_read`. -/
  canReadFlag : Bool
  /-- `m_receive_buffer`. -/
  receiveBuffer : DoubleBuffer
deriving DecidableEq, Repr

namespace IPv4Socket

variable (self : IPv4Socket)

/-- `can_accept`. -/
def canAccept : Bool := self.pending ≠ 0

/-- `can_read`. -/
def canRead : Bool :=
  if self.role = .Listener then self.canAccept
  else if self.protocolIsDisconnected then true
  else self.canReadFlag

/-- There is nothing to read and there never will be. -/
def endOfStream : Bool :=
  self.shutDownForReading || (self.receiveBuffer.isEmpty && self.protocolIsDisconnected)

/-- A socket as `socket()` makes it, in some role and some state of the protocol. -/
def create (role : Role) (protocolIsDisconnected : Bool) : IPv4Socket where
  role := role
  pending := 0
  protocolIsDisconnected := protocolIsDisconnected
  shutDownForReading := false
  canReadFlag := false
  receiveBuffer := .create 65536

end IPv4Socket

/-- The arguments of a receiving call. -/
structure ReceiveParams where
  /-- `description.is_blocking()`. -/
  blocking : Bool
  /-- `buffer_length`. -/
  bufferLength : ℕ
  /-- `MSG_PEEK` is among the flags. -/
  peek : Bool
  /-- The buffer of the caller can be written. -/
  copied : Bool
deriving DecidableEq, Repr

/-- `m_receive_buffer.peek` or `m_receive_buffer.read`. -/
def ReceiveParams.take (params : ReceiveParams) (buffer : DoubleBuffer) :
    KResultOr (List UInt8) × DoubleBuffer :=
  if params.peek then buffer.peek params.bufferLength params.copied
  else buffer.read params.bufferLength params.copied

@[simp]
theorem ReceiveParams.capacity_take (params : ReceiveParams) (buffer : DoubleBuffer) :
    (params.take buffer).2.capacity = buffer.capacity := by
  unfold take DoubleBuffer.peek
  split <;> simp

/-- An IPv4 packet that carries a segment. Its size is the 16-bit total length of the header. -/
structure Packet where
  /-- `packet.size()`. -/
  size : ℕ
  /-- What `protocol_receive` copies out of the packet. -/
  payload : List UInt8
  size_lt : size < 2 ^ 16
  payload_le : payload.length ≤ size

namespace IPv4Socket

/-- `did_receive`, as far as it concerns the socket itself: whether it took the packet. -/
def didReceive (self : IPv4Socket) (packet : Packet) : Option (Bool × IPv4Socket) := do
  if self.shutDownForReading then some (false, self)
  else if packet.size > self.receiveBuffer.spaceForWriting then
    verify (self.canReadFlag = true)
    some (false, self)
  else
    let receiveBuffer := (self.receiveBuffer.write packet.payload true).2
    some (true, { self with receiveBuffer := receiveBuffer, canReadFlag := !receiveBuffer.isEmpty })

/-- What always holds of the receive buffer. -/
structure BufferOk (socket : IPv4Socket) : Prop where
  canReadFlag : socket.receiveBuffer.isEmpty = false → socket.canReadFlag = true
  capacity : socket.receiveBuffer.capacity = 65536

/-- The socket takes the packet. -/
def HasRoom (self : IPv4Socket) (packet : Packet) : Prop :=
  self.shutDownForReading = false ∧ packet.size ≤ self.receiveBuffer.spaceForWriting
deriving Decidable

/-- A packet fits in an empty buffer. -/
theorem isEmpty_eq_false_of_full {self : IPv4Socket} {packet : Packet}
    (hcapacity : self.receiveBuffer.capacity = 65536)
    (hfull : self.receiveBuffer.spaceForWriting < packet.size) :
    self.receiveBuffer.isEmpty = false := by
  rw [DoubleBuffer.isEmpty_eq_false_iff]
  intro hempty
  have hwrite := (List.append_eq_nil_iff.mp hempty).2
  have hsize := packet.size_lt
  simp only [DoubleBuffer.spaceForWriting, hcapacity, hwrite, List.length_nil] at hfull
  omega

/-- A packet never panics the socket. It is put in the buffer exactly if there is room for it. -/
theorem didReceive_eq {self : IPv4Socket} (h : BufferOk self) (packet : Packet) :
    (self.HasRoom packet ∧ ∃ receiveBuffer, self.didReceive packet =
        some (true, { self with
          receiveBuffer := receiveBuffer, canReadFlag := !receiveBuffer.isEmpty }) ∧
      receiveBuffer.contents = self.receiveBuffer.contents ++ packet.payload ∧
      receiveBuffer.capacity = 65536) ∨
    (¬ self.HasRoom packet ∧ self.didReceive packet = some (false, self)) := by
  unfold didReceive HasRoom
  split
  next hshut => exact Or.inr ⟨by simp [hshut], rfl⟩
  next hshut =>
    split
    next hfull =>
      have hread := h.canReadFlag (isEmpty_eq_false_of_full h.capacity hfull)
      exact Or.inr ⟨by omega, by simp [hread]⟩
    next hfits =>
      have hroom : packet.payload.length ≤ self.receiveBuffer.spaceForWriting :=
        packet.payload_le.trans (by omega)
      refine Or.inl ⟨⟨by simpa using hshut, by omega⟩, _, rfl, ?_, by simpa using h.capacity⟩
      rw [DoubleBuffer.contents_write, min_eq_left hroom, List.take_length]

/-- Where a thread is that receives from the socket. -/
inductive Reader where
  | idle
  /-- `Socket::read` or `sys$recvmsg` found the socket open for reading. -/
  | called (params : ReceiveParams)
  /-- `receive_byte_buffered` gave up the lock in order to block. -/
  | unlocked (params : ReceiveParams)
  /-- In `block<ReadBlocker>`. -/
  | blocking (params : ReceiveParams) (blocker : ReadBlocker)
  /-- The call returned, and whether the stream had ended by then. -/
  | returned (params : ReceiveParams) (result : KResultOr (List UInt8)) (endOfStream : Bool)
deriving DecidableEq

/-- The socket evaluates its block conditions. -/
def Reader.evaluate (canRead : Bool) : Reader → Reader
  | .blocking params blocker => .blocking params (blocker.unblock canRead)
  | reader => reader

/-- The socket and its readers. -/
structure System (n : ℕ) where
  /-- The socket. -/
  socket : IPv4Socket
  /-- The threads. -/
  readers : Fin n → Reader

/-- What can happen next: a thread goes on, or something happens to the socket. -/
inductive Event (n : ℕ) where
  | call (t : Fin n) (params : ReceiveParams)
  | lock (t : Fin n)
  | block (t : Fin n)
  | relock (t : Fin n)
  | interrupt (t : Fin n) (interruption : Interruption)
  | didReceive (packet : Packet)
  | setProtocolIsDisconnected (value : Bool)
  | shutDownForReading
  | queueConnectionFrom
  | evaluateBlockConditions

namespace System

variable {n : ℕ}

/-- The socket and its readers before anything happened. -/
def create (role : Role) (protocolIsDisconnected : Bool) : System n where
  socket := .create role protocolIsDisconnected
  readers := fun _ => .idle

variable (s : System n)

/-- `evaluate_block_conditions`. -/
def evaluateBlockConditions : System n :=
  { s with readers := fun t => (s.readers t).evaluate s.socket.canRead }

/-- `set_can_read`. -/
def setCanRead (value : Bool) : System n :=
  let s' := { s with socket := { s.socket with canReadFlag := value } }
  if value then s'.evaluateBlockConditions else s'

/-- The thread goes on at `reader`. -/
def setReader (t : Fin n) (reader : Reader) : System n :=
  { s with readers := Function.update s.readers t reader }

/-- The call of the thread returns. -/
def returnWith (t : Fin n) (params : ReceiveParams) (result : KResultOr (List UInt8)) :
    System n :=
  s.setReader t (.returned params result s.socket.endOfStream)

/-- The socket has the receive buffer `receiveBuffer` and sets `m_can_read` accordingly. -/
def setReceiveBuffer (receiveBuffer : DoubleBuffer) : System n :=
  { s with socket := { s.socket with receiveBuffer := receiveBuffer } }.setCanRead
    (!receiveBuffer.isEmpty)

/-- The end of `receive_byte_buffered`, from the assertion on. -/
def receive (t : Fin n) (params : ReceiveParams) : Option (System n) := do
  verify (s.socket.receiveBuffer.isEmpty = false)
  let (nreceived, receiveBuffer) := params.take s.socket.receiveBuffer
  some ((s.returnWith t params nreceived).setReceiveBuffer receiveBuffer)

/-- `did_receive`. -/
def didReceive (packet : Packet) : Option (System n) := do
  if s.socket.shutDownForReading then some s
  else if packet.size > s.socket.receiveBuffer.spaceForWriting then
    verify (s.socket.canReadFlag = true)
    some s
  else
    some (s.setReceiveBuffer (s.socket.receiveBuffer.write packet.payload true).2)

/-- One step. A thread that is not at the point in question stays where it is. -/
def step : Event n → Option (System n)
  | .call t params =>
    match s.readers t with
    | .idle | .returned .. =>
      if s.socket.shutDownForReading then s.returnWith t params (.ok [])
      else s.setReader t (.called params)
    | _ => some s
  | .lock t =>
    match s.readers t with
    | .called params =>
      if s.socket.receiveBuffer.isEmpty then
        if s.socket.protocolIsDisconnected then s.returnWith t params (.ok [])
        else if !params.blocking then s.returnWith t params (.error .EAGAIN)
        else s.setReader t (.unlocked params)
      else s.receive t params
    | _ => some s
  | .block t =>
    match s.readers t with
    | .unlocked params => s.setReader t (.blocking params (.create s.socket.canRead))
    | _ => some s
  | .relock t =>
    match s.readers t with
    | .blocking params blocker =>
      if blocker.isBlocked then some s
      else if blocker.didUnblock then s.receive t params
      else if blocker.blockResult.wasInterrupted then s.returnWith t params (.error .EINTR)
      else s.returnWith t params (.error .EAGAIN)
    | _ => some s
  | .interrupt t interruption =>
    match s.readers t with
    | .blocking params blocker => s.setReader t (.blocking params (blocker.interrupt interruption))
    | _ => some s
  | .didReceive packet => s.didReceive packet
  | .setProtocolIsDisconnected value =>
    -- `TCPSocket::set_state` evaluates the block conditions only if the answer changes.
    if value = s.socket.protocolIsDisconnected then some s
    else
      let s' := { s with socket := { s.socket with protocolIsDisconnected := value } }
      some s'.evaluateBlockConditions
  | .shutDownForReading =>
    if s.socket.shutDownForReading then some s
    else { s with socket := { s.socket with shutDownForReading := true } }.setCanRead true
  | .queueConnectionFrom =>
    let s' := { s with socket := { s.socket with pending := s.socket.pending + 1 } }
    some s'.evaluateBlockConditions
  | .evaluateBlockConditions => some s.evaluateBlockConditions

/-! ## What a receiving thread relies on -/

/-- The thread has been told that the socket can be read, and has not read yet. Its next step
asserts that the buffer is not empty. -/
def told : Reader → Bool
  | .blocking _ blocker => blocker.didUnblock
  | _ => false

/-- The thread waits to be told that the socket can be read. -/
def waits : Reader → Bool
  | .blocking _ blocker => !blocker.didUnblock
  | _ => false

/-- The call returned data, an error, or `0` because the stream had ended. -/
def ReturnedOk : Reader → Prop
  | .returned params result endOfStream =>
    result = .ok [] → params.bufferLength = 0 ∨ endOfStream = true
  | _ => True

/-- Whichever thread goes on next, its assertion holds, and all calls so far returned what they
should. -/
def ReadersSafe : Prop :=
  ∀ t, (told (s.readers t) = true → s.socket.receiveBuffer.isEmpty = false) ∧
    ReturnedOk (s.readers t)

/-- The call takes everything that is in the buffer. -/
def Drains (params : ReceiveParams) (buffer : DoubleBuffer) : Prop :=
  params.peek = false ∧ params.copied = true ∧ buffer.ReadsAll params.bufferLength

/-- A call of `t` leaves something for the threads that have been told to read. -/
def TakeOk (t : Fin n) (params : ReceiveParams) : Prop :=
  Drains params s.socket.receiveBuffer → ∀ u, u ≠ t → told (s.readers u) = false

/-- If the socket became `socket` and evaluated its block conditions, no thread would be told to
read from an empty buffer. -/
def WakeOk (socket : IPv4Socket) : Prop :=
  socket.canRead = true → socket.receiveBuffer.isEmpty = true → ∀ t, waits (s.readers t) = false

/-- The condition on a step: a thread that takes the last bytes is the only one that has been told
to read, and no thread is told to read because of anything but bytes in the buffer. -/
def StepOk : Event n → Prop
  | .lock t =>
    match s.readers t with
    | .called params => s.socket.receiveBuffer.isEmpty = false → TakeOk s t params
    | _ => True
  | .block t =>
    match s.readers t with
    | .unlocked _ => s.socket.canRead = true → s.socket.receiveBuffer.isEmpty = false
    | _ => True
  | .relock t =>
    match s.readers t with
    | .blocking params blocker => blocker.didUnblock = true → TakeOk s t params
    | _ => True
  | .setProtocolIsDisconnected value =>
    value ≠ s.socket.protocolIsDisconnected →
      WakeOk s { s.socket with protocolIsDisconnected := value }
  | .shutDownForReading =>
    s.socket.shutDownForReading = false →
      WakeOk s { s.socket with shutDownForReading := true, canReadFlag := true }
  | .queueConnectionFrom => WakeOk s { s.socket with pending := s.socket.pending + 1 }
  | .evaluateBlockConditions => WakeOk s s.socket
  | _ => True

/-- The state keeps what every state has, and the readers are safe in it exactly if `ok`. -/
structure SafeIff (s : System n) (ok : Prop) : Prop where
  safe : ReadersSafe s ↔ ok
  /-- As long as there are bytes to read, `m_can_read` is set. -/
  canReadFlag : s.socket.receiveBuffer.isEmpty = false → s.socket.canReadFlag = true
  capacity : s.socket.receiveBuffer.capacity = 65536

/-- What holds in every state reached by steps that meet the condition. -/
abbrev Inv : Prop := SafeIff s True

variable {s : System n} {t : Fin n} {params : ReceiveParams} {socket : IPv4Socket}

/-! ## Taking bytes from the buffer -/

variable {buffer : DoubleBuffer} {reader : Reader}

/-- A call leaves the buffer empty exactly if it drains it. -/
theorem isEmpty_take_iff (params : ReceiveParams) (hne : buffer.isEmpty = false) :
    (params.take buffer).2.isEmpty = true ↔ Drains params buffer := by
  rw [ReceiveParams.take, Drains]
  by_cases hpeek : params.peek
  · rw [DoubleBuffer.isEmpty_eq_false_iff] at hne
    simp [hpeek, DoubleBuffer.peek, DoubleBuffer.isEmpty_iff, hne]
  · simp [hpeek, DoubleBuffer.isEmpty_read_iff _ _ hne]

/-- A call that finds bytes returns at least one of them, or an error. -/
theorem take_ne_nil (hne : buffer.isEmpty = false) (h : (params.take buffer).1 = .ok []) :
    params.bufferLength = 0 := by
  by_contra hsize
  have hread : (params.take buffer).1 = (buffer.read params.bufferLength params.copied).1 := by
    unfold ReceiveParams.take
    split <;> rfl
  exact DoubleBuffer.read_ne_nil (DoubleBuffer.isEmpty_eq_false_iff.mp hne) hsize
    (hread.symm.trans h) rfl

/-! ## One step -/

theorem told_evaluate {canRead : Bool} :
    told (reader.evaluate canRead) = (told reader || (waits reader && canRead)) := by
  cases reader with
  | blocking params blocker => cases h : blocker.didUnblock <;> simp [Reader.evaluate, told, waits, h]
  | _ => rfl

@[simp]
theorem returnedOk_evaluate {canRead : Bool} :
    ReturnedOk (reader.evaluate canRead) ↔ ReturnedOk reader := by
  cases reader <;> rfl

/-- Evaluating the block conditions after a change that leaves the buffer alone keeps the readers safe
exactly if it tells nobody to read from an empty buffer. -/
theorem readersSafe_evaluate_iff (hsafe : ReadersSafe s)
    (hbuffer : socket.receiveBuffer = s.socket.receiveBuffer) :
    ReadersSafe ({ s with socket := socket }.evaluateBlockConditions) ↔ WakeOk s socket := by
  rw [WakeOk, hbuffer]
  constructor
  · intro h hcan hempty t
    have ht := (h t).1
    simp only [evaluateBlockConditions, told_evaluate, hcan, hbuffer, hempty] at ht
    by_contra hwaits
    simp [hwaits] at ht
  · intro hwake t
    refine ⟨?_, returnedOk_evaluate.mpr (hsafe t).2⟩
    simp only [evaluateBlockConditions, told_evaluate, hbuffer, Bool.or_eq_true, Bool.and_eq_true]
    rintro (htold | ⟨hwaits, hcan⟩)
    · exact (hsafe t).1 htold
    · by_contra hempty
      simp [hwake hcan (by simpa using hempty) t] at hwaits

/-- A thread that goes on at `reader` keeps the readers safe if `reader` is safe. -/
theorem readersSafe_setReader_iff (hsafe : ReadersSafe s) :
    ReadersSafe (s.setReader t reader) ↔
      (told reader = true → s.socket.receiveBuffer.isEmpty = false) ∧ ReturnedOk reader := by
  refine (Function.forall_update_iff s.readers fun _ reader =>
    (told reader = true → s.socket.receiveBuffer.isEmpty = false) ∧ ReturnedOk reader).trans ?_
  exact and_iff_left fun u _ => hsafe u

/-- With a new receive buffer the readers are safe exactly if none of them has been told to read from an
empty one. -/
theorem readersSafe_setReceiveBuffer_iff (hreturned : ∀ t, ReturnedOk (s.readers t)) :
    ReadersSafe (s.setReceiveBuffer buffer) ↔
      (buffer.isEmpty = true → ∀ t, told (s.readers t) = false) := by
  cases hempty : buffer.isEmpty <;>
    simp [ReadersSafe, setReceiveBuffer, setCanRead, evaluateBlockConditions, hempty, hreturned]

@[simp]
theorem receiveBuffer_setReceiveBuffer :
    (s.setReceiveBuffer buffer).socket.receiveBuffer = buffer := by
  unfold setReceiveBuffer setCanRead
  split <;> rfl

@[simp]
theorem canReadFlag_setReceiveBuffer :
    (s.setReceiveBuffer buffer).socket.canReadFlag = !buffer.isEmpty := by
  unfold setReceiveBuffer setCanRead
  split <;> rfl

theorem Inv.readersSafe (hI : Inv s) : ReadersSafe s := hI.safe.mpr trivial

/-- What `receive` does when its assertion holds: the other threads stay safe exactly if the call
leaves them something to read. -/
theorem receive_spec (params : ReceiveParams) (hI : Inv s)
    (hne : s.socket.receiveBuffer.isEmpty = false) :
    ∃ s', s.receive t params = some s' ∧ SafeIff s' (TakeOk s t params) := by
  -- The result of this call and the results of earlier ones are as they should be.
  have hreturned : ∀ u,
      ReturnedOk ((s.returnWith t params (params.take s.socket.receiveBuffer).1).readers u) :=
    (Function.forall_update_iff s.readers fun _ => ReturnedOk).mpr
      ⟨fun h => Or.inl (take_ne_nil hne h), fun u _ => (hI.readersSafe u).2⟩
  refine ⟨(s.returnWith t params (params.take s.socket.receiveBuffer).1).setReceiveBuffer
    (params.take s.socket.receiveBuffer).2, by simp [receive, hne], ?_, fun h => by simpa using h,
    by simpa using hI.capacity⟩
  rw [readersSafe_setReceiveBuffer_iff hreturned, isEmpty_take_iff params hne, TakeOk, returnWith,
    setReader, Function.forall_update_iff s.readers fun _ reader => told reader = false]
  simp [told]

/-- A packet never panics the socket and never endangers a reader. -/
theorem didReceive_spec (hI : Inv s) (packet : Packet) :
    ∃ s', s.didReceive packet = some s' ∧ Inv s' := by
  unfold didReceive
  split
  · exact ⟨s, rfl, hI⟩
  · split
    next hfull =>
      -- The packet is refused, so there are bytes to read.
      have hne := isEmpty_eq_false_of_full hI.capacity hfull
      exact ⟨s, by simp [hI.canReadFlag hne], hI⟩
    next =>
      refine ⟨_, rfl, iff_of_true ?_ trivial, fun h => by simpa using h, by simpa using hI.capacity⟩
      rw [readersSafe_setReceiveBuffer_iff fun t => (hI.readersSafe t).2]
      -- Only a packet without payload leaves the buffer empty, and it was empty before.
      intro hempty t
      rw [DoubleBuffer.isEmpty_iff, DoubleBuffer.contents_write] at hempty
      have hbefore := DoubleBuffer.isEmpty_iff.mpr (List.append_eq_nil_iff.mp hempty).1
      by_contra htold
      simp [(hI.readersSafe t).1 (by simpa using htold)] at hbefore

/-- A thread that goes on at a point where nothing was promised to it. -/
theorem inv_setReader (hI : Inv s) (htold : told reader = false) (hreturned : ReturnedOk reader) :
    Inv (s.setReader t reader) where
  safe := iff_of_true
    ((readersSafe_setReader_iff hI.readersSafe).mpr ⟨by simp [htold], hreturned⟩) trivial
  canReadFlag := hI.canReadFlag
  capacity := hI.capacity

/-- A call that returns an error, or `0` at the end of the stream. -/
theorem inv_returnWith (hI : Inv s) {result : KResultOr (List UInt8)}
    (h : result = .ok [] → s.socket.endOfStream = true) : Inv (s.returnWith t params result) :=
  inv_setReader hI rfl fun hresult => Or.inr (h hresult)

/-- The block conditions are evaluated after a change of the socket that leaves the buffer alone. -/
theorem safeIff_evaluateBlockConditions (socket : IPv4Socket) (hI : Inv s)
    (hbuffer : socket.receiveBuffer = s.socket.receiveBuffer)
    (hflag : s.socket.canReadFlag = true → socket.canReadFlag = true) :
    SafeIff { s with socket := socket }.evaluateBlockConditions (WakeOk s socket) where
  safe := readersSafe_evaluate_iff hI.readersSafe hbuffer
  canReadFlag h := hflag (hI.canReadFlag (by simpa [evaluateBlockConditions, hbuffer] using h))
  capacity := by simpa [evaluateBlockConditions, hbuffer] using hI.capacity

/-- Every step of safe readers completes; afterwards they are safe exactly if the step met the
condition. -/
theorem step_spec (hI : Inv s) (event : Event n) :
    ∃ s', s.step event = some s' ∧ SafeIff s' (StepOk s event) := by
  cases event with
  | call t params =>
    simp only [step, StepOk]
    split
    -- a thread that is idle, or has returned
    iterate 2
      · split
        next hshut =>
          exact ⟨_, rfl, inv_returnWith hI fun _ => by simp [IPv4Socket.endOfStream, hshut]⟩
        next => exact ⟨_, rfl, inv_setReader hI rfl trivial⟩
    · exact ⟨s, rfl, hI⟩
  | lock t =>
    simp only [step, StepOk]
    split
    next params _ =>
      by_cases hempty : s.socket.receiveBuffer.isEmpty = true
      · simp only [hempty, if_true, Bool.true_eq_false, false_imp_iff]
        split
        next hdisconnected =>
          exact ⟨_, rfl, inv_returnWith hI fun _ => by
            simp [IPv4Socket.endOfStream, hempty, hdisconnected]⟩
        next =>
          split
          · exact ⟨_, rfl, inv_returnWith hI (by simp)⟩
          · exact ⟨_, rfl, inv_setReader hI rfl trivial⟩
      · have hne : s.socket.receiveBuffer.isEmpty = false := by simpa using hempty
        simpa [hne] using receive_spec (t := t) params hI hne
    next => exact ⟨s, rfl, hI⟩
  | block t =>
    simp only [step, StepOk]
    split
    · refine ⟨_, rfl, ?_, hI.canReadFlag, hI.capacity⟩
      rw [readersSafe_setReader_iff hI.readersSafe]
      simp [told, ReturnedOk]
    · exact ⟨s, rfl, hI⟩
  | relock t =>
    simp only [step, StepOk]
    split
    next params blocker hreader =>
      by_cases hdid : blocker.didUnblock = true
      · have hne := (hI.readersSafe t).1 (by simpa [hreader, told] using hdid)
        simpa [ReadBlocker.isBlocked, hdid] using receive_spec (t := t) params hI hne
      · simp only [hdid, Bool.false_eq_true, if_false, false_imp_iff]
        split
        · exact ⟨s, rfl, hI⟩
        · split
          · exact ⟨_, rfl, inv_returnWith hI (by simp)⟩
          · exact ⟨_, rfl, inv_returnWith hI (by simp)⟩
    next => exact ⟨s, rfl, hI⟩
  | interrupt t interruption =>
    simp only [step, StepOk]
    split
    next params blocker hreader =>
      refine ⟨_, rfl, iff_of_true ?_ trivial, hI.canReadFlag, hI.capacity⟩
      rw [readersSafe_setReader_iff hI.readersSafe]
      have ht := hI.readersSafe t
      rw [hreader] at ht
      simpa [told, ReturnedOk] using ht
    next => exact ⟨s, rfl, hI⟩
  | didReceive packet => exact didReceive_spec hI packet
  | setProtocolIsDisconnected value =>
    simp only [step, StepOk]
    split
    next h => exact ⟨s, rfl, by simpa [h] using hI⟩
    next h =>
      refine ⟨_, rfl, ?_⟩
      simpa [h] using safeIff_evaluateBlockConditions { s.socket with
        protocolIsDisconnected := value } hI rfl id
  | shutDownForReading =>
    simp only [step, StepOk]
    split
    next h => exact ⟨s, rfl, by simpa [h] using hI⟩
    next h =>
      refine ⟨_, rfl, ?_⟩
      simpa [h, setCanRead] using safeIff_evaluateBlockConditions { s.socket with
        shutDownForReading := true, canReadFlag := true } hI rfl fun _ => rfl
  | queueConnectionFrom | evaluateBlockConditions =>
    exact ⟨_, rfl, safeIff_evaluateBlockConditions _ hI rfl id⟩

/-- Nothing has been promised to anybody at the start. -/
theorem inv_create {role : Role} {protocolIsDisconnected : Bool} :
    Inv (create role protocolIsDisconnected : System n) where
  safe := iff_of_true (fun _ => ⟨by simp [create, told], trivial⟩) trivial
  canReadFlag h := by simp [create, IPv4Socket.create, DoubleBuffer.create, DoubleBuffer.isEmpty] at h
  capacity := rfl

end System

end IPv4Socket

end Kernel
