import PranaOS.Kernel.Net.IPv4Socket

/-!
# `Kernel/Net/LocalSocket.cpp`: `recvfrom`

A local socket is shared between two file descriptions, one on the connect side and one on the
accept side, with one buffer for each direction. `recvfrom` takes no lock: between any two of its
looks at the socket other threads may read, send or close their description. So every look is a
step of its own.
-/

namespace Kernel

open AK

/-- One of the two file descriptions of a local socket. -/
inductive Side where
  | connect
  | accept
deriving DecidableEq, Repr

/-- One of the two buffers of a local socket. -/
inductive BufferName where
  /-- `m_for_client`. -/
  | forClient
  /-- `m_for_server`. -/
  | forServer
deriving DecidableEq, Repr

/-- `LocalSocket`. -/
structure LocalSocket where
  /-- `m_role`. -/
  role : Role
  /-- `m_connect_side_role`. -/
  connectSideRole : Role
  /-- `m_connect_side_fd` is not null. -/
  connectSideFd : Bool
  /-- `m_accept_side_fd_open`. -/
  acceptSideFdOpen : Bool
  /-- The number of connections in `m_pending`. -/
  pending : ℕ
  /-- `m_shut_down_for_reading`. -/
  shutDownForReading : Bool
  /-- `m_for_client` and `m_for_server`. -/
  buffer : BufferName → DoubleBuffer

namespace LocalSocket

/-- A connection whose two descriptions are open. -/
def create (role connectSideRole : Role) : LocalSocket where
  role := role
  connectSideRole := connectSideRole
  connectSideFd := true
  acceptSideFdOpen := true
  pending := 0
  shutDownForReading := false
  buffer := fun _ => .create 65536

variable (self : LocalSocket)

/-- `role(description)`. -/
def roleOf (side : Side) : Role :=
  if side = .connect ∧ self.connectSideFd = true then self.connectSideRole else self.role

/-- `has_attached_peer`. -/
def hasAttachedPeer (side : Side) : Option Bool :=
  match self.roleOf side with
  | .Accepted => some self.connectSideFd
  | .Connected => some self.acceptSideFdOpen
  | _ => none

/-- `receive_buffer_for`. -/
def receiveBufferFor (side : Side) : Option BufferName :=
  match self.roleOf side with
  | .Accepted => some .forServer
  | .Connected => some .forClient
  | _ => none

/-- `send_buffer_for`. -/
def sendBufferFor (side : Side) : Option BufferName :=
  match self.roleOf side with
  | .Connected => some .forServer
  | .Accepted => some .forClient
  | _ => none

/-- `can_read`. -/
def canRead (side : Side) : Bool :=
  match self.roleOf side with
  | .Listener => self.pending ≠ 0
  | .Accepted => !self.connectSideFd || !(self.buffer .forServer).isEmpty
  | .Connected => !self.acceptSideFdOpen || !(self.buffer .forClient).isEmpty
  | _ => false

/-- The description is open. -/
def isOpen : Side → Bool
  | .connect => self.connectSideFd
  | .accept => self.acceptSideFdOpen

/-- `detach`. -/
def detach : Side → LocalSocket
  | .connect => { self with connectSideFd := false }
  | .accept => { self with acceptSideFdOpen := false }

/-- The socket with another buffer. -/
def setBuffer (name : BufferName) (buffer : DoubleBuffer) : LocalSocket :=
  { self with buffer := Function.update self.buffer name buffer }

/-- There is nothing to read and there never will be. -/
def endOfStream (side : Side) (name : BufferName) : Bool :=
  self.shutDownForReading ||
    (self.hasAttachedPeer side == some false && (self.buffer name).isEmpty)

/-- The arguments of `recvfrom`. -/
structure Call where
  /-- `description`. -/
  side : Side
  /-- `description.is_blocking()`. -/
  blocking : Bool
  /-- `buffer_size`. -/
  bufferSize : ℕ
  /-- The buffer of the caller can be written. -/
  copied : Bool
deriving DecidableEq, Repr

/-- Where a thread is that receives from the socket. -/
inductive Reader where
  | idle
  /-- `Socket::read` or `sys$recvmsg` found the socket open for reading. -/
  | called (call : Call)
  /-- `socket_buffer` is known. -/
  | found (call : Call) (name : BufferName)
  /-- The description does not block and the buffer was empty. -/
  | foundEmpty (call : Call) (name : BufferName)
  /-- `can_read` was false. -/
  | waiting (call : Call) (name : BufferName)
  /-- In `block<ReadBlocker>`. -/
  | blocking (call : Call) (name : BufferName) (blocker : ReadBlocker)
  /-- Before `!has_attached_peer(description) && socket_buffer->is_empty()`. -/
  | checking (call : Call) (name : BufferName)
  /-- The peer was not attached. -/
  | peerGone (call : Call) (name : BufferName)
  /-- Before `VERIFY(!socket_buffer->is_empty())`. -/
  | asserting (call : Call) (name : BufferName)
  /-- Before `socket_buffer->read(buffer, buffer_size)`. -/
  | reading (call : Call) (name : BufferName)
  /-- The call returned, and whether the stream had ended by then. -/
  | returned (call : Call) (result : KResultOr (List UInt8)) (endOfStream : Bool)
deriving DecidableEq

/-- The socket evaluates its block conditions. -/
def Reader.evaluate (canRead : Side → Bool) : Reader → Reader
  | .blocking call name blocker => .blocking call name (blocker.unblock (canRead call.side))
  | reader => reader

/-- The description that the thread uses. -/
def Reader.side : Reader → Option Side
  | .idle | .returned .. => none
  | .called call | .found call _ | .foundEmpty call _ | .waiting call _ | .blocking call _ _
  | .checking call _ | .peerGone call _ | .asserting call _ | .reading call _ => some call.side

/-- The socket and its readers. -/
structure System (n : ℕ) where
  /-- The socket. -/
  socket : LocalSocket
  /-- The threads. -/
  readers : Fin n → Reader

/-- What can happen next: a thread goes on, or something happens to the socket. -/
inductive Event (n : ℕ) where
  | call (t : Fin n) (call : Call)
  | go (t : Fin n)
  | interrupt (t : Fin n) (interruption : Interruption)
  | send (side : Side) (data : List UInt8) (copied : Bool)
  | close (side : Side)
  | shutDownForReading
  | evaluateBlockConditions

namespace System

variable {n : ℕ}

/-- The socket and its readers before anything happened. -/
def create (role connectSideRole : Role) : System n where
  socket := .create role connectSideRole
  readers := fun _ => .idle

variable (s : System n)

/-- `evaluate_block_conditions`. -/
def evaluateBlockConditions : System n :=
  { s with readers := fun t => (s.readers t).evaluate s.socket.canRead }

/-- The thread goes on at `reader`. -/
def setReader (t : Fin n) (reader : Reader) : System n :=
  { s with readers := Function.update s.readers t reader }

/-- The call of the thread returns. -/
def returnWith (t : Fin n) (call : Call) (name : BufferName)
    (result : KResultOr (List UInt8)) : System n :=
  s.setReader t (.returned call result (s.socket.endOfStream call.side name))

/-- `socket_buffer->read`, which evaluates the block conditions once there is space again. -/
def read (s : System n) (t : Fin n) (call : Call) (name : BufferName) : System n :=
  let (nread, buffer) := (s.socket.buffer name).read call.bufferSize call.copied
  let s' := s.returnWith t call name nread
  let s' := { s' with socket := s.socket.setBuffer name buffer }
  if nread ≠ .ok [] ∧ nread ≠ .error .EFAULT ∧ buffer.spaceForWriting > 0 then
    s'.evaluateBlockConditions
  else s'

/-- The next step of a thread in `recvfrom`. -/
def go (t : Fin n) : Option (System n) :=
  match s.readers t with
  | .idle | .returned .. => some s
  | .called call =>
    match s.socket.receiveBufferFor call.side with
    | none => s.setReader t (.returned call (.error .EINVAL) false)
    | some name => s.setReader t (.found call name)
  | .found call name =>
    if !call.blocking then
      if (s.socket.buffer name).isEmpty then s.setReader t (.foundEmpty call name)
      else s.setReader t (.checking call name)
    else if !s.socket.canRead call.side then s.setReader t (.waiting call name)
    else s.setReader t (.checking call name)
  | .foundEmpty call name => do
    let attached ← s.socket.hasAttachedPeer call.side
    if !attached then s.returnWith t call name (.ok [])
    else s.returnWith t call name (.error .EAGAIN)
  | .waiting call name =>
    s.setReader t (.blocking call name (.create (s.socket.canRead call.side)))
  | .blocking call name blocker =>
    if blocker.isBlocked then some s
    else if blocker.blockResult.wasInterrupted then s.returnWith t call name (.error .EINTR)
    else s.setReader t (.checking call name)
  | .checking call name => do
    let attached ← s.socket.hasAttachedPeer call.side
    if !attached then s.setReader t (.peerGone call name)
    else s.setReader t (.asserting call name)
  | .peerGone call name =>
    if (s.socket.buffer name).isEmpty then s.returnWith t call name (.ok [])
    else s.setReader t (.asserting call name)
  | .asserting call name => do
    verify ((s.socket.buffer name).isEmpty = false)
    s.setReader t (.reading call name)
  | .reading call name => s.read t call name

/-- `sendto` by a thread that uses the description of `side`. -/
def send (side : Side) (data : List UInt8) (copied : Bool) : System n :=
  match s.socket.hasAttachedPeer side, s.socket.sendBufferFor side with
  | some true, some name =>
    let (_, buffer) := (s.socket.buffer name).write data copied
    let s' := { s with socket := s.socket.setBuffer name buffer }
    if copied ∧ data ≠ [] ∧ buffer.isEmpty = false then s'.evaluateBlockConditions else s'
  | _, _ => s

/-- One step. A description stays open while a thread uses it. -/
def step : Event n → Option (System n)
  | .call t call =>
    match s.readers t with
    | .idle | .returned .. =>
      if s.socket.isOpen call.side = false then some s
      else if s.socket.shutDownForReading then s.setReader t (.returned call (.ok []) true)
      else s.setReader t (.called call)
    | _ => some s
  | .go t => s.go t
  | .interrupt t interruption =>
    match s.readers t with
    | .blocking call name blocker =>
      s.setReader t (.blocking call name (blocker.interrupt interruption))
    | _ => some s
  | .send side data copied =>
    if s.socket.isOpen side = false then some s else s.send side data copied
  | .close side =>
    if s.socket.isOpen side = false ∨ ∃ t, (s.readers t).side = some side then some s
    else some { s with socket := s.socket.detach side }.evaluateBlockConditions
  | .shutDownForReading =>
    some { s with socket := { s.socket with shutDownForReading := true } }
  | .evaluateBlockConditions => some s.evaluateBlockConditions

/-! ## What a receiving thread relies on -/

/-- The buffer that the thread takes to be not empty. -/
def relies : Reader → Option BufferName
  | .asserting _ name | .reading _ name => some name
  | _ => none

/-- The call returned data, an error, or `0` because the stream had ended. -/
def ReturnedOk : Reader → Prop
  | .returned call result endOfStream =>
    result = .ok [] → call.bufferSize = 0 ∨ endOfStream = true
  | _ => True

/-- Whichever thread goes on next, its assertion holds, and all calls so far returned what they
should. -/
def ReadersSafe : Prop :=
  ∀ t, (∀ name, relies (s.readers t) = some name → (s.socket.buffer name).isEmpty = false) ∧
    ReturnedOk (s.readers t)

/-- The condition on a step: a thread that finds its peer attached also finds its buffer not empty,
a thread that takes the last bytes is the only one that relies on them, and a thread that does not
block finds its buffer still empty when it finds the peer gone. -/
def StepOk : Event n → Prop
  | .go t =>
    match s.readers t with
    | .foundEmpty call name =>
      s.socket.hasAttachedPeer call.side = some false → s.socket.shutDownForReading = false →
        call.bufferSize ≠ 0 → (s.socket.buffer name).isEmpty = true
    | .checking call name =>
      s.socket.hasAttachedPeer call.side = some true → (s.socket.buffer name).isEmpty = false
    | .reading call name =>
      call.copied = true → (s.socket.buffer name).ReadsAll call.bufferSize →
        ∀ u, u ≠ t → relies (s.readers u) ≠ some name
    | _ => True
  | _ => True

/-- The thread knows what is so: its buffer is the one of its description, and a peer that it found
gone is gone. -/
def Knows (socket : LocalSocket) : Reader → Prop
  | .idle | .called _ | .returned .. => True
  | .found call name | .foundEmpty call name | .waiting call name | .blocking call name _
  | .checking call name | .asserting call name | .reading call name =>
    socket.receiveBufferFor call.side = some name
  | .peerGone call name =>
    socket.receiveBufferFor call.side = some name ∧ socket.hasAttachedPeer call.side = some false

/-- The threads know what is so, and they are safe exactly if `ok`. -/
structure SafeIff (s : System n) (ok : Prop) : Prop where
  safe : ReadersSafe s ↔ ok
  knows : ∀ t, Knows s.socket (s.readers t)

/-- What holds in every state reached by steps that meet the condition. -/
abbrev Inv : Prop := SafeIff s True

variable {s : System n} {t : Fin n} {socket : LocalSocket} {reader : Reader} {call : Call}
  {name : BufferName}

theorem Inv.readersSafe (hI : Inv s) : ReadersSafe s := hI.safe.mpr trivial

/-! ## Evaluating the block conditions -/

@[simp]
theorem relies_evaluate {canRead : Side → Bool} :
    relies (reader.evaluate canRead) = relies reader := by
  cases reader <;> rfl

@[simp]
theorem returnedOk_evaluate {canRead : Side → Bool} :
    ReturnedOk (reader.evaluate canRead) ↔ ReturnedOk reader := by
  cases reader <;> rfl

@[simp]
theorem knows_evaluate {canRead : Side → Bool} :
    Knows socket (reader.evaluate canRead) ↔ Knows socket reader := by
  cases reader <;> rfl

/-- Nobody relies on having been woken. -/
theorem safeIff_evaluateBlockConditions {ok : Prop} (h : SafeIff s ok) :
    SafeIff s.evaluateBlockConditions ok where
  safe := by
    rw [← h.safe]
    simp [ReadersSafe, evaluateBlockConditions]
  knows t := knows_evaluate.mpr (h.knows t)

/-! ## One step -/

/-- A thread that goes on at `reader`. -/
theorem safeIff_setReader (reader : Reader) (hI : Inv s) (hknows : Knows s.socket reader) :
    SafeIff (s.setReader t reader)
      ((∀ name, relies reader = some name → (s.socket.buffer name).isEmpty = false) ∧
        ReturnedOk reader) where
  safe := (Function.forall_update_iff s.readers fun _ reader =>
    (∀ name, relies reader = some name → (s.socket.buffer name).isEmpty = false) ∧
      ReturnedOk reader).trans (and_iff_left fun u _ => hI.readersSafe u)
  knows := (Function.forall_update_iff s.readers fun _ => Knows s.socket).mpr
    ⟨hknows, fun u _ => hI.knows u⟩

/-- A thread that goes on where it may. -/
theorem inv_setReader_of_safe (hI : Inv s) (hknows : Knows s.socket reader)
    (hrelies : ∀ name, relies reader = some name → (s.socket.buffer name).isEmpty = false)
    (hreturned : ReturnedOk reader) : Inv (s.setReader t reader) := by
  have h := safeIff_setReader (t := t) reader hI hknows
  exact ⟨iff_of_true (h.safe.mpr ⟨hrelies, hreturned⟩) trivial, h.knows⟩

/-- A thread that goes on at a point where it relies on nothing. -/
theorem inv_setReader (hI : Inv s) (hknows : Knows s.socket reader) (hrelies : relies reader = none)
    (hreturned : ReturnedOk reader) : Inv (s.setReader t reader) :=
  inv_setReader_of_safe hI hknows (by simp [hrelies]) hreturned

/-- A call that returns an error, or `0` at the end of the stream. -/
theorem inv_returnWith (hI : Inv s) {result : KResultOr (List UInt8)}
    (h : result = .ok [] → s.socket.endOfStream call.side name = true) :
    Inv (s.returnWith t call name result) :=
  inv_setReader hI trivial rfl fun hresult => Or.inr (h hresult)

/-- A buffer is changed: the threads stay safe exactly if none of them relies on a buffer that is
empty now. What they know does not depend on what is in the buffers. -/
theorem safeIff_setBuffer (name : BufferName) (buffer : DoubleBuffer) (hI : Inv s) :
    SafeIff ⟨s.socket.setBuffer name buffer, s.readers⟩
      (buffer.isEmpty = true → ∀ t, relies (s.readers t) ≠ some name) where
  safe := by
    constructor
    · intro h hempty t hrelies
      have hne := (h t).1 name hrelies
      simp [LocalSocket.setBuffer, hempty] at hne
    · intro h t
      refine ⟨fun name' hrelies => ?_, (hI.readersSafe t).2⟩
      by_cases hname : name' = name
      · subst hname
        by_contra hempty
        exact h (by simpa [LocalSocket.setBuffer] using hempty) t hrelies
      · simpa [LocalSocket.setBuffer, hname] using (hI.readersSafe t).1 name' hrelies
  knows := hI.knows

/-- A thread that knows its buffer can ask whether the peer is attached. -/
theorem exists_hasAttachedPeer {side : Side} (h : socket.receiveBufferFor side = some name) :
    ∃ attached, socket.hasAttachedPeer side = some attached := by
  unfold LocalSocket.receiveBufferFor at h
  unfold LocalSocket.hasAttachedPeer
  cases hrole : socket.roleOf side <;> simp_all

/-- Reading from a buffer that is not empty: the other threads stay safe exactly if the call leaves
something to those that rely on it. -/
theorem safeIff_read (hI : Inv s) (hne : (s.socket.buffer name).isEmpty = false) :
    SafeIff (s.read t call name)
      (call.copied = true → (s.socket.buffer name).ReadsAll call.bufferSize →
        ∀ u, u ≠ t → relies (s.readers u) ≠ some name) := by
  have hdrains := DoubleBuffer.isEmpty_read_iff call.bufferSize call.copied hne
  have hresult : ((s.socket.buffer name).read call.bufferSize call.copied).1 = .ok [] →
      call.bufferSize = 0 := by
    intro h
    by_contra hsize
    exact DoubleBuffer.read_ne_nil (DoubleBuffer.isEmpty_eq_false_iff.mp hne) hsize h rfl
  generalize hread : (s.socket.buffer name).read call.bufferSize call.copied = outcome at *
  obtain ⟨nread, buffer⟩ := outcome
  have hbase : SafeIff { s.returnWith t call name nread with socket := s.socket.setBuffer name buffer }
      (call.copied = true → (s.socket.buffer name).ReadsAll call.bufferSize →
        ∀ u, u ≠ t → relies (s.readers u) ≠ some name) := by
    have hreturn : Inv (s.returnWith t call name nread) :=
      inv_setReader hI trivial rfl fun h => Or.inl (hresult h)
    have h := safeIff_setBuffer name buffer hreturn
    refine ⟨h.safe.trans ?_, h.knows⟩
    rw [hdrains, and_imp, returnWith, setReader,
      Function.forall_update_iff s.readers fun _ reader => relies reader ≠ some name]
    simp [relies]
  simp only [read, hread]
  split
  · exact safeIff_evaluateBlockConditions hbase
  · exact hbase

/-- A message is added to a buffer: what was not empty stays so. -/
theorem inv_send (hI : Inv s) (side : Side) (data : List UInt8) (copied : Bool) :
    Inv (s.send side data copied) := by
  unfold send
  split
  next name _ _ =>
    have hbase : Inv ⟨s.socket.setBuffer name ((s.socket.buffer name).write data copied).2,
        s.readers⟩ := by
      have h := safeIff_setBuffer name ((s.socket.buffer name).write data copied).2 hI
      refine ⟨iff_of_true (h.safe.mpr fun hempty t hrelies => ?_) trivial, h.knows⟩
      have hne := (hI.readersSafe t).1 name hrelies
      rw [DoubleBuffer.isEmpty_eq_false_iff] at hne
      simp [DoubleBuffer.isEmpty_iff, DoubleBuffer.contents_write, hne] at hempty
    simp only
    split
    · exact safeIff_evaluateBlockConditions hbase
    · exact hbase
  next => exact hI

/-- Closing one description leaves the role of the other. -/
theorem roleOf_detach {side side' : Side} (h : side' ≠ side) :
    (socket.detach side).roleOf side' = socket.roleOf side' := by
  cases side <;> cases side' <;> simp_all [LocalSocket.roleOf, LocalSocket.detach]

/-- A peer that is gone does not come back. -/
theorem hasAttachedPeer_detach {side side' : Side} (h : side' ≠ side)
    (hgone : socket.hasAttachedPeer side' = some false) :
    (socket.detach side).hasAttachedPeer side' = some false := by
  unfold LocalSocket.hasAttachedPeer at hgone ⊢
  rw [roleOf_detach h]
  cases hrole : socket.roleOf side' <;> cases side <;> simp_all [LocalSocket.detach]

/-- A description that no thread uses is closed. -/
theorem inv_close (hI : Inv s) {side : Side} (hunused : ∀ t, (s.readers t).side ≠ some side) :
    Inv (evaluateBlockConditions ⟨s.socket.detach side, s.readers⟩) := by
  apply safeIff_evaluateBlockConditions
  refine ⟨iff_of_true (fun t => ⟨fun name hrelies => ?_, (hI.readersSafe t).2⟩) trivial, fun t => ?_⟩
  · cases side <;> exact (hI.readersSafe t).1 name hrelies
  · -- A thread that knows its buffer uses the other description.
    have hside : ∀ call : Call, (s.readers t).side = some call.side → call.side ≠ side :=
      fun call hcall h => hunused t (h ▸ hcall)
    have hbuffer : ∀ call : Call, call.side ≠ side →
        (s.socket.detach side).receiveBufferFor call.side = s.socket.receiveBufferFor call.side :=
      fun call h => by rw [LocalSocket.receiveBufferFor, roleOf_detach h, LocalSocket.receiveBufferFor]
    have hknows := hI.knows t
    cases hreader : s.readers t <;> simp only [hreader, Reader.side, Knows] at hside hknows ⊢
    case peerGone call name =>
      have hother := hside call rfl
      exact ⟨(hbuffer call hother).trans hknows.1, hasAttachedPeer_detach hother hknows.2⟩
    all_goals exact (hbuffer _ (hside _ rfl)).trans hknows

/-- Every step of a thread completes; afterwards the threads are safe exactly if the step met the
condition. -/
theorem go_spec (hI : Inv s) (t : Fin n) :
    ∃ s', s.go t = some s' ∧ SafeIff s' (StepOk s (.go t)) := by
  have hknows := hI.knows t
  have hsafe := hI.readersSafe t
  simp only [StepOk]
  unfold go
  split <;> rename_i hreader <;> simp only [hreader] at hknows hsafe ⊢
  · exact ⟨s, rfl, hI⟩
  · exact ⟨s, rfl, hI⟩
  · split
    next => exact ⟨_, rfl, inv_setReader hI trivial rfl (by simp [ReturnedOk])⟩
    next name hname => exact ⟨_, rfl, inv_setReader hI hname rfl trivial⟩
  · split_ifs <;> exact ⟨_, rfl, inv_setReader hI hknows rfl trivial⟩
  · -- The description does not block and the buffer was empty when the thread looked.
    rename_i call name
    obtain ⟨attached, hattached⟩ := exists_hasAttachedPeer hknows
    cases attached with
    | true =>
      refine ⟨_, by simp [hattached]; rfl, ?_⟩
      simpa [hattached] using inv_returnWith hI (by simp)
    | false =>
      refine ⟨s.returnWith t call name (.ok []), by simp [hattached], ?_⟩
      have h := safeIff_setReader (t := t)
        (.returned call (.ok []) (s.socket.endOfStream call.side name)) hI trivial
      refine ⟨h.safe.trans ?_, h.knows⟩
      simp only [relies, ReturnedOk, LocalSocket.endOfStream, hattached]
      cases s.socket.shutDownForReading <;> simp [or_iff_not_imp_left]
  · exact ⟨_, rfl, inv_setReader hI hknows rfl trivial⟩
  · split_ifs
    · exact ⟨s, rfl, hI⟩
    · exact ⟨_, rfl, inv_returnWith hI (by simp)⟩
    · exact ⟨_, rfl, inv_setReader hI hknows rfl trivial⟩
  · -- The check before the assertion.
    rename_i call name
    obtain ⟨attached, hattached⟩ := exists_hasAttachedPeer hknows
    cases attached with
    | true =>
      refine ⟨s.setReader t (.asserting call name), by simp [hattached], ?_⟩
      simpa [hattached, relies, ReturnedOk] using
        safeIff_setReader (t := t) (.asserting call name) hI hknows
    | false =>
      refine ⟨s.setReader t (.peerGone call name), by simp [hattached], ?_⟩
      have hgone : Inv (s.setReader t (.peerGone call name)) :=
        inv_setReader hI ⟨hknows, hattached⟩ rfl trivial
      simpa [hattached] using hgone
  · rename_i call name
    obtain ⟨hname, hgone⟩ := hknows
    by_cases hempty : (s.socket.buffer name).isEmpty = true
    · refine ⟨s.returnWith t call name (.ok []), by simp [hempty], inv_returnWith hI fun _ => ?_⟩
      simp [LocalSocket.endOfStream, hgone, hempty]
    · exact ⟨s.setReader t (.asserting call name), by simp [hempty], inv_setReader_of_safe hI
        hname (by simpa [relies] using hempty) trivial⟩
  · -- The assertion.
    rename_i call name
    have hne : (s.socket.buffer name).isEmpty = false := hsafe.1 name rfl
    exact ⟨s.setReader t (.reading call name), by simp [hne], inv_setReader_of_safe hI
      hknows (by simpa [relies] using hne) trivial⟩
  · rename_i call name
    exact ⟨_, rfl, safeIff_read hI (hsafe.1 name rfl)⟩

/-- Every step of safe readers completes; afterwards they are safe exactly if the step met the
condition. -/
theorem step_spec (hI : Inv s) (event : Event n) :
    ∃ s', s.step event = some s' ∧ SafeIff s' (StepOk s event) := by
  cases event with
  | call t call =>
    simp only [step, StepOk]
    split
    -- a thread that is idle, or has returned
    iterate 2
      · split_ifs
        · exact ⟨s, rfl, hI⟩
        · exact ⟨_, rfl, inv_setReader hI trivial rfl fun _ => Or.inr rfl⟩
        · exact ⟨_, rfl, inv_setReader hI trivial rfl trivial⟩
    · exact ⟨s, rfl, hI⟩
  | go t => exact go_spec hI t
  | interrupt t interruption =>
    simp only [step, StepOk]
    split
    next call name blocker hreader =>
      have hknows := hI.knows t
      rw [hreader] at hknows
      exact ⟨_, rfl, inv_setReader hI hknows rfl trivial⟩
    next => exact ⟨s, rfl, hI⟩
  | send side data copied =>
    simp only [step, StepOk]
    split
    · exact ⟨s, rfl, hI⟩
    · exact ⟨_, rfl, inv_send hI side data copied⟩
  | close side =>
    simp only [step, StepOk]
    split
    next => exact ⟨s, rfl, hI⟩
    next h =>
      rw [not_or, not_exists] at h
      exact ⟨_, rfl, inv_close hI h.2⟩
  | shutDownForReading => exact ⟨_, rfl, ⟨hI.safe, hI.knows⟩⟩
  | evaluateBlockConditions => exact ⟨_, rfl, safeIff_evaluateBlockConditions hI⟩

/-- Nobody relies on anything at the start. -/
theorem inv_create {role connectSideRole : Role} :
    Inv (create role connectSideRole : System n) where
  safe := iff_of_true (fun _ => ⟨by simp [create, relies], trivial⟩) trivial
  knows _ := trivial

end System

end LocalSocket

end Kernel
