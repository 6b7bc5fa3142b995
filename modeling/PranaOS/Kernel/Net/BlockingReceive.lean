import PranaOS.Kernel.Net.LocalSocket

/-!
# Blocking receive

Threads receive from one socket while data arrives, the peer closes the connection, the socket is
shut down and threads are interrupted, in any order. The receiving functions assert that there is
something to read after they were woken. For a run of any length, no assertion fails and every call
returns data, an error, or `0` at the end of the stream, exactly if all steps meet the conditions of
the two sockets (`receive_safe_iff_meets`).
-/

namespace Kernel

open Transition

/-- **Blocking receive.** A run of readers on a socket is safe if and only if

* for an IPv4 socket, nobody who waits is told to read because of a disconnection, a shutdown or a
  pending connection while the buffer is empty, and nobody takes the last bytes while somebody else
  has been told to read;
* for a local socket, nobody passes the check before the assertion with an empty buffer and an
  attached peer, nobody takes the last bytes while somebody else is past the check, and nobody who
  does not block finds the peer gone after bytes have arrived. -/
theorem receive_safe_iff_meets (n : ℕ) :
    (∀ role protocolIsDisconnected (events : List (IPv4Socket.Event n)),
      Safe IPv4Socket.System.step IPv4Socket.System.ReadersSafe
          (IPv4Socket.System.create role protocolIsDisconnected) events ↔
        Meets IPv4Socket.System.step IPv4Socket.System.StepOk
          (IPv4Socket.System.create role protocolIsDisconnected) events) ∧
    (∀ role connectSideRole (events : List (LocalSocket.Event n)),
      Safe LocalSocket.System.step LocalSocket.System.ReadersSafe
          (LocalSocket.System.create role connectSideRole) events ↔
        Meets LocalSocket.System.step LocalSocket.System.StepOk
          (LocalSocket.System.create role connectSideRole) events) := by
  constructor
  · intro role protocolIsDisconnected events
    apply safe_iff_meets (I := IPv4Socket.System.Inv)
    · exact fun s hI => hI.readersSafe
    · intro s event hI
      obtain ⟨s', hstep, hspec⟩ := IPv4Socket.System.step_spec hI event
      refine ⟨s', hstep, hspec.safe, fun hok => ?_⟩
      exact ⟨iff_of_true (hspec.safe.mpr hok) trivial, hspec.canReadFlag, hspec.capacity⟩
    · exact IPv4Socket.System.inv_create
  · intro role connectSideRole events
    apply safe_iff_meets (I := LocalSocket.System.Inv)
    · exact fun s hI => hI.readersSafe
    · intro s event hI
      obtain ⟨s', hstep, hspec⟩ := LocalSocket.System.step_spec hI event
      refine ⟨s', hstep, hspec.safe, fun hok => ?_⟩
      exact ⟨iff_of_true (hspec.safe.mpr hok) trivial, hspec.knows⟩
    · exact LocalSocket.System.inv_create

/-- A thread blocks in `recv` on a connected TCP socket and the peer closes the connection: the
thread is woken and its assertion fails. Two threads block in `recv` on a local socket and one byte
is sent: both are woken, the first one reads the byte, and the assertion of the second one fails. -/
theorem receive_panics :
    (run IPv4Socket.System.step (IPv4Socket.System.create .Connected false : IPv4Socket.System 1)
      [.call 0 ⟨true, 1, false, true⟩, .lock 0, .block 0, .setProtocolIsDisconnected true,
        .relock 0]).isNone = true ∧
    (run LocalSocket.System.step (LocalSocket.System.create .Accepted .Connected :
        LocalSocket.System 2)
      [.call 0 ⟨.connect, true, 1, true⟩, .go 0, .go 0, .go 0,
        .call 1 ⟨.connect, true, 1, true⟩, .go 1, .go 1, .go 1,
        .send .accept [7] true,
        .go 0, .go 0, .go 0, .go 0,
        .go 1, .go 1, .go 1]).isNone = true := by
  constructor <;> rfl

end Kernel
