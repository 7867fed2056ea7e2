import NetBmp.PacketWriter

/-!
# `gdb_session.h` and `gdb_session.c`

There is one session. It is part of a world that also holds the error of the network module,
the results that the transport is going to report for its writes, and a record of what has
happened so far, which the code itself never reads. The status LEDs are left out.
-/

namespace NetBmp

open Hex Halting

/-- The error codes of lwIP: the two that the source names, and all others. -/
inductive ErrT
  | ok | abrt | other (code : ℕ)
  deriving DecidableEq, Repr

inductive GdbSessionState
  | idle | active | aborted
  deriving DecidableEq, Repr

inductive GdbSessionTransport
  | none | usbCdc | tcpIp
  deriving DecidableEq, Repr

/-- The callbacks that a session may write with: that of the network module, or another. -/
inductive GdbWriteCb
  | networkGdbWriteCb | other (index : ℕ)
  deriving DecidableEq, Repr

structure GdbSessionProperties where
  isExtendedRemote : Bool
  nonStop : Bool
  noAckMode : Bool
  deriving DecidableEq, Repr

/-- The GDB session structure. `lock` tells whether the semaphore is taken. -/
structure GdbSession where
  pTarget : Option ℕ
  inputPacket : GdbPacket
  outputPacket : GdbPacket
  pWriteCb : Option GdbWriteCb
  transport : GdbSessionTransport
  properties : GdbSessionProperties
  state : GdbSessionState
  lock : Bool

/-- What can be observed of a run: calls of `gdb_session_handle` with their input and what they
consumed, packets passed to `gdb_execute`, and writes with their results. -/
inductive Event
  | handle (input : List UInt8)
  | consumed (length : ℕ)
  | execute (stored : List UInt8)
  | write (cb : GdbWriteCb) (data : List UInt8) (result : ErrT)
  deriving DecidableEq, Repr

structure World where
  gdbSession : GdbSession
  networkErr : ErrT
  writeResults : ℕ → ErrT
  trace : List Event

/-- Code that works on the world and may trip an assertion. -/
abbrev Routine := EStateM String World

def record (event : Event) : Routine Unit :=
  modify fun w => { w with trace := w.trace ++ [event] }

def getSession : Routine GdbSession := do return (← get).gdbSession

def modifySession (f : GdbSession → GdbSession) : Routine Unit :=
  modify fun w => { w with gdbSession := f w.gdbSession }

/-- The transport takes the next result for a write of `data` through `cb`. -/
def transmit (cb : GdbWriteCb) (data : List UInt8) : Routine ErrT := do
  let result := (← get).writeResults 0
  modify fun w => { w with writeResults := fun n => w.writeResults (n + 1) }
  record (.write cb data result)
  return result

/-- `network_gdb_write_cb`, where `netconn_write` reports the next result. -/
def networkGdbWriteCb (data : List UInt8) : Routine Bool := do
  let err ← transmit .networkGdbWriteCb data
  modify fun w => { w with networkErr := err }
  return err = .ok

def GdbWriteCb.call : GdbWriteCb → List UInt8 → Routine Bool
  | .networkGdbWriteCb, data => NetBmp.networkGdbWriteCb data
  | .other index, data => do return (← transmit (.other index) data) = .ok

def gdbSessionGetState : Routine GdbSessionState := do return (← getSession).state

def gdbSessionFlush : Routine Unit := do
  let session ← getSession
  match session.pWriteCb with
  | none => throw "Null pointer."
  | some writeCb =>
    let buffer ← lift (gdbPacketGetBuffer session.outputPacket)
    let length ← lift (gdbPacketGetLength session.outputPacket)
    let success ← writeCb.call (buffer.take length)
    let packet ← lift (gdbPacketMarkSent session.outputPacket)
    modifySession fun session => { session with outputPacket := packet }
    if success then return
    match session.transport with
    | .tcpIp => modifySession fun session => { session with state := .aborted }
    | _ => return

/-- Lock the GDB session. Returns whether it could be locked. -/
def gdbSessionLock (transport : GdbSessionTransport) (writeCb : GdbWriteCb) : Routine Bool := do
  let locked := !(← getSession).lock
  if locked then
    modifySession fun session => { session with
      lock := true
      inputPacket := gdbPacketInit session.inputPacket .inbound
      outputPacket := gdbPacketInit session.outputPacket .outbound
      state := .active
      transport := transport
      pWriteCb := some writeCb }
  return locked

def gdbSessionRelease : Routine Unit :=
  modifySession fun session => { session with
    properties := ⟨false, false, false⟩
    transport := .none
    state := .idle
    lock := false }

/-- Initialize the GDB session. The semaphore starts as taken and is released. -/
def gdbSessionInit : Routine Unit := do
  modifySession fun session => { session with lock := true }
  gdbSessionRelease

/-- `gdb_packet_write` into the output packet of the session; the result is dropped by all
callers. -/
def writeOutput (write : GdbPacket → Except String (GdbPacketResult × GdbPacket)) :
    Routine Unit := do
  let written ← lift (write (← getSession).outputPacket)
  modifySession fun session => { session with outputPacket := written.2 }

/-- Write a GDB reply packet to the session, and flush it to the transport. -/
def gdbReply (reply : CString) : Routine Unit := do
  writeOutput fun packet => gdbPacketWrite packet reply
  gdbSessionFlush

end NetBmp
