import NetBmp.Hex

/-!
# `gdb_packet.h` and `gdb_packet.c`

A packet owns a fixed buffer of which only the first `length` bytes belong to
the packet; the rest keeps whatever earlier packets left there. A function that
can trip an assertion returns in `Except`, with the message of the assertion.
Pointers to packets are never null in the callers, so `ASSERT_PTR_NOT_NULL` on
them is not repeated here.
-/

namespace NetBmp

open Hex

abbrev gdbPacketPrefixLength : ℕ := 1
abbrev gdbPacketOverheadLength : ℕ := 4
abbrev gdbPacketMaxBufferLength : ℕ := 2048
abbrev gdbPacketMaxUsableBufferLength : ℕ := gdbPacketMaxBufferLength - 1

namespace GdbPacketChar

abbrev start : UInt8 := 0x24  -- '$'
abbrev stop : UInt8 := 0x23   -- '#'
abbrev ack : UInt8 := 0x2B    -- '+'
abbrev nack : UInt8 := 0x2D   -- '-'
abbrev ctrlC : UInt8 := 0x03

end GdbPacketChar

inductive GdbPacketResult
  | ok | collecting | overflow | checksumError
  deriving DecidableEq, Repr

inductive GdbPacketState
  | init | collect | collectChecksumUpper | collectChecksumLower | complete | sent | abort
  | pendingAck
  deriving DecidableEq, Repr

inductive GdbPacketType
  | inbound | outbound
  deriving DecidableEq, Repr

/-- The value of the enumerator in C, where the states are numbered from zero. -/
def GdbPacketState.value : GdbPacketState → ℕ
  | .init => 0
  | .collect => 1
  | .collectChecksumUpper => 2
  | .collectChecksumLower => 3
  | .complete => 4
  | .sent => 5
  | .abort => 6
  | .pendingAck => 7

/-- A GDB packet, received from the stub, or as prepared for transmission. -/
structure GdbPacket where
  buffer : Vector UInt8 gdbPacketMaxBufferLength
  length : ℕ
  checksum : UInt8
  referenceChecksum : UInt8
  type : GdbPacketType
  state : GdbPacketState
  length_le : length ≤ gdbPacketMaxBufferLength

/-- A NUL-terminated string, given by its characters. -/
structure CString where
  chars : List UInt8
  no_nul : 0 ∉ chars

def CString.lit (s : String) (h : 0 ∉ bytes s := by decide) : CString := ⟨bytes s, h⟩

/-- A packet in static storage before its first initialization. -/
def GdbPacket.zero : GdbPacket where
  buffer := Vector.replicate _ 0
  length := 0
  checksum := 0
  referenceChecksum := 0
  type := .inbound
  state := .init
  length_le := Nat.zero_le _

/-- Initialize a packet. The buffer is left as it is. -/
def gdbPacketInit (packet : GdbPacket) (type : GdbPacketType) : GdbPacket :=
  { packet with
    length := 0
    checksum := 0
    referenceChecksum := 0
    type := type
    state := .init
    length_le := Nat.zero_le _ }

/-- Add a character to the GDB packet buffer. -/
def gdbPacketAddChar (packet : GdbPacket) (character : UInt8) (updateChecksum : Bool) :
    GdbPacketResult × GdbPacket :=
  if h : packet.length ≥ gdbPacketMaxBufferLength then (.overflow, packet)
  else
    (.ok, { packet with
      buffer := packet.buffer.set packet.length character (by omega)
      length := packet.length + 1
      checksum := if updateChecksum then packet.checksum + character else packet.checksum
      length_le := by omega })

/-- Parse a character from a GDB packet. The result of `gdb_packet_add_char` is dropped in
all three cases. -/
def gdbPacketParseChar (packet : GdbPacket) (character : UInt8) : Except String GdbPacket :=
  match packet.state with
  | .collectChecksumUpper => do
    let packet := (gdbPacketAddChar packet character false).2
    let nibble ← charFromHexNibble character
    return { packet with referenceChecksum := nibble <<< 4, state := .collectChecksumLower }
  | .collectChecksumLower => do
    let packet := (gdbPacketAddChar packet character false).2
    let nibble ← charFromHexNibble character
    return { packet with
      referenceChecksum := packet.referenceChecksum ||| nibble, state := .complete }
  | _ => return (gdbPacketAddChar packet character true).2

/-- The `switch` of `gdb_packet_read_char`. -/
def gdbPacketSwitchChar (packet : GdbPacket) (character : UInt8) : Except String GdbPacket :=
  if character = GdbPacketChar.start then
    return { (gdbPacketAddChar packet character false).2 with state := .collect }
  else if character = GdbPacketChar.stop then
    return { (gdbPacketAddChar packet character false).2 with state := .collectChecksumUpper }
  else if character = GdbPacketChar.ctrlC then
    return { packet with state := .abort }
  else if character = GdbPacketChar.ack ∨ character = GdbPacketChar.nack then
    if packet.state = .pendingAck then return packet else gdbPacketParseChar packet character
  else gdbPacketParseChar packet character

/-- Read a single character from a GDB packet. -/
def gdbPacketReadChar (packet : GdbPacket) (character : UInt8) :
    Except String (GdbPacketResult × GdbPacket) := do
  let packet ← gdbPacketSwitchChar packet character
  if packet.state ≠ .complete then return (.collecting, packet)
  let added := gdbPacketAddChar packet 0 false
  -- `RETURN_IF_NOT` returns the value it compares with, not the result of the call
  if added.1 ≠ .ok then return (.ok, added.2)
  if added.2.referenceChecksum ≠ added.2.checksum then return (.checksumError, added.2)
  return (.ok, added.2)

/-- The loop of `gdb_packet_read_stream`, with the result of the last character and the
number of characters consumed. -/
def gdbPacketReadStreamLoop :
    GdbPacket → GdbPacketResult → ℕ → List UInt8 →
      Except String (GdbPacketResult × GdbPacket × ℕ)
  | packet, result, consumed, [] => return (result, packet, consumed)
  | packet, _, consumed, c :: cs => do
    let (result, packet) ← gdbPacketReadChar packet c
    if result = .ok ∨ result = .checksumError then return (result, packet, consumed + 1)
    gdbPacketReadStreamLoop packet result (consumed + 1) cs

/-- Read characters from a stream into a GDB packet. Returns the result, the packet and the
length of input that was consumed. -/
def gdbPacketReadStream (packet : GdbPacket) (characters : List UInt8) :
    Except String (GdbPacketResult × GdbPacket × ℕ) :=
  gdbPacketReadStreamLoop (gdbPacketInit packet .inbound) .collecting 0 characters

/-- Initialize the packet and write the start character. -/
def gdbPacketWriteStart (packet : GdbPacket) : Except String (GdbPacketResult × GdbPacket) := do
  assertVerbose (packet.state ≠ .complete) "Complete packet was not sent yet."
  let packet := { gdbPacketInit packet .outbound with state := .collect }
  let added := gdbPacketAddChar packet GdbPacketChar.start false
  if added.1 ≠ .ok then return (.ok, added.2)
  return (.ok, added.2)

def gdbPacketWritePayloadLoop (packet : GdbPacket) : List UInt8 → GdbPacketResult × GdbPacket
  | [] => (.ok, packet)
  | c :: cs =>
    let added := gdbPacketAddChar packet c true
    if added.1 ≠ .ok then (.ok, added.2) else gdbPacketWritePayloadLoop added.2 cs

/-- Write the payload itself. Can be called repeatedly. -/
def gdbPacketWritePayload (packet : GdbPacket) (characters : CString) :
    Except String (GdbPacketResult × GdbPacket) := do
  assertVerbose (packet.state = .collect) "Invalid packet state."
  return gdbPacketWritePayloadLoop packet characters.chars

def gdbPacketWritePayloadAsHexLoop (packet : GdbPacket) :
    List UInt8 → Except String (GdbPacketResult × GdbPacket)
  | [] => return (.ok, packet)
  | c :: cs => do
    let upper ← hexNibbleFromChar (getUpperNibble c)
    let lower ← hexNibbleFromChar (getLowerNibble c)
    let added := gdbPacketAddChar packet upper true
    if added.1 ≠ .ok then return (.ok, added.2)
    let added := gdbPacketAddChar added.2 lower true
    if added.1 ≠ .ok then return (.ok, added.2)
    gdbPacketWritePayloadAsHexLoop added.2 cs

/-- Write the payload as hex values. Can be called repeatedly. -/
def gdbPacketWritePayloadAsHex (packet : GdbPacket) (characters : CString) :
    Except String (GdbPacketResult × GdbPacket) := do
  assertVerbose (packet.state = .collect) "Invalid packet state."
  gdbPacketWritePayloadAsHexLoop packet characters.chars

def gdbPacketWriteStop (packet : GdbPacket) : Except String (GdbPacketResult × GdbPacket) := do
  assertVerbose (packet.state = .collect) "Invalid packet state."
  let added := gdbPacketAddChar packet GdbPacketChar.stop false
  if added.1 ≠ .ok then return (.ok, added.2)
  let upper ← hexNibbleFromChar (getUpperNibble added.2.checksum)
  let added := gdbPacketAddChar added.2 upper false
  if added.1 ≠ .ok then return (.ok, added.2)
  let lower ← hexNibbleFromChar (getLowerNibble added.2.checksum)
  let added := gdbPacketAddChar added.2 lower false
  if added.1 ≠ .ok then return (.ok, added.2)
  let added := gdbPacketAddChar added.2 0 false
  if added.1 ≠ .ok then return (.ok, added.2)
  return (.ok, { added.2 with state := .complete })

/-- Write characters to a GDB packet, freshly initialized. -/
def gdbPacketWrite (packet : GdbPacket) (characters : CString) :
    Except String (GdbPacketResult × GdbPacket) := do
  let started ← gdbPacketWriteStart packet
  if started.1 ≠ .ok then return (.ok, started.2)
  let written ← gdbPacketWritePayload started.2 characters
  if written.1 ≠ .ok then return (.ok, written.2)
  let stopped ← gdbPacketWriteStop written.2
  if stopped.1 ≠ .ok then return (.ok, stopped.2)
  return (.ok, stopped.2)

/-- Write a single ACK or NACK character to a GDB packet, freshly initialized. -/
def gdbPacketWriteAck (packet : GdbPacket) (character : UInt8) :
    Except String (GdbPacketResult × GdbPacket) := do
  assertVerbose (character = GdbPacketChar.ack ∨ character = GdbPacketChar.nack)
    "Unsupported character."
  let packet := gdbPacketInit packet .outbound
  let added := gdbPacketAddChar packet character false
  if added.1 ≠ .ok then return (.ok, added.2)
  return (.ok, { added.2 with state := .complete })

/-- Mark a packet as sent. The condition of the assertion assigns the state and is the value
assigned. -/
def gdbPacketMarkSent (packet : GdbPacket) : Except String GdbPacket := do
  let packet := { packet with state := .complete }
  assertVerbose (packet.state.value ≠ 0) "Incomplete packet cannot have been sent."
  return { packet with state := .sent }

/-- Get the full length of a packet. -/
def gdbPacketGetLength (packet : GdbPacket) : Except String ℕ := do
  assertVerbose (packet.state = .complete ∨ packet.state = .sent) "Packet not complete."
  return packet.length

/-- Get the length of a packet, excluding overhead. -/
def gdbPacketGetPayloadLength (packet : GdbPacket) : Except String ℕ := do
  let packetLength ← gdbPacketGetLength packet
  assertVerbose (packetLength ≥ gdbPacketOverheadLength) "Packet length too small."
  return packetLength - gdbPacketOverheadLength

/-- Get a packet's buffer at a specified offset: the bytes from there to the end of the
buffer, of which those from `length` on are left over from earlier packets. -/
def gdbPacketGetBufferOffset (packet : GdbPacket) (offset : ℕ) : Except String (List UInt8) := do
  let length ← gdbPacketGetLength packet
  assertVerbose (offset < length) "Offset exceeds buffer length."
  return packet.buffer.toList.drop offset

def gdbPacketGetBufferPayloadOffset (packet : GdbPacket) (offset : ℕ) :
    Except String (List UInt8) :=
  gdbPacketGetBufferOffset packet (offset + gdbPacketPrefixLength)

def gdbPacketGetBuffer (packet : GdbPacket) : Except String (List UInt8) :=
  gdbPacketGetBufferOffset packet 0

def gdbPacketGetBufferPayload (packet : GdbPacket) : Except String (List UInt8) :=
  gdbPacketGetBufferPayloadOffset packet 0

/-- Get the command character from a packet. -/
def gdbPacketGetCommand (packet : GdbPacket) : Except String UInt8 := do
  assertVerbose (packet.type = .inbound) "Packet is not inbound."
  assertVerbose (packet.state = .complete ∨ packet.state = .sent) "Packet not complete."
  let buffer ← gdbPacketGetBufferOffset packet gdbPacketPrefixLength
  return buffer.headD 0

end NetBmp
