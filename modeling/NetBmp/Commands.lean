import NetBmp.Session

/-!
# `gdb.c`, `gdb_query.c`, `gdb_query_remote.c` and `gdb_session_handle`

The command tables and what handles their entries. Strings that the C code passes as pointers
into a buffer are lists here, and a list that ends reads as NUL. The values that
`gdb_breakpoint` scans are not used by the source and are left out.

The functions that lead to the call of `gdb_execute_sub` in `gdb_query_remote` are defined over the
next one on this way, so that the call can be observed.
-/

namespace NetBmp

open Hex Halting

/-- What the build and the formatter outside this repository contribute. -/
structure Build where
  version : CString
  commitHash : CString
  chsnprintf : ℕ → CString → ℕ → CString
  chsnprintf_fits : ∀ size format value, 0 < size →
    (chsnprintf size format value).chars.length < size

abbrev gdbMaxArgCount : ℕ := 32
abbrev gdbQueryMessageMaxLength : ℕ := 256

def gdbReplyEmpty : CString := .lit ""
def gdbReplyOk : CString := .lit "OK"
def gdbReplyError01 : CString := .lit "E01"

inductive GdbResult
  | ok | excessArguments
  deriving DecidableEq, Repr

/-- The bytes of a buffer up to its first NUL. -/
def cString (buffer : List UInt8) : List UInt8 := buffer.takeWhile (· ≠ 0)

/-- `strncmp`: the difference of the first bytes that differ among the first `n`. -/
def strncmp : List UInt8 → List UInt8 → ℕ → ℤ
  | _, _, 0 => 0
  | xs, ys, n + 1 =>
    if xs.headD 0 ≠ ys.headD 0 then (xs.headD 0).toNat - (ys.headD 0).toNat
    else if xs.headD 0 = 0 then 0
    else strncmp xs.tail ys.tail n

/-- The delimiters of `gdb_get_args`, space and tab. -/
def isDelimiter (c : UInt8) : Bool := c = 0x20 || c = 0x09

/-- `strtok_r`: the next token and the state to go on with. -/
def strtokR (state : List UInt8) : Option (List UInt8 × List UInt8) :=
  match state.dropWhile isDelimiter with
  | [] => none
  | c :: cs =>
    some ((c :: cs).takeWhile (!isDelimiter ·), ((c :: cs).dropWhile (!isDelimiter ·)).tail)

/-- The loop of `gdb_get_args`, with the number of arguments that there is still room for. -/
def gdbGetArgsLoop : ℕ → List UInt8 → GdbResult × List (List UInt8)
  | 0, state =>
    match strtokR state with
    | none => (.ok, [])
    | some _ => (.excessArguments, [])
  | room + 1, state =>
    match strtokR state with
    | none => (.ok, [])
    | some (token, state) =>
      let r := gdbGetArgsLoop room state
      (r.1, token :: r.2)

/-- Extract arguments from a string. Their number is the length of the list. -/
def gdbGetArgs (string : List UInt8) : GdbResult × List (List UInt8) :=
  gdbGetArgsLoop gdbMaxArgCount (cString string)

/-- A GDB subcommand. A callback of `none` is a null pointer: not yet implemented. -/
structure GdbSubcommand where
  pSubcommand : CString
  pHelp : Option CString
  pCallback : Option (ℕ → List (List UInt8) → Routine Unit)

/-- Whether a subcommand is the one that a string names. -/
def GdbSubcommand.matches (commandString : List UInt8) (subcommand : GdbSubcommand) : Bool :=
  strncmp commandString subcommand.pSubcommand.chars subcommand.pSubcommand.chars.length = 0

/-- What has the signature of `gdb_execute_sub`. -/
abbrev ExecuteSub := List UInt8 → List GdbSubcommand → ℕ → List (List UInt8) → Routine Unit

/-- Execute a subcommand that is given by a string. -/
def gdbExecuteSub (commandString : List UInt8) (subcommands : List GdbSubcommand) (argc : ℕ)
    (argv : List (List UInt8)) : Routine Unit := do
  lift (assertVerbose (commandString.headD 0 ≠ GdbPacketChar.start)
    "GDB packet start delimiter is invalid in commands names.")
  match subcommands.find? (·.matches commandString) with
  | none => gdbReply gdbReplyEmpty
  | some subcommand =>
    match subcommand.pCallback with
    | none => gdbReply gdbReplyEmpty
    | some callback => callback argc argv

def writeOutputAsHex (string : CString) : Routine Unit :=
  writeOutput fun packet => gdbPacketWritePayloadAsHex packet string

/-- The names and help texts of the monitor subcommands, which `help` lists. -/
def gQueryRemoteTexts : List (CString × CString) :=
  [(.lit "help", .lit "Show the supported monitor commands."),
    (.lit "version", .lit "Show firmware version information.")]

/-- Provide a list of all supported monitor subcommands. -/
def gdbQueryRemoteHelp (_argc : ℕ) (_argv : List (List UInt8)) : Routine Unit := do
  writeOutput gdbPacketWriteStart
  writeOutputAsHex (.lit "Supported monitor commands:\n\n")
  gQueryRemoteTexts.forM fun text => do
    writeOutputAsHex text.1
    writeOutputAsHex (.lit ": ")
    writeOutputAsHex text.2
    writeOutputAsHex (.lit "\n")
  writeOutput gdbPacketWriteStop
  gdbSessionFlush

/-- Respond to a version query. -/
def gdbQueryRemoteVersion (build : Build) (_argc : ℕ) (_argv : List (List UInt8)) :
    Routine Unit := do
  writeOutput gdbPacketWriteStart
  writeOutputAsHex (.lit "Version: ")
  writeOutputAsHex build.version
  writeOutputAsHex (.lit "-")
  writeOutputAsHex build.commitHash
  writeOutputAsHex (.lit "\n")
  writeOutput gdbPacketWriteStop
  gdbSessionFlush

def gQueryRemoteSubcommands (build : Build) : List GdbSubcommand :=
  List.zipWith (fun text callback => ⟨text.1, some text.2, some callback⟩) gQueryRemoteTexts
    [gdbQueryRemoteHelp, gdbQueryRemoteVersion build]

def gdbQueryRemotePrefix : CString := .lit "qRcmd,"

/-- Execute a remote command on the server. The subtraction wraps as in `size_t`, and the
message buffer is not initialized in the source, which never reads beyond the NUL. -/
def gdbQueryRemoteWith (executeSub : ExecuteSub) (build : Build) (_argc : ℕ)
    (_argv : List (List UInt8)) : Routine Unit := do
  let prefixLength := gdbQueryRemotePrefix.chars.length
  let inputPacket := (← getSession).inputPacket
  let hex ← lift (gdbPacketGetBufferPayloadOffset inputPacket prefixLength)
  let payloadLength ← lift (gdbPacketGetPayloadLength inputPacket)
  let message ← lift (strFromHex hex ((payloadLength + 2 ^ 32 - prefixLength) % 2 ^ 32)
    (List.replicate gdbQueryMessageMaxLength 0))
  match (gdbGetArgs message).2 with
  | [] => return
  | command :: args =>
    executeSub command (gQueryRemoteSubcommands build) (command :: args).length (command :: args)

def gdbQueryRemote (build : Build) (argc : ℕ) (argv : List (List UInt8)) : Routine Unit :=
  gdbQueryRemoteWith gdbExecuteSub build argc argv

def gdbQuerySupportedMessage (build : Build) : CString :=
  build.chsnprintf gdbQueryMessageMaxLength (.lit "PacketSize=%X") gdbPacketMaxUsableBufferLength

def gdbQuerySupported (build : Build) (_argc : ℕ) (_argv : List (List UInt8)) : Routine Unit :=
  gdbReply (gdbQuerySupportedMessage build)

def gdbQueryCurrentThreadId (_argc : ℕ) (_argv : List (List UInt8)) : Routine Unit :=
  gdbReply (.lit "QC1")

def gdbQueryFirstThreadInfo (_argc : ℕ) (_argv : List (List UInt8)) : Routine Unit := do
  if (← getSession).pTarget ≠ none then gdbReply (.lit "m1") else gdbReply (.lit "l")

def gdbQuerySubsequentThreadInfo (_argc : ℕ) (_argv : List (List UInt8)) : Routine Unit :=
  gdbReply (.lit "l")

def gdbQueryStartNoAckMode (_argc : ℕ) (_argv : List (List UInt8)) : Routine Unit := do
  modifySession fun session =>
    { session with properties := { session.properties with noAckMode := true } }
  gdbReply gdbReplyOk

/-- Supported query commands. -/
def gQueryCommandsWith (remote : ℕ → List (List UInt8) → Routine Unit) (build : Build) :
    List GdbSubcommand :=
  [⟨gdbQueryRemotePrefix, none, some remote⟩,
    ⟨.lit "qSupported", none, some (gdbQuerySupported build)⟩,
    ⟨.lit "qC", none, some gdbQueryCurrentThreadId⟩,
    ⟨.lit "qCRC", none, none⟩,
    ⟨.lit "qXfer:memory-map:read::", none, none⟩,
    ⟨.lit "qXfer:features:read:target.xml:", none, none⟩,
    ⟨.lit "qfThreadInfo", none, some gdbQueryFirstThreadInfo⟩,
    ⟨.lit "qsThreadInfo", none, some gdbQuerySubsequentThreadInfo⟩,
    ⟨.lit "QStartNoAckMode", none, some gdbQueryStartNoAckMode⟩,
    ⟨.lit "qAttached", none, none⟩]

def gQueryCommands (build : Build) : List GdbSubcommand :=
  gQueryCommandsWith (gdbQueryRemote build) build

/-- Entry point to handling query commands. -/
def gdbQueryWith (queryCommands : List GdbSubcommand) : Routine Unit := do
  let payload ← lift (gdbPacketGetBufferPayload (← getSession).inputPacket)
  gdbExecuteSub payload queryCommands 0 []

def gdbQuery (build : Build) : Routine Unit := gdbQueryWith (gQueryCommands build)

def gdbExtendedRemote : Routine Unit := do
  modifySession fun session =>
    { session with properties := { session.properties with isExtendedRemote := true } }
  gdbReply gdbReplyOk

def gdbStopReasonQuery : Routine Unit := do
  let targetIsRunning := false
  if (← getSession).properties.nonStop && targetIsRunning then gdbReply gdbReplyOk
  else gdbReply (.lit "W00")

def gdbResumeAddr : Routine Unit := gdbReply gdbReplyEmpty
def gdbResumeSignal : Routine Unit := gdbReply gdbReplyEmpty
def gdbDetach : Routine Unit := gdbReply gdbReplyEmpty
def gdbGetRegisters : Routine Unit := gdbReply gdbReplyOk
def gdbSetRegisters : Routine Unit := gdbReply gdbReplyEmpty
def gdbSetThread : Routine Unit := gdbReply gdbReplyOk
def gdbKill : Routine Unit := gdbReply gdbReplyOk
def gdbGetMemory : Routine Unit := gdbReply gdbReplyEmpty
def gdbWriteMemoryHex : Routine Unit := gdbReply gdbReplyEmpty
def gdbReadRegister : Routine Unit := gdbReply gdbReplyEmpty
def gdbWriteRegister : Routine Unit := gdbReply gdbReplyEmpty
def gdbSet : Routine Unit := gdbReply gdbReplyEmpty
def gdbRestart : Routine Unit := gdbReply gdbReplyEmpty
def gdbStep : Routine Unit := gdbReply gdbReplyEmpty
def gdbStepSignal : Routine Unit := gdbReply gdbReplyEmpty
def gdbIsThreadAlive : Routine Unit := gdbReply gdbReplyEmpty
def gdbV : Routine Unit := gdbReply gdbReplyEmpty
def gdbWriteMemory : Routine Unit := gdbReply gdbReplyEmpty

/-- Insert or remove a target breakpoint. The scan reads the output packet, and three replies
are sent one after the other. -/
def gdbBreakpoint : Routine Unit := do
  let session ← getSession
  let _ ← lift (gdbPacketGetBuffer session.outputPacket)
  let _ ← lift (gdbPacketGetLength session.outputPacket)
  gdbReply gdbReplyError01
  gdbReply gdbReplyOk
  gdbReply gdbReplyEmpty

/-- A GDB command connects a command character with a callback, which is never null. -/
structure GdbCommand where
  command : UInt8
  pCallback : Routine Unit

/-- A mapping of GDB commands to handler functions. -/
def gCommandsWith (query : Routine Unit) : List GdbCommand :=
  [⟨'!'.toUInt8, gdbExtendedRemote⟩,
    ⟨'?'.toUInt8, gdbStopReasonQuery⟩,
    ⟨'c'.toUInt8, gdbResumeAddr⟩,
    ⟨'C'.toUInt8, gdbResumeSignal⟩,
    ⟨'D'.toUInt8, gdbDetach⟩,
    ⟨'g'.toUInt8, gdbGetRegisters⟩,
    ⟨'G'.toUInt8, gdbSetRegisters⟩,
    ⟨'H'.toUInt8, gdbSetThread⟩,
    ⟨'k'.toUInt8, gdbKill⟩,
    ⟨'m'.toUInt8, gdbGetMemory⟩,
    ⟨'M'.toUInt8, gdbWriteMemoryHex⟩,
    ⟨'p'.toUInt8, gdbReadRegister⟩,
    ⟨'P'.toUInt8, gdbWriteRegister⟩,
    ⟨'q'.toUInt8, query⟩,
    ⟨'Q'.toUInt8, gdbSet⟩,
    ⟨'R'.toUInt8, gdbRestart⟩,
    ⟨'s'.toUInt8, gdbStep⟩,
    ⟨'S'.toUInt8, gdbStepSignal⟩,
    ⟨'T'.toUInt8, gdbIsThreadAlive⟩,
    ⟨'v'.toUInt8, gdbV⟩,
    ⟨'X'.toUInt8, gdbWriteMemory⟩,
    ⟨'z'.toUInt8, gdbBreakpoint⟩,
    ⟨'Z'.toUInt8, gdbBreakpoint⟩]

def gCommands (build : Build) : List GdbCommand := gCommandsWith (gdbQuery build)

/-- Execute a command that is pending in a GDB session. -/
def gdbExecuteWith (commands : List GdbCommand) : Routine Unit := do
  let inputPacket := (← getSession).inputPacket
  record (.execute inputPacket.stored)
  lift (assertVerbose (inputPacket.state = .complete) "Cannot handle incomplete input packet.")
  lift (assertVerbose (inputPacket.type = .inbound) "Input packet not marked as inbound.")
  let command ← lift (gdbPacketGetCommand inputPacket)
  match commands.find? (·.command = command) with
  | none => gdbReply gdbReplyEmpty
  | some gdbCommand => gdbCommand.pCallback

def gdbExecute (build : Build) : Routine Unit := gdbExecuteWith (gCommands build)

/-- Write an acknowledgement character to the session, and flush it to the transport. -/
def gdbAcknowledge (character : UInt8) : Routine Unit := do
  writeOutput fun packet => gdbPacketWriteAck packet character
  gdbSessionFlush

/-- Handle data from the stub in the GDB session. Returns the length that was consumed. -/
def gdbSessionHandle (build : Build) (input : List UInt8) : Routine ℕ := do
  record (.handle input)
  let session ← getSession
  lift (assertVerbose (session.state = .active) "Session inactive.")
  let (result, packet, consumedLength) ← lift (gdbPacketReadStream session.inputPacket input)
  modifySession fun session => { session with inputPacket := packet }
  match result with
  | .ok =>
    if !session.properties.noAckMode then gdbAcknowledge GdbPacketChar.ack
    gdbExecute build
  | .checksumError =>
    if !session.properties.noAckMode then gdbAcknowledge GdbPacketChar.nack
  | _ => pure ()
  record (.consumed consumedLength)
  return consumedLength

end NetBmp
