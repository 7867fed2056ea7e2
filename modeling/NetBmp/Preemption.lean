import NetBmp.Interleaving
import NetBmp.Network
import NetBmp.WireFormat

/-!
# Preemption

The threads that use the session may interrupt each other after any access to it. The semaphore is
taken before the session is prepared and given back after it has been cleared, so that all of them
together do to the session what one thread does that uses it for one after the other.
-/

namespace NetBmp
namespace Preemption

open Hex Halting WireFormat Interleaving

/-- The semaphore of the session, with `chBSemWaitTimeout`, which does not wait, and
`chBSemSignal`. -/
def semaphore : Semaphore String World where
  taken w := w.gdbSession.lock
  wait := do
    let free := !(← getSession).lock
    if free then modifySession fun session => { session with lock := true }
    return free
  signal := modifySession fun session => { session with lock := false }
  wait_taken w h := by
    simp [getSession, h]
  wait_free w h := by
    refine ⟨{ w with gdbSession := { w.gdbSession with lock := true } }, ?_, rfl⟩
    simp [getSession, modifySession, h]
  signal_free w := ⟨_, rfl, rfl⟩

/-- Accesses, one after the other. -/
def accesses : List (GdbSession → GdbSession) → Code String World Unit
  | [] => .done ()
  | f :: fs => .step (modifySession f) fun _ => accesses fs

/-- What `gdb_session_lock` does once it has taken the semaphore. -/
def prepare (transport : GdbSessionTransport) (writeCb : GdbWriteCb) : Code String World Unit :=
  accesses
    [fun session => { session with inputPacket := gdbPacketInit session.inputPacket .inbound },
      fun session => { session with outputPacket := gdbPacketInit session.outputPacket .outbound },
      fun session => { session with state := .active },
      fun session => { session with transport := transport },
      fun session => { session with pWriteCb := some writeCb }]

/-- What `gdb_session_release` does before it gives the semaphore back. -/
def clear : Code String World Unit :=
  accesses
    [fun session =>
        { session with properties := { session.properties with isExtendedRemote := false } },
      fun session => { session with properties := { session.properties with nonStop := false } },
      fun session => { session with properties := { session.properties with noAckMode := false } },
      fun session => { session with transport := .none },
      fun session => { session with state := .idle }]

theorem gdbSessionLock_eq (transport : GdbSessionTransport) (writeCb : GdbWriteCb) :
    gdbSessionLock transport writeCb = (do
      let granted ← semaphore.wait
      if granted then (prepare transport writeCb).run
      return granted) := by
  ext w
  cases h : w.gdbSession.lock with
  | false =>
    simp [gdbSessionLock, semaphore, getSession, modifySession, prepare, accesses, Code.run, h]
  | true => simp [gdbSessionLock, semaphore, getSession, h]

theorem gdbSessionRelease_eq :
    gdbSessionRelease = (do
      clear.run
      semaphore.signal) := rfl

/-- A use of the session: what is passed to `gdb_session_lock`, and what is done while the session
is held, which leaves the semaphore alone. -/
structure Use where
  transport : GdbSessionTransport
  writeCb : GdbWriteCb
  body : Code String World Unit
  keeps : body.Keeps semaphore.taken

def Use.code (use : Use) : Code String World Unit :=
  (prepare use.transport use.writeCb).bind fun _ => use.body.bind fun _ => clear

/-- The uses of a thread that is not interrupted, with the calls of `gdb_session_lock` and
`gdb_session_release`. -/
def serve : List Use → Routine Unit
  | [] => return ()
  | use :: uses => do
    if ← gdbSessionLock use.transport use.writeCb then
      use.body.run
      gdbSessionRelease
    serve uses

/-- A thread that makes uses of the session is made of the statements of these calls. -/
theorem run_attempts (uses : List Use) : (semaphore.attempts Use.code uses).run = serve uses := by
  induction uses with
  | nil => rfl
  | cons use uses ih =>
    rw [serve, gdbSessionLock_eq, gdbSessionRelease_eq, bind_assoc]
    refine congrArg _ (funext fun granted => ?_)
    cases granted with
    | false => simp [ih]
    | true => simp [Use.code, Code.run_bind, Code.run, ih, bind_assoc]

theorem keeps_accesses {fs : List (GdbSession → GdbSession)}
    (h : ∀ f ∈ fs, ∀ session, (f session).lock = session.lock) :
    (accesses fs).Keeps semaphore.taken := by
  induction fs with
  | nil => trivial
  | cons f fs ih =>
    refine ⟨Unchanged.modify fun w => h f (List.mem_cons_self ..) w.gdbSession, fun _ => ih ?_⟩
    exact fun g hg => h g (List.mem_cons_of_mem f hg)

theorem Use.keeps_code (use : Use) : use.code.Keeps semaphore.taken := by
  have hprepare : (prepare use.transport use.writeCb).Keeps semaphore.taken :=
    keeps_accesses (by simp)
  have hclear : clear.Keeps semaphore.taken := keeps_accesses (by simp)
  exact hprepare.bind fun _ => use.keeps.bind fun _ => hclear

/-- No code of the server touches the semaphore. -/
abbrev KeepsLock {α : Type} (x : Routine α) : Prop := Unchanged semaphore.taken x

theorem keepsLock_getSession : KeepsLock getSession := Unchanged.get.bind fun _ => .pure _

theorem keepsLock_record (event : Event) : KeepsLock (record event) := .modify fun _ => rfl

theorem keepsLock_modifySession {f : GdbSession → GdbSession}
    (h : ∀ session, (f session).lock = session.lock) : KeepsLock (modifySession f) :=
  .modify fun w => h w.gdbSession

theorem keepsLock_call (writeCb : GdbWriteCb) (data : List UInt8) :
    KeepsLock (writeCb.call data) := by
  have htransmit : KeepsLock (transmit writeCb data) := by
    refine Unchanged.get.bind fun w => Unchanged.bind (.modify fun _ => rfl) fun _ => ?_
    exact (keepsLock_record _).bind fun _ => .pure _
  cases writeCb with
  | networkGdbWriteCb =>
    exact htransmit.bind fun err => Unchanged.bind (.modify fun _ => rfl) fun _ => .pure _
  | other index => exact htransmit.bind fun _ => .pure _

theorem keepsLock_gdbSessionFlush : KeepsLock gdbSessionFlush := by
  refine keepsLock_getSession.bind fun session => ?_
  cases session.pWriteCb with
  | none => exact .throw _
  | some writeCb =>
    refine (Unchanged.lift _).bind fun buffer => (Unchanged.lift _).bind fun length =>
      (keepsLock_call writeCb _).bind fun success => (Unchanged.lift _).bind fun packet =>
        Unchanged.bind (keepsLock_modifySession fun _ => rfl) fun _ => .ite (.pure _) ?_
    cases session.transport with
    | tcpIp => exact keepsLock_modifySession fun _ => rfl
    | none => exact .pure _
    | usbCdc => exact .pure _

theorem keepsLock_writeOutput
    (write : GdbPacket → Except String (GdbPacketResult × GdbPacket)) :
    KeepsLock (writeOutput write) :=
  keepsLock_getSession.bind fun _ => (Unchanged.lift _).bind fun _ =>
    keepsLock_modifySession fun _ => rfl

theorem keepsLock_gdbReply (reply : CString) : KeepsLock (gdbReply reply) :=
  (keepsLock_writeOutput _).bind fun _ => keepsLock_gdbSessionFlush

theorem keepsLock_gdbAcknowledge (character : UInt8) : KeepsLock (gdbAcknowledge character) :=
  (keepsLock_writeOutput _).bind fun _ => keepsLock_gdbSessionFlush

theorem keepsLock_gdbExecuteSub {subcommands : List GdbSubcommand}
    (h : ∀ subcommand ∈ subcommands, ∀ callback ∈ subcommand.pCallback, ∀ argc argv,
      KeepsLock (callback argc argv)) (text : List UInt8) (argc : ℕ) (argv : List (List UInt8)) :
    KeepsLock (gdbExecuteSub text subcommands argc argv) := by
  refine (Unchanged.lift _).bind fun _ => ?_
  cases hfind : subcommands.find? (·.matches text) with
  | none => exact keepsLock_gdbReply _
  | some subcommand =>
    have hmem := List.mem_of_find?_eq_some hfind
    cases hcallback : subcommand.pCallback with
    | none => simpa only [hcallback] using keepsLock_gdbReply gdbReplyEmpty
    | some callback => simpa only [hcallback] using h subcommand hmem callback hcallback argc argv

theorem keepsLock_gdbQueryRemoteHelp (argc : ℕ) (argv : List (List UInt8)) :
    KeepsLock (gdbQueryRemoteHelp argc argv) := by
  refine (keepsLock_writeOutput _).bind fun _ => (keepsLock_writeOutput _).bind fun _ =>
    (Unchanged.forM fun text _ => ?_).bind fun _ => (keepsLock_writeOutput _).bind fun _ =>
      keepsLock_gdbSessionFlush
  exact (keepsLock_writeOutput _).bind fun _ => (keepsLock_writeOutput _).bind fun _ =>
    (keepsLock_writeOutput _).bind fun _ => keepsLock_writeOutput _

theorem keepsLock_gdbQueryRemoteVersion (build : Build) (argc : ℕ) (argv : List (List UInt8)) :
    KeepsLock (gdbQueryRemoteVersion build argc argv) :=
  (keepsLock_writeOutput _).bind fun _ => (keepsLock_writeOutput _).bind fun _ =>
    (keepsLock_writeOutput _).bind fun _ => (keepsLock_writeOutput _).bind fun _ =>
      (keepsLock_writeOutput _).bind fun _ => (keepsLock_writeOutput _).bind fun _ =>
        (keepsLock_writeOutput _).bind fun _ => keepsLock_gdbSessionFlush

theorem keepsLock_gdbQueryRemote (build : Build) (argc : ℕ) (argv : List (List UInt8)) :
    KeepsLock (gdbQueryRemote build argc argv) := by
  refine keepsLock_getSession.bind fun session => (Unchanged.lift _).bind fun hex =>
    (Unchanged.lift _).bind fun length => (Unchanged.lift _).bind fun message => ?_
  cases (gdbGetArgs message).2 with
  | nil => exact .pure _
  | cons command args =>
    refine keepsLock_gdbExecuteSub ?_ _ _ _
    simp [gQueryRemoteSubcommands, gQueryRemoteTexts, keepsLock_gdbQueryRemoteHelp,
      keepsLock_gdbQueryRemoteVersion]

theorem keepsLock_gdbQuery (build : Build) : KeepsLock (gdbQuery build) := by
  have hfirst (argc : ℕ) (argv : List (List UInt8)) :
      KeepsLock (gdbQueryFirstThreadInfo argc argv) :=
    keepsLock_getSession.bind fun _ => .ite (keepsLock_gdbReply _) (keepsLock_gdbReply _)
  have hstart (argc : ℕ) (argv : List (List UInt8)) :
      KeepsLock (gdbQueryStartNoAckMode argc argv) :=
    Unchanged.bind (keepsLock_modifySession fun _ => rfl) fun _ => keepsLock_gdbReply _
  refine keepsLock_getSession.bind fun session => (Unchanged.lift _).bind fun payload =>
    keepsLock_gdbExecuteSub ?_ payload 0 []
  simp [gQueryCommands, gQueryCommandsWith, keepsLock_gdbQueryRemote, gdbQuerySupported,
    gdbQueryCurrentThreadId, gdbQuerySubsequentThreadInfo, keepsLock_gdbReply, hfirst, hstart]

theorem keepsLock_gdbExecute (build : Build) : KeepsLock (gdbExecute build) := by
  have hextended : KeepsLock gdbExtendedRemote :=
    Unchanged.bind (keepsLock_modifySession fun _ => rfl) fun _ => keepsLock_gdbReply _
  have hreason : KeepsLock gdbStopReasonQuery :=
    keepsLock_getSession.bind fun _ => .ite (keepsLock_gdbReply _) (keepsLock_gdbReply _)
  have hbreakpoint : KeepsLock gdbBreakpoint :=
    keepsLock_getSession.bind fun _ => (Unchanged.lift _).bind fun _ =>
      (Unchanged.lift _).bind fun _ => (keepsLock_gdbReply _).bind fun _ =>
        (keepsLock_gdbReply _).bind fun _ => keepsLock_gdbReply _
  have hcommands : ∀ gdbCommand ∈ gCommands build, KeepsLock gdbCommand.pCallback := by
    simp [gCommands, gCommandsWith, keepsLock_gdbQuery, keepsLock_gdbReply, hextended, hreason,
      hbreakpoint, gdbResumeAddr, gdbResumeSignal, gdbDetach, gdbGetRegisters, gdbSetRegisters,
      gdbSetThread, gdbKill, gdbGetMemory, gdbWriteMemoryHex, gdbReadRegister, gdbWriteRegister,
      gdbSet, gdbRestart, gdbStep, gdbStepSignal, gdbIsThreadAlive, gdbV, gdbWriteMemory]
  refine keepsLock_getSession.bind fun session => (keepsLock_record _).bind fun _ =>
    (Unchanged.lift _).bind fun _ => (Unchanged.lift _).bind fun _ =>
      (Unchanged.lift _).bind fun c => ?_
  cases hfind : (gCommands build).find? (·.command = c) with
  | none => exact keepsLock_gdbReply _
  | some gdbCommand => exact hcommands gdbCommand (List.mem_of_find?_eq_some hfind)

theorem keepsLock_gdbSessionHandle (build : Build) (input : List UInt8) :
    KeepsLock (gdbSessionHandle build input) := by
  have hend (length : ℕ) : KeepsLock (do
      record (.consumed length)
      return length) := (keepsLock_record _).bind fun _ => .pure _
  refine (keepsLock_record _).bind fun _ => keepsLock_getSession.bind fun session =>
    (Unchanged.lift _).bind fun _ => (Unchanged.lift _).bind fun read => ?_
  refine Unchanged.bind (keepsLock_modifySession fun _ => rfl) fun _ => ?_
  obtain ⟨result, packet, consumedLength⟩ := read
  cases result with
  | ok =>
    have hexecute := (keepsLock_gdbExecute build).bind fun _ => hend consumedLength
    exact .ite ((keepsLock_gdbAcknowledge _).bind fun _ => hexecute) hexecute
  | checksumError =>
    have hlast := hend consumedLength
    exact .ite ((keepsLock_gdbAcknowledge _).bind fun _ => hlast) hlast
  | _ => exact hend consumedLength

/-- The loop of `network_serve_gdb`, which may be interrupted around each of its calls. -/
def networkServeGdbLoopCode (build : Build) (data : List UInt8) (totalConsumedSize : ℕ) :
    Code String World ErrT :=
  if _ : totalConsumedSize = data.length then .done .ok
  else if _ : totalConsumedSize ≤ data.length then
    .step (gdbSessionHandle build (data.drop totalConsumedSize)) fun consumedSize =>
    .step get fun w =>
    if w.networkErr ≠ .ok then .done .ok
    else .step gdbSessionGetState fun state =>
    if state = .aborted then .done .abrt
    else if _ : consumedSize = 0 then .step (throw "No data consumed.") .done
    else networkServeGdbLoopCode build data (totalConsumedSize + consumedSize)
  else .step (throw "Data size inconsistent.") .done
termination_by data.length - totalConsumedSize

def networkServeGdbCode (build : Build) (netbuf : Netbuf) : Code String World ErrT :=
  match netbufData netbuf with
  | none => .done .ok
  | some data => networkServeGdbLoopCode build data 0

/-- `network_serve` for buffers that are received before an error. -/
def networkServeCode (build : Build) (err : ErrT) : List Netbuf → Code String World ErrT
  | [] => .done err
  | netbuf :: netbufs => (networkServeGdbCode build netbuf).bind fun err' =>
    if err' = .ok then networkServeCode build err netbufs else .done err'

theorem run_networkServeGdbLoopCode (build : Build) (data : List UInt8) (n : ℕ) :
    (networkServeGdbLoopCode build data n).run = networkServeGdbLoop build data n := by
  induction h : data.length - n using Nat.strong_induction_on generalizing n with
  | _ rest ih =>
    rw [networkServeGdbLoopCode, networkServeGdbLoop]
    split_ifs with hdone hle
    · rfl
    · simp only [Code.run]
      refine congrArg _ (funext fun consumedSize => congrArg _ (funext fun w => ?_))
      by_cases hlast : w.networkErr ≠ .ok
      · rw [if_pos hlast, if_pos hlast]
        rfl
      · rw [if_neg hlast, if_neg hlast]
        refine congrArg _ (funext fun state => ?_)
        beta_reduce
        by_cases haborted : state = .aborted
        · rw [if_pos haborted, if_pos haborted]
          rfl
        · rw [if_neg haborted, if_neg haborted]
          split_ifs with hzero
          · rfl
          · exact ih _ (by omega) _ rfl
    · rfl

theorem run_networkServeCode (build : Build) {err : ErrT} (herr : err ≠ .ok)
    (netbufs : List Netbuf) :
    networkServe build (netbufs.map .received ++ [.failed err herr]) =
      some <$> (networkServeCode build err netbufs).run := by
  induction netbufs with
  | nil => rfl
  | cons netbuf netbufs ih =>
    have hserve : (networkServeGdbCode build netbuf).run = networkServeGdb build netbuf := by
      unfold networkServeGdbCode networkServeGdb
      cases netbufData netbuf with
      | none => rfl
      | some data => exact run_networkServeGdbLoopCode build data 0
    rw [List.map_cons, List.cons_append, networkServe, networkServeCode, Code.run_bind, hserve,
      map_bind]
    refine congrArg _ (funext fun err' => ?_)
    split_ifs
    · exact ih
    · rfl

theorem keeps_networkServeGdbLoopCode (build : Build) (data : List UInt8) (n : ℕ) :
    (networkServeGdbLoopCode build data n).Keeps semaphore.taken := by
  induction h : data.length - n using Nat.strong_induction_on generalizing n with
  | _ rest ih =>
    rw [networkServeGdbLoopCode]
    split_ifs with hdone hle
    · trivial
    · have hstate : KeepsLock gdbSessionGetState := keepsLock_getSession.bind fun _ => .pure _
      refine ⟨keepsLock_gdbSessionHandle build _, fun consumedSize => ⟨.get, fun w =>
        .ite trivial ⟨hstate, fun state => .ite trivial ?_⟩⟩⟩
      split_ifs with hzero
      · exact ⟨.throw _, fun _ => trivial⟩
      · exact ih _ (by omega) _ rfl
    · exact ⟨.throw _, fun _ => trivial⟩

theorem keeps_networkServeCode (build : Build) (err : ErrT) (netbufs : List Netbuf) :
    (networkServeCode build err netbufs).Keeps semaphore.taken := by
  induction netbufs with
  | nil => trivial
  | cons netbuf netbufs ih =>
    have hserve : (networkServeGdbCode build netbuf).Keeps semaphore.taken := by
      unfold networkServeGdbCode
      cases netbufData netbuf with
      | none => trivial
      | some data => exact keeps_networkServeGdbLoopCode build data 0
    exact hserve.bind fun err' => .ite ih trivial

def Use.connection (build : Build) (err : ErrT) (netbufs : List Netbuf) : Use where
  transport := .tcpIp
  writeCb := .networkGdbWriteCb
  body := (networkServeCode build err netbufs).bind fun _ => .done ()
  keeps := (keeps_networkServeCode build err netbufs).bind fun _ => trivial

theorem serve_connection (build : Build) {err : ErrT} (herr : err ≠ .ok) (netbufs : List Netbuf)
    (uses : List Use) :
    serve (.connection build err netbufs :: uses) = (do
      let _ ← networkTcpServer build (netbufs.map .received ++ [.failed err herr])
      serve uses) := by
  rw [serve, networkTcpServer, run_networkServeCode, bind_assoc]
  refine congrArg _ (funext fun granted => ?_)
  cases granted with
  | false => simp
  | true => simp [Use.connection, Code.run_bind, Code.run]

/-- The uses of all threads, of which each makes its own in this order, come to what one thread does
that is not interrupted and makes some of them: as long as one of them goes on, what that thread has
done up to some access; when none does, or when an assertion trips, what it has done in the end. -/
def SameAsSerial {κ : Type} [DecidableEq κ] (uses : κ → List Use) (w : World) :
    Except (String × World) ((κ → Code String World Unit) × World) → Prop
  | .ok (_, w') => ∃ granted, Ordered uses granted ∧
      (∃ n c, (semaphore.attempts Use.code (granted.map Prod.snd)).first n w = .ok (c, w')) ∧
      (w'.gdbSession.lock = false → (serve (granted.map Prod.snd)).run w = .ok () w')
  | .error (e, w') => ∃ granted, Ordered uses granted ∧
      (serve (granted.map Prod.snd)).run w = .error e w'

/-- However the threads interrupt each other, from start-up on they do to the session what a single
thread does that makes the granted uses one after the other. -/
theorem uses_serialize {κ : Type} [DecidableEq κ] (uses : κ → List Use) (schedule : List κ)
    (writeResults : ℕ → ErrT) :
    SameAsSerial uses (initialized writeResults)
      (interleave schedule (fun k => semaphore.attempts Use.code (uses k))
        (initialized writeResults)) := by
  have hserial : Serializes semaphore Use.code none uses (initialized writeResults)
      (interleave schedule (fun k => semaphore.attempts Use.code (uses k))
        (initialized writeResults)) :=
    serializes_interleave Use.keeps_code schedule (by simp) uses rfl
  cases hrun : interleave schedule (fun k => semaphore.attempts Use.code (uses k))
      (initialized writeResults) with
  | error halt =>
    rw [hrun] at hserial
    obtain ⟨granted, hordered, hlast⟩ := hserial
    exact ⟨granted, hordered, run_attempts _ ▸ hlast⟩
  | ok reached =>
    rw [hrun] at hserial
    obtain ⟨granted, hordered, hfirst, hlast⟩ := hserial
    exact ⟨granted, hordered, hfirst, fun hfree => run_attempts _ ▸ hlast hfree⟩

end Preemption
end NetBmp
