import NetBmp.Commands

/-!
# `network.c`

The TCP server takes received data from lwIP, which is given by the results of its calls, and
hands it to the session. What a failed receive leaves behind, and closing and deleting
connections and buffers, is left out.
-/

namespace NetBmp

open Hex Halting

/-- A received buffer, with the data of its fragments. -/
structure Netbuf where
  fragments : List (List UInt8)
  size_le : ∀ fragment ∈ fragments, fragment.length ≤ 65535

def Netbuf.single (data : List UInt8) (h : data.length ≤ 65535 := by decide) : Netbuf :=
  ⟨[data], by simpa using h⟩

/-- `netbuf_data`: the data of the current fragment, or an error. -/
def netbufData (netbuf : Netbuf) : Option (List UInt8) := netbuf.fragments.head?

/-- The loop of `network_serve_gdb`, `totalConsumedSize` bytes consumed. -/
def networkServeGdbLoop (build : Build) (data : List UInt8) (totalConsumedSize : ℕ) :
    Routine ErrT :=
  if _ : totalConsumedSize = data.length then return .ok
  else if _ : totalConsumedSize ≤ data.length then do
    let consumedSize ← gdbSessionHandle build (data.drop totalConsumedSize)
    -- `RETURN_IF_NOT` returns the value it compares with, not the error
    if (← get).networkErr ≠ .ok then return .ok
    if (← gdbSessionGetState) = .aborted then return .abrt
    if _ : consumedSize = 0 then throw "No data consumed."
    else networkServeGdbLoop build data (totalConsumedSize + consumedSize)
  else throw "Data size inconsistent."
termination_by data.length - totalConsumedSize

/-- Serve GDB on a connection. -/
def networkServeGdb (build : Build) (netbuf : Netbuf) : Routine ErrT :=
  match netbufData netbuf with
  | none => return .ok
  | some data => networkServeGdbLoop build data 0

inductive RecvResult
  | received (netbuf : Netbuf)
  | failed (err : ErrT) (h : err ≠ .ok)

/-- Serve the connection until there is an error, with the results of `netconn_recv`. Returns
the error, or nothing while the next result is awaited. -/
def networkServe (build : Build) : List RecvResult → Routine (Option ErrT)
  | [] => return none
  | .failed err _ :: _ => return some err
  | .received netbuf :: results => do
    let err ← networkServeGdb build netbuf
    if err = .ok then networkServe build results else return some err

/-- What becomes of a connection. -/
inductive Connection
  | rejected | waiting | closed (err : ErrT)
  deriving DecidableEq, Repr

def networkTcpServer (build : Build) (results : List RecvResult) : Routine Connection := do
  if !(← gdbSessionLock .tcpIp .networkGdbWriteCb) then return .rejected
  match ← networkServe build results with
  | none => return .waiting
  | some err =>
    gdbSessionRelease
    return .closed err

end NetBmp
