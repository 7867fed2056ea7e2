import NetBmp.Accessors
import NetBmp.Arguments

/-!
# How a monitor command reaches its subcommand

The operand of an accepted monitor command is decoded and split in `gdb_query_remote`. What
happens up to the call of `gdb_execute_sub` is observed by putting another function in its place.
-/

namespace NetBmp
namespace MonitorDecoding

open Hex Halting Server Answers MonitorErrors Arguments Accessors

/-- `gdb_execute`, with a function in the place of the `gdb_execute_sub` that `gdb_query_remote`
calls. -/
def gdbExecuteVia (executeSub : ExecuteSub) (build : Build) : Routine Unit :=
  gdbExecuteWith (gCommandsWith (gdbQueryWith
    (gQueryCommandsWith (gdbQueryRemoteWith executeSub build) build)))

/-- `gdb_execute` reaches the call of `gdb_execute_sub` in `gdb_query_remote` with nothing done but
to record the packet, and the call gets these arguments. -/
structure Dispatches (build : Build) (w : World) (command : List UInt8) (argc : ℕ)
    (argv : List (List UInt8)) : Prop where
  code : gdbExecuteVia gdbExecuteSub build = gdbExecute build
  call : ∀ executeSub : ExecuteSub, (gdbExecuteVia executeSub build).run w =
    (executeSub command (gQueryRemoteSubcommands build) argc argv).run
      { w with trace := w.trace ++ [.execute w.gdbSession.inputPacket.stored] }

theorem getArgs_of_encodes {hs c : List UInt8} (h : Encodes hs c) (hpos : 1 ≤ c.length)
    (hlen : c.length ≤ 255) (hnul : 0 ∉ c) (hargs : (arguments c).length ≤ gdbMaxArgCount)
    (rest : List UInt8) {hexLength : ℕ} (hhalf : hexLength / 2 = c.length) :
    ∃ message, strFromHex (hs ++ rest) hexLength (List.replicate gdbQueryMessageMaxLength 0) =
        .ok message ∧ (NetBmp.gdbGetArgs message).2 = arguments c := by
  obtain ⟨hlength, haccepted, hdecoded⟩ := h.decodes
  have hroom : c.length + 1 ≤ (List.replicate gdbQueryMessageMaxLength (0 : UInt8)).length := by
    rw [List.length_replicate]
    exact Nat.add_le_add_right hlen 1
  refine ⟨_, strFromHex_decodes rest _ hlength hhalf (by omega) haccepted hroom, ?_⟩
  rw [gdbGetArgs_list, hdecoded, cString_append_zero, cString_of_no_nul hnul]
  exact List.take_of_length_le hargs

theorem run_gdbQueryRemoteWith (executeSub : ExecuteSub) (build : Build) {w : World}
    (hq : Received w.gdbSession.inputPacket) {hs c : List UInt8} {h₁ h₂ : UInt8}
    (hstored : w.gdbSession.inputPacket.stored =
      GdbPacketChar.start :: (bytes "qRcmd," ++ hs ++ [GdbPacketChar.stop, h₁, h₂, 0]))
    (h : Encodes hs c) (hpos : 1 ≤ c.length) (hlen : c.length ≤ 255) (hnul : 0 ∉ c)
    (hargs : (arguments c).length ≤ gdbMaxArgCount) {command : List UInt8}
    (hcommand : (arguments c).head? = some command) :
    (gdbQueryRemoteWith executeSub build 0 []).run w =
      (executeSub command (gQueryRemoteSubcommands build) (arguments c).length (arguments c)).run
        w := by
  obtain ⟨hp, hdrop, hlength⟩ := stored_remote hstored
  have hcount : w.gdbSession.inputPacket.stored.length - 10 = hs.length + 1 := by
    rw [hlength]
    rfl
  have hrun : (gdbQueryRemoteWith executeSub build 0 []).run w = _ := run_remote_decode hq hp _
  have hhalf : (hs.length + 1) / 2 = c.length := by
    have heven := h.decodes.1
    omega
  obtain ⟨message, hmessage, hsplit⟩ := getArgs_of_encodes h hpos hlen hnul hargs
    [GdbPacketChar.stop, h₁, h₂, 0] hhalf
  rw [hdrop, hcount, hmessage, lift_ok, pure_bind, hsplit] at hrun
  rw [hrun]
  cases htokens : arguments c with
  | nil =>
    rw [htokens] at hcommand
    cases hcommand
  | cons token args =>
    rw [htokens] at hcommand
    cases hcommand
    rfl

theorem run_gdbExecuteVia (executeSub : ExecuteSub) (build : Build) {w : World}
    (hq : Received w.gdbSession.inputPacket)
    (hp : bytes "qRcmd," <+: w.gdbSession.inputPacket.stored.drop 1) :
    (gdbExecuteVia executeSub build).run w = (gdbQueryRemoteWith executeSub build 0 []).run
      { w with trace := w.trace ++ [.execute w.gdbSession.inputPacket.stored] } := by
  let queries := gQueryCommandsWith (gdbQueryRemoteWith executeSub build) build
  let w₁ : World := { w with trace := w.trace ++ [.execute w.gdbSession.inputPacket.stored] }
  have hcommand : command w₁.gdbSession.inputPacket.stored = 'q'.toUInt8 := by
    obtain ⟨rest, hrest⟩ := hp
    rw [command, ← hrest]
    rfl
  have hquery : callbackFor (gCommandsWith (gdbQueryWith queries))
      (command w.gdbSession.inputPacket.stored) = gdbQueryWith queries := by
    rw [show command w.gdbSession.inputPacket.stored = 'q'.toUInt8 from hcommand]
    rfl
  rw [gdbExecuteVia, run_gdbExecuteWith _ hq, hquery,
    run_gdbQueryWith (w := w₁) queries hq hcommand]
  simp only [queries, gQueryCommandsWith]
  rw [List.find?_cons_of_pos]
  · rfl
  · exact decide_eq_true hp

end MonitorDecoding
end NetBmp
