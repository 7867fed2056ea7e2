import NetBmp.PrefixTable
import NetBmp.Reachability

/-!
# Which query a text is dispatched to

`gdb_execute_sub` takes the first subcommand of the table that the text starts with. Among the
names of the queries only `qC` is a prefix of another, `qCRC`, and it stands before it.
-/

namespace NetBmp
namespace Dispatch

open Hex Halting Server PrefixTable

def subcommandName (s : GdbSubcommand) : List UInt8 := s.pSubcommand.chars

/-- Whatever the order of the table, the text is dispatched to its most specific subcommand. -/
def DispatchesMostSpecific (table : List GdbSubcommand) (text : List UInt8) : Prop :=
  ∀ table' : List GdbSubcommand, table'.Perm table →
    ∃ selected, MostSpecific subcommandName table text selected ∧
      ∀ argc argv, gdbExecuteSub text table' argc argv = callbackOf selected argc argv

theorem gdbExecuteSub_firstMatch {text : List UInt8} (h : text.headD 0 ≠ GdbPacketChar.start)
    (table : List GdbSubcommand) (argc : ℕ) (argv : List (List UInt8)) :
    gdbExecuteSub text table argc argv =
      callbackOf (firstMatch subcommandName table text) argc argv := by
  have hmatches : (fun s : GdbSubcommand => s.matches text) =
      fun s => decide (subcommandName s <+: text) := funext (matches_eq text)
  rw [gdbExecuteSub_of_ne h, hmatches]
  rfl

theorem dispatchesMostSpecific_of_unambiguous {table : List GdbSubcommand} {text : List UInt8}
    (hstart : text.headD 0 ≠ GdbPacketChar.start) (h : Unambiguous subcommandName table text) :
    DispatchesMostSpecific table text := by
  intro table' hperm
  refine ⟨firstMatch subcommandName table text, mostSpecific_firstMatch h, fun argc argv => ?_⟩
  rw [gdbExecuteSub_firstMatch hstart, firstMatch_perm h hperm]

theorem map_gQueryCommands (build : Build) : (gQueryCommands build).map subcommandName =
    ["qRcmd,", "qSupported", "qC", "qCRC", "qXfer:memory-map:read::",
      "qXfer:features:read:target.xml:", "qfThreadInfo", "qsThreadInfo", "QStartNoAckMode",
      "qAttached"].map bytes := rfl

/-- Only `qCRC` starts with the name of another query. -/
theorem unambiguous_gQueryCommands (build : Build) {text : List UInt8}
    (h : ¬bytes "qCRC" <+: text) : Unambiguous subcommandName (gQueryCommands build) text := by
  apply unambiguous_of_names
  · rw [map_gQueryCommands]
    decide
  · have honly : ∀ x ∈ (gQueryCommands build).map subcommandName,
        ∀ y ∈ (gQueryCommands build).map subcommandName,
          x <+: y → x = y ∨ y = bytes "qCRC" := by
      rw [map_gQueryCommands]
      decide
    intro x hx y hy hxy hy'
    apply (honly x hx y hy hxy).resolve_right
    rintro rfl
    exact h hy'

theorem gdbReply_inj {reply reply' : CString} (hl : reply.chars.length ≤ 2043)
    (hl' : reply'.chars.length ≤ 2043) (h : gdbReply reply = gdbReply reply') :
    wire reply.chars = wire reply'.chars := by
  let w : World := .locked fun _ => .ok
  have hready : Ready w := ((reachable_locked .release fun _ => .ok).serving rfl).toReady
  obtain ⟨o, -, -, hrun⟩ := run_gdbReply hready reply hl
  obtain ⟨o', -, -, hrun'⟩ := run_gdbReply hready reply' hl'
  rw [h, hrun'] at hrun
  have hworld : (w.send (wire reply'.chars ++ [0])).withOutput o' =
      (w.send (wire reply.chars ++ [0])).withOutput o := by
    injection hrun
  have htrace : [Event.write .networkGdbWriteCb (wire reply'.chars ++ [0]) .ok] =
      [.write .networkGdbWriteCb (wire reply.chars ++ [0]) .ok] := congrArg World.trace hworld
  simpa using htrace.symm

/-- A query that starts with `qCRC` is taken for `qC`. -/
theorem firstMatch_crc (build : Build) {text : List UInt8} (h : bytes "qCRC" <+: text) :
    firstMatch subcommandName (gQueryCommands build) text =
      some ⟨.lit "qC", none, some gdbQueryCurrentThreadId⟩ := by
  have hremote : ¬bytes "qRcmd," <+: text := not_prefix_of_other h (by decide) (by decide)
  have hsupported : ¬bytes "qSupported" <+: text := not_prefix_of_other h (by decide) (by decide)
  have hthread : bytes "qC" <+: text := List.IsPrefix.trans (by decide) h
  rw [gQueryCommands, gQueryCommandsWith, firstMatch_cons_of_not, firstMatch_cons_of_not,
    firstMatch_cons_of_prefix]
  · exact hthread
  · exact hsupported
  · exact hremote

theorem mostSpecific_crc (build : Build) {text : List UInt8} (h : bytes "qCRC" <+: text)
    {selected : Option GdbSubcommand}
    (hselected : MostSpecific subcommandName (gQueryCommands build) text selected) :
    selected = some ⟨.lit "qCRC", none, none⟩ := by
  have hcrc : ⟨.lit "qCRC", none, none⟩ ∈ gQueryCommands build := by
    simp [gQueryCommands, gQueryCommandsWith]
  cases selected with
  | none => exact absurd h (hselected _ hcrc)
  | some a =>
    obtain ⟨ha, hp, hlongest⟩ := hselected
    have hle : (bytes "qCRC").length ≤ (subcommandName a).length := hlongest _ hcrc h
    have hname : subcommandName a = bytes "qCRC" := by
      have honly : ∀ x ∈ (gQueryCommands build).map subcommandName,
          bytes "qCRC" <+: x → x = bytes "qCRC" := by
        rw [map_gQueryCommands]
        decide
      exact honly _ (List.mem_map_of_mem ha) (List.prefix_of_prefix_length_le h hp hle)
    have hnodup : ((gQueryCommands build).map subcommandName).Nodup := by
      rw [map_gQueryCommands]
      decide
    exact congrArg some (List.inj_on_of_nodup_map hnodup ha hcrc hname)

/-- Queries are dispatched to the most specific subcommand unless they start with `qCRC`. -/
theorem dispatchesMostSpecific_iff (build : Build) {text : List UInt8}
    (hq : text.head? = some 'q'.toUInt8) :
    DispatchesMostSpecific (gQueryCommands build) text ↔ ¬bytes "qCRC" <+: text := by
  have hstart : text.headD 0 ≠ GdbPacketChar.start := by
    rw [List.headD_eq_head?_getD, hq]
    decide
  constructor
  · intro h hcrc
    obtain ⟨selected, hselected, hrun⟩ := h (gQueryCommands build) (List.Perm.refl _)
    obtain rfl := mostSpecific_crc build hcrc hselected
    replace hrun := hrun 0 []
    rw [gdbExecuteSub_firstMatch hstart, firstMatch_crc build hcrc] at hrun
    -- `QC1` is sent in place of the empty reply
    have hsame : gdbReply (.lit "QC1") = gdbReply gdbReplyEmpty := hrun
    exact absurd (gdbReply_inj (by decide) (by decide) hsame) (by decide)
  · exact fun h => dispatchesMostSpecific_of_unambiguous hstart (unambiguous_gQueryCommands build h)

theorem supported_dispatched :
    DispatchesMostSpecific (gQueryCommands .release) (bytes "qSupported:multiprocess+") :=
  (dispatchesMostSpecific_iff .release (by decide)).mpr (by decide)

/-- A query for a checksum is answered with a thread. -/
theorem crc_shadowed :
    ¬DispatchesMostSpecific (gQueryCommands .release) (bytes "qCRC:0,4") ∧
      gdbExecuteSub (bytes "qCRC:0,4") (gQueryCommands .release) 0 [] = gdbReply (.lit "QC1") := by
  have hcrc : bytes "qCRC" <+: bytes "qCRC:0,4" := by decide
  have hrun : gdbExecuteSub (bytes "qCRC:0,4") (gQueryCommands .release) 0 [] =
      gdbReply (.lit "QC1") := by
    rw [gdbExecuteSub_firstMatch (by decide), firstMatch_crc .release hcrc]
    rfl
  refine ⟨fun h => ?_, hrun⟩
  obtain ⟨selected, hselected, hselect⟩ := h (gQueryCommands .release) (List.Perm.refl _)
  obtain rfl := mostSpecific_crc .release hcrc hselected
  have hsame : gdbReply (.lit "QC1") = gdbReply gdbReplyEmpty := hrun.symm.trans (hselect 0 [])
  exact absurd (gdbReply_inj (by decide) (by decide) hsame) (by decide)

end Dispatch
end NetBmp
