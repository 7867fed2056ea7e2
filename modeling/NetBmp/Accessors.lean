import NetBmp.Frame
import NetBmp.Reachability

/-!
# The accessors of an accepted packet

Whatever the reader accepts is long enough for the accessors. The payload length that they
report counts the NUL behind the checksum, which is no overhead to `gdb_packet.h`.
-/

namespace NetBmp
namespace Accessors

open Hex Halting Server

/-- What the accessors rely on: the command and the payload are read below the length, and the
subtraction in `gdb_packet_get_payload_length` does not wrap. -/
structure AccessorsSafe (q : GdbPacket) : Prop where
  length_ge : 4 ≤ q.length
  length_le : q.length ≤ 2048
  command : ∃ c, gdbPacketGetCommand q = .ok c ∧ q.stored[gdbPacketPrefixLength]? = some c
  payload : ∃ text, gdbPacketGetBufferPayload q = .ok text ∧ gdbPacketPrefixLength < q.length
  payloadLength : ∃ n, gdbPacketGetPayloadLength q = .ok n ∧ n + gdbPacketOverheadLength = q.length

/-- `gdb_execute_sub` selects the entry for monitor commands. -/
def SelectsRemote (build : Build) (q : GdbPacket) : Prop :=
  ∃ text entry, gdbPacketGetBufferPayload q = .ok text ∧
    (gQueryCommands build).find? (·.matches text) = some entry ∧
    entry.pSubcommand = gdbQueryRemotePrefix

/-- What `gdb_query_remote` relies on: its operand starts below the length, and the length that
it passes on is positive and has not wrapped. -/
structure OperandSafe (q : GdbPacket) : Prop where
  length_ge : 11 ≤ q.length
  offset : ∃ hex, gdbPacketGetBufferPayloadOffset q gdbQueryRemotePrefix.chars.length = .ok hex ∧
    gdbQueryRemotePrefix.chars.length + gdbPacketPrefixLength < q.length
  hexLength : ∃ n, gdbPacketGetPayloadLength q = .ok n ∧
    gdbQueryRemotePrefix.chars.length ≤ n ∧
    (n + 2 ^ 32 - gdbQueryRemotePrefix.chars.length) % 2 ^ 32 =
      n - gdbQueryRemotePrefix.chars.length ∧
    0 < n - gdbQueryRemotePrefix.chars.length

theorem received_of_accepted {p q : GdbPacket} {input : List UInt8} {k : ℕ}
    (h : gdbPacketReadStream p input = .ok (.ok, q, k)) : Received q := by
  obtain ⟨-, hend, -, hbuilt⟩ := readStream_accepted h
  exact hbuilt.received hend

theorem accessorsSafe_of_received {q : GdbPacket} (h : Received q) : AccessorsSafe q := by
  have hlen := h.four_le_length
  have hone : gdbPacketPrefixLength < q.length := lt_of_lt_of_le (by decide) hlen
  have hcommand : q.stored[gdbPacketPrefixLength]? = some (command q.stored) := by
    rw [← q.length_stored] at hone
    rw [command, show (1 : ℕ) = gdbPacketPrefixLength from rfl, List.drop_eq_getElem_cons hone]
    exact List.getElem?_eq_getElem hone
  exact ⟨hlen, q.length_le, ⟨_, h.getCommand, hcommand⟩, ⟨_, h.getBufferPayload, hone⟩,
    _, getPayloadLength_of_le (Or.inl h.state) hlen, Nat.sub_add_cancel hlen⟩

theorem selectsRemote_iff (build : Build) {q : GdbPacket} (h : Received q) :
    SelectsRemote build q ↔ bytes "qRcmd," <+: q.stored.drop 1 := by
  have hmatches (s : GdbSubcommand) : s.matches (q.stored.drop 1 ++ q.buffer.toList.drop q.length) =
      decide (s.pSubcommand.chars <+: q.stored.drop 1) := by
    rw [matches_eq, decide_eq_decide]
    exact h.prefix_iff s.pSubcommand.no_nul
  constructor
  · rintro ⟨text, entry, htext, hfind, hname⟩
    rw [h.getBufferPayload] at htext
    cases htext
    have hentry := List.find?_some hfind
    rw [hmatches, hname] at hentry
    exact of_decide_eq_true hentry
  · intro hp
    refine ⟨_, ⟨gdbQueryRemotePrefix, none, some (gdbQueryRemote build)⟩, h.getBufferPayload, ?_, rfl⟩
    rw [gQueryCommands, gQueryCommandsWith, List.find?_cons_of_pos]
    rw [hmatches]
    exact decide_eq_true hp

theorem operandSafe_of_prefix {q : GdbPacket} (h : Received q)
    (hp : bytes "qRcmd," <+: q.stored.drop 1) : OperandSafe q := by
  have hlen : 11 ≤ q.length := h.length_of_prefix (by decide) (by decide) (by decide) hp
  have hmax : q.length ≤ 2048 := q.length_le
  have hname : gdbQueryRemotePrefix.chars.length = 6 := by decide
  have hprefix : gdbPacketPrefixLength = 1 := rfl
  have hoverhead : gdbPacketOverheadLength = 4 := rfl
  refine ⟨hlen, ⟨_, getBufferOffset_of_lt (Or.inl h.state) ?_, ?_⟩, _,
    getPayloadLength_of_le (Or.inl h.state) h.four_le_length, ?_, ?_, ?_⟩
  all_goals
    rw [hname]
    omega

/-- Whatever the reader accepts is safe for the accessors, and for a monitor command also for
the operand. -/
theorem accessors_safe {p q : GdbPacket} {input : List UInt8} {k : ℕ}
    (h : gdbPacketReadStream p input = .ok (.ok, q, k)) :
    AccessorsSafe q ∧ ∀ build, SelectsRemote build q → OperandSafe q := by
  have hq := received_of_accepted h
  refine ⟨accessorsSafe_of_received hq, fun build hselects => ?_⟩
  exact operandSafe_of_prefix hq ((selectsRemote_iff build hq).mp hselects)

theorem accessors_safe_remote :
    ∃ q k, gdbPacketReadStream .zero (Frame.carrying (bytes "qRcmd,")).bytes = .ok (.ok, q, k) ∧
      AccessorsSafe q ∧ OperandSafe q := by
  let f : Frame := .carrying (bytes "qRcmd,")
  obtain ⟨q, hread, hbuilt⟩ :=
    Frame.readStream_alone .zero (f := f) (Frame.carrying_correct ..) (by decide)
  have hprefix : bytes "qRcmd," <+: q.stored.drop 1 := by
    rw [hbuilt.stored, f.storedBytes_bytes (by decide)]
    decide
  obtain ⟨haccessors, hoperand⟩ := accessors_safe hread
  exact ⟨q, _, hread, haccessors, hoperand .release
    ((selectsRemote_iff .release (received_of_accepted hread)).mpr hprefix)⟩

/-- The bytes of an accepted frame are stored with a NUL behind them. The frame is what has been
consumed, but for Ctrl-C. -/
theorem stored_of_frame {p q : GdbPacket} {input payload : List UInt8} {k : ℕ} {h₁ h₂ : UInt8}
    (h : gdbPacketReadStream p input = .ok (.ok, q, k))
    (hframe : kept (input.take k) =
      GdbPacketChar.start :: (payload ++ [GdbPacketChar.stop, h₁, h₂]))
    (hlen : payload.length ≤ 2043) :
    q.stored = GdbPacketChar.start :: (payload ++ [GdbPacketChar.stop, h₁, h₂, 0]) := by
  obtain ⟨-, -, -, hbuilt⟩ := readStream_accepted h
  have hmax : gdbPacketMaxBufferLength = 2048 := rfl
  rw [hbuilt.stored, storedBytes, hframe, List.take_of_length_le]
  · simp
  · simp only [List.length_append, List.length_cons, List.length_nil]
    omega

/-- The payload length of a packet is that of its payload. -/
def PayloadLengthExact (q : GdbPacket) (payload : List UInt8) : Prop :=
  gdbPacketGetPayloadLength q = .ok payload.length

theorem payloadLength_of_stored {q : GdbPacket} {payload : List UInt8} (hs : q.state = .complete)
    (hlen : q.stored.length = payload.length + 5) :
    gdbPacketGetPayloadLength q = .ok (payload.length + 1) ∧ ¬PayloadLengthExact q payload := by
  rw [q.length_stored] at hlen
  have hoverhead : gdbPacketOverheadLength = 4 := rfl
  have hget : gdbPacketGetPayloadLength q = .ok (payload.length + 1) := by
    rw [getPayloadLength_of_le (Or.inl hs) (by omega), hlen, hoverhead]
    rfl
  refine ⟨hget, fun hexact => ?_⟩
  have hsame := Except.ok.inj (hget.symm.trans hexact)
  omega

/-- The payload length is never that of the payload, whether the packet was written or read. -/
theorem payloadLength_never_exact (p : GdbPacket) (payload : CString)
    (hlen : payload.chars.length ≤ 2043) :
    (p.state ≠ .complete → ∃ q, gdbPacketWrite p payload = .ok (.ok, q) ∧
      gdbPacketGetPayloadLength q = .ok (payload.chars.length + 1) ∧
      ¬PayloadLengthExact q payload.chars) ∧
    ∀ (input : List UInt8) (q : GdbPacket) (k : ℕ) (h₁ h₂ : UInt8),
      gdbPacketReadStream p input = .ok (.ok, q, k) →
      kept (input.take k) =
        GdbPacketChar.start :: (payload.chars ++ [GdbPacketChar.stop, h₁, h₂]) →
      gdbPacketGetPayloadLength q = .ok (payload.chars.length + 1) ∧
        ¬PayloadLengthExact q payload.chars := by
  constructor
  · intro hstate
    obtain ⟨q, hwrite, hwritten⟩ := gdbPacketWrite_written hstate payload
    obtain ⟨hcomplete, hstored⟩ := hwritten.fits hlen
    exact ⟨q, hwrite, payloadLength_of_stored hcomplete (by simp [hstored])⟩
  · intro input q k h₁ h₂ hread hframe
    have hstored := stored_of_frame hread hframe hlen
    exact payloadLength_of_stored (received_of_accepted hread).state (by simp [hstored])

theorem payloadLength_ok : ∃ q k q', gdbPacketWrite .zero (.lit "OK") = .ok (.ok, q) ∧
    gdbPacketReadStream .zero (Frame.carrying (bytes "OK")).bytes = .ok (.ok, q', k) ∧
    gdbPacketGetPayloadLength q = .ok 3 ∧ gdbPacketGetPayloadLength q' = .ok 3 := by
  let f : Frame := .carrying (bytes "OK")
  obtain ⟨hwrite, hread⟩ := payloadLength_never_exact .zero (.lit "OK") (by decide)
  obtain ⟨q, hq, hlength, -⟩ := hwrite (by decide)
  obtain ⟨q', hq', -⟩ :=
    Frame.readStream_alone .zero (f := f) (Frame.carrying_correct ..) (by decide)
  have hkept : kept (f.bytes.take f.bytes.length) = f.bytes := by
    rw [List.take_length, f.kept_bytes]
  exact ⟨q, _, q', hq, hq', hlength, (hread _ q' _ f.h₁ f.h₂ hq' hkept).1⟩

/-- The payload length of the reply `OK` is 3. -/
theorem payloadLength_not_exact :
    ¬∀ q, gdbPacketWrite .zero (.lit "OK") = .ok (.ok, q) → PayloadLengthExact q (bytes "OK") := by
  intro h
  obtain ⟨q, hwrite, hwritten⟩ := gdbPacketWrite_written (p := .zero) (by decide) (.lit "OK")
  obtain ⟨hcomplete, hstored⟩ := hwritten.fits (by decide)
  have hlength : q.stored.length = (bytes "OK").length + 5 := by
    rw [hstored]
    decide
  exact (payloadLength_of_stored hcomplete hlength).2 (h q hwrite)

end Accessors
end NetBmp
