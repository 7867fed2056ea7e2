import NetBmp.Frame
import NetBmp.PacketWriter

/-!
# The reader undoes the writer

What the writer stores for a payload is a frame with the right digits, so the reader takes a
stream of such frames apart again, packet by packet.
-/

namespace NetBmp
namespace RoundTrip

open Hex Framing

/-- A payload to be written into a packet whose previous content has been marked as sent. -/
structure Message where
  packet : GdbPacket
  string : CString
  sent : packet.state = .sent
  no_start : GdbPacketChar.start ∉ string.chars
  no_stop : GdbPacketChar.stop ∉ string.chars
  no_ctrlC : GdbPacketChar.ctrlC ∉ string.chars
  length_le : string.chars.length ≤ 2043

namespace Message

/-- The bytes of the frame among those that `gdb_packet_write` stores. -/
def frameBytes (m : Message) : List UInt8 :=
  match gdbPacketWrite m.packet m.string with
  | .ok (_, w) => w.stored.take (m.string.chars.length + 4)
  | .error _ => []

def frame (m : Message) : Frame := .carrying m.string.chars m.no_start m.no_stop m.no_ctrlC

theorem frame_bytes (m : Message) : m.frame.bytes = wire m.string.chars := rfl

theorem frame_correct (m : Message) : m.frame.Correct := Frame.carrying_correct ..

theorem write_eq (m : Message) :
    ∃ w, gdbPacketWrite m.packet m.string = .ok (.ok, w) ∧
      w.stored = m.frame.bytes ++ [0] ∧ w.checksum = m.string.chars.sum ∧
      m.frameBytes = m.frame.bytes := by
  have hstate : m.packet.state ≠ .complete := by simp [m.sent]
  obtain ⟨w, hw, hwritten⟩ := gdbPacketWrite_written hstate m.string
  have hstored := (hwritten.fits m.length_le).2
  refine ⟨w, hw, hstored, hwritten.checksum ?_, ?_⟩
  · exact Nat.le_trans (Nat.add_le_add_right m.length_le 1) (by decide)
  · have hlen : (wire m.string.chars).length = m.string.chars.length + 4 := length_wire _
    simp only [frameBytes, hw, hstored, ← hlen, List.take_left, frame_bytes]

end Message

/-- Reading the stream message by message: each call succeeds, consumes the frame of the
message and rebuilds the packet that the writer produced for it. -/
def ReadsBack : GdbPacket → List Message → List UInt8 → Prop
  | _, [], _ => True
  | r, m :: ms, stream =>
    ∃ w q, gdbPacketWrite m.packet m.string = .ok (.ok, w) ∧
      gdbPacketReadStream r stream = .ok (.ok, q, m.string.chars.length + 4) ∧
      q.stored = w.stored ∧ q.length = w.length ∧ q.checksum = w.checksum ∧
      ReadsBack q ms (stream.drop (m.string.chars.length + 4))

theorem readStream_message (r : GdbPacket) (m : Message) (rest : List UInt8) :
    ∃ w q, gdbPacketWrite m.packet m.string = .ok (.ok, w) ∧
      gdbPacketReadStream r (m.frameBytes ++ rest) = .ok (.ok, q, m.string.chars.length + 4) ∧
      q.stored = w.stored ∧ q.length = w.length ∧ q.checksum = w.checksum := by
  obtain ⟨w, hw, hstored, hsum, hbytes⟩ := m.write_eq
  obtain ⟨q, hq, hbuilt⟩ := Frame.readStream_correct r m.frame_correct m.length_le rest
  rw [Frame.length_bytes] at hq
  have hsame : q.stored = w.stored := by
    rw [hbuilt.stored, m.frame.storedBytes_bytes m.length_le, hstored]
  have hfits : (kept m.frame.bytes).length ≤ gdbPacketMaxBufferLength := by
    rw [m.frame.kept_bytes, Frame.length_bytes]
    exact Nat.le_trans (Nat.add_le_add_right m.length_le 4) (by decide)
  refine ⟨w, q, hw, by rw [hbytes]; exact hq, hsame, by simpa using congrArg List.length hsame, ?_⟩
  rw [hbuilt.checksum hfits, hsum, Frame.counted_bytes]
  rfl

/-- The stream of all frames is read back, whatever packet the reader starts from. -/
theorem readsBack_frames (r : GdbPacket) (ms : List Message) :
    ReadsBack r ms (ms.flatMap Message.frameBytes) := by
  induction ms generalizing r with
  | nil => trivial
  | cons m ms ih =>
    obtain ⟨w, q, hw, hq, hstored, hlength, hsum⟩ :=
      readStream_message r m (ms.flatMap Message.frameBytes)
    have hdrop : ((m :: ms).flatMap Message.frameBytes).drop (m.string.chars.length + 4) =
        ms.flatMap Message.frameBytes := by
      obtain ⟨-, -, -, -, hbytes⟩ := m.write_eq
      have hlen : m.frameBytes.length = m.string.chars.length + 4 := by
        rw [hbytes, Frame.length_bytes]
        rfl
      rw [List.flatMap_cons, ← hlen, List.drop_left]
    refine ⟨w, q, hw, by simpa using hq, hstored, hlength, hsum, ?_⟩
    rw [hdrop]
    exact ih q

/-- Two replies, written into a packet that has been sent before. -/
theorem readsBack_frames_ok : ∃ m₁ m₂ : Message, m₁.string = .lit "OK" ∧ m₂.string = .lit "W00" ∧
    ReadsBack .zero [m₁, m₂] (bytes "$OK#9A$W00#B7") := by
  let packet : GdbPacket := { GdbPacket.zero with state := .sent }
  let m₁ : Message := ⟨packet, .lit "OK", rfl, by decide, by decide, by decide, by decide⟩
  let m₂ : Message := ⟨packet, .lit "W00", rfl, by decide, by decide, by decide, by decide⟩
  have hstream : [m₁, m₂].flatMap Message.frameBytes = bytes "$OK#9A$W00#B7" := by
    obtain ⟨-, -, -, -, hfirst⟩ := m₁.write_eq
    obtain ⟨-, -, -, -, hsecond⟩ := m₂.write_eq
    rw [List.flatMap_cons, List.flatMap_singleton, hfirst, hsecond]
    decide +kernel
  have hread := readsBack_frames .zero [m₁, m₂]
  rw [hstream] at hread
  exact ⟨m₁, m₂, rfl, rfl, hread⟩

end RoundTrip
end NetBmp
