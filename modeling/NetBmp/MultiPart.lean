import NetBmp.HexRoundTrip

/-!
# Payloads written in several parts

Between start and stop, a payload may be written in any number of parts, each as it is or as
hex digits. The packet only depends on the payload that the parts add up to.
-/

namespace NetBmp
namespace MultiPart

open Hex Halting HexRoundTrip

/-- A part of a payload, to be written as it is or as hex digits. -/
inductive Segment
  | plain (characters : CString)
  | hex (characters : CString)

namespace Segment

def write (packet : GdbPacket) : Segment → Except String (GdbPacketResult × GdbPacket)
  | plain characters => gdbPacketWritePayload packet characters
  | hex characters => gdbPacketWritePayloadAsHex packet characters

/-- What a segment adds to the payload. `hex_from_str` does not encode an empty string. -/
def text : Segment → Except String (List UInt8)
  | plain characters => .ok characters.chars
  | hex characters =>
    if characters.chars = [] then .ok []
    else hexFromStr characters.chars (List.replicate (2 * characters.chars.length) 0)

end Segment

/-- Write segments one after the other, whatever the calls return. -/
def writeSegments (packet : GdbPacket) : List Segment → Except String GdbPacket
  | [] => return packet
  | segment :: segments => do
    let written ← segment.write packet
    writeSegments written.2 segments

/-- Write a packet in parts, between start and stop. -/
def writeParts (packet : GdbPacket) (segments : List Segment) : Except String GdbPacket := do
  let started ← gdbPacketWriteStart packet
  let packet ← writeSegments started.2 segments
  let stopped ← gdbPacketWriteStop packet
  return stopped.2

/-- The payload that segments add up to. -/
def payload : List Segment → Except String (List UInt8)
  | [] => return []
  | segment :: segments => do
    let text ← segment.text
    let rest ← payload segments
    return text ++ rest

def upperDigit (value : ℕ) : UInt8 := (bytes "0123456789ABCDEF").getD value 0

/-- The frame around a payload, with the NUL that ends it. -/
def framed (payload : List UInt8) : List UInt8 :=
  GdbPacketChar.start :: (payload ++ [GdbPacketChar.stop, upperDigit (checksum payload / 16),
    upperDigit (checksum payload % 16), 0])

theorem wire_eq_framed (payload : List UInt8) : wire payload ++ [0] = framed payload := by
  have hdigits (c : UInt8) : hexDigit (getUpperNibble c) = upperDigit (c.toNat / 16) ∧
      hexDigit (getLowerNibble c) = upperDigit (c.toNat % 16) := by
    revert c
    exact forall_uint8 (by decide +kernel)
  obtain ⟨hupper, hlower⟩ := hdigits payload.sum
  simp [wire, framed, hupper, hlower, toNat_sum]

theorem Segment.write_collecting {before : List UInt8} {p : GdbPacket} (h : Collecting before p)
    (segment : Segment) : ∃ text q, segment.text = .ok text ∧ segment.write p = .ok (.ok, q) ∧
      Collecting (before ++ text) q := by
  cases segment with
  | plain characters =>
    obtain ⟨q, hq, hcollect⟩ := writePayload_collecting h characters
    exact ⟨characters.chars, q, rfl, hq, hcollect⟩
  | hex characters =>
    obtain ⟨q, hq, hcollect⟩ := writePayloadAsHex_collecting h characters
    refine ⟨hexOf characters.chars, q, ?_, hq, hcollect⟩
    by_cases hempty : characters.chars = []
    · rw [text, if_pos hempty, hempty]
      rfl
    · rw [text, if_neg hempty, hexFromStr_writes hempty List.length_replicate]

theorem writeSegments_collecting {before : List UInt8} {p : GdbPacket} (h : Collecting before p)
    (segments : List Segment) : ∃ added q, payload segments = .ok added ∧
      writeSegments p segments = .ok q ∧ Collecting (before ++ added) q := by
  induction segments generalizing before p with
  | nil => exact ⟨[], p, rfl, rfl, by rwa [List.append_nil]⟩
  | cons segment segments ih =>
    obtain ⟨text, p₁, htext, hwrite, hcollect⟩ := segment.write_collecting h
    obtain ⟨added, q, hadded, hrest, hcollect⟩ := ih hcollect
    refine ⟨text ++ added, q, ?_, ?_, by rwa [← List.append_assoc]⟩
    · rw [payload, htext, ok_bind, hadded]
      rfl
    · rw [writeSegments, hwrite]
      exact hrest

theorem writeParts_written {p : GdbPacket} (h : p.state ≠ .complete) (segments : List Segment) :
    ∃ P q, payload segments = .ok P ∧ writeParts p segments = .ok q ∧ Written P q := by
  obtain ⟨p₁, hstart, hcollect⟩ := writeStart_collecting h
  obtain ⟨P, p₂, hpayload, hsegments, hcollect⟩ := writeSegments_collecting hcollect segments
  obtain ⟨q, hstop, hwritten⟩ := writeStop_written hcollect
  refine ⟨P, q, hpayload, ?_, hwritten⟩
  rw [writeParts, hstart, ok_bind, hsegments, ok_bind, hstop]
  rfl

/-- No assertion is tripped, the packet stores as much of the frame as fits, and it is complete
if all of it does. Any other parts with the same payload have the same result. -/
theorem writeParts_framed {p : GdbPacket} (h : p.state ≠ .complete) (segments : List Segment) :
    ∃ P q, payload segments = .ok P ∧ writeParts p segments = .ok q ∧
      q.stored = (framed P).take (min gdbPacketMaxBufferLength (P.length + 5)) ∧
      (q.state = .complete ↔ P.length + 5 ≤ gdbPacketMaxBufferLength) ∧
      ∀ (p' : GdbPacket) (segments' : List Segment), p'.state ≠ .complete →
        payload segments' = .ok P →
        ∃ q', writeParts p' segments' = .ok q' ∧ q'.stored = q.stored ∧ q'.state = q.state := by
  obtain ⟨P, q, hpayload, hwrite, hwritten⟩ := writeParts_written h segments
  refine ⟨P, q, hpayload, hwrite, ?_, ?_, fun p' segments' h' hpayload' => ?_⟩
  · have hlength : (framed P).length = P.length + 5 := by simp [framed]
    rw [hwritten.stored, wire_eq_framed, ← hlength, List.take_eq_take_min]
  · rw [hwritten.state]
    by_cases hfits : P.length + 5 ≤ gdbPacketMaxBufferLength
    · simp [hfits]
    · simp [hfits]
  · obtain ⟨P', q', hsame, hwrite', hwritten'⟩ := writeParts_written h' segments'
    rw [hpayload'] at hsame
    cases hsame
    exact ⟨q', hwrite', by rw [hwritten'.stored, hwritten.stored],
      by rw [hwritten'.state, hwritten.state]⟩

theorem writeParts_framed_console :
    ∃ q, writeParts .zero [.plain (.lit "O"), .hex (.lit "hi")] = .ok q ∧
      q.stored = bytes "$O6869#2C" ++ [0] ∧ q.state = .complete := by
  obtain ⟨P, q, hpayload, hwrite, hstored, hstate, -⟩ :=
    writeParts_framed (p := .zero) (by decide) [.plain (.lit "O"), .hex (.lit "hi")]
  have htext : payload [.plain (.lit "O"), .hex (.lit "hi")] = .ok (bytes "O6869") := by decide
  rw [htext] at hpayload
  cases hpayload
  refine ⟨q, hwrite, ?_, hstate.mpr (by decide)⟩
  rw [hstored]
  decide

end MultiPart
end NetBmp
