import NetBmp.PacketWriter

/-!
# Sequences of packet operations

A packet goes through its operations in any order in which none of them trips an assertion. The
assertion of `gdb_packet_mark_sent` assigns the state that it is meant to compare, and so it lets
packets pass that are not complete.
-/

namespace NetBmp
namespace PacketOperations

open Hex Halting

/-- The public operations of a packet. -/
inductive Op
  | init (type : GdbPacketType)
  | readStream (characters : List UInt8)
  | writeStart
  | writePayload (characters : CString)
  | writePayloadAsHex (characters : CString)
  | writeStop
  | write (characters : CString)
  | writeAck (character : UInt8)
  | markSent

namespace Op

def apply (packet : GdbPacket) : Op → Except String GdbPacket
  | init type => .ok (gdbPacketInit packet type)
  | readStream characters => do return (← gdbPacketReadStream packet characters).2.1
  | writeStart => do return (← gdbPacketWriteStart packet).2
  | writePayload characters => do return (← gdbPacketWritePayload packet characters).2
  | writePayloadAsHex characters => do return (← gdbPacketWritePayloadAsHex packet characters).2
  | writeStop => do return (← gdbPacketWriteStop packet).2
  | write characters => do return (← gdbPacketWrite packet characters).2
  | writeAck character => do return (← gdbPacketWriteAck packet character).2
  | markSent => gdbPacketMarkSent packet

def marks : Op → Bool
  | markSent => true
  | _ => false

end Op

def run (packet : GdbPacket) : List Op → Except String GdbPacket
  | [] => .ok packet
  | op :: ops => do run (← op.apply packet) ops

/-- Each time the packet is marked as sent, it has been complete before. -/
def MarksComplete : GdbPacket → List Op → Prop
  | _, [] => True
  | p, op :: ops => (op.marks → p.state = .complete) ∧
      ∀ q, op.apply p = .ok q → MarksComplete q ops

/-- A packet that has been completed is marked once; `marked` tells if it has been marked since. -/
def MarksOnce : Bool → GdbPacket → List Op → Prop
  | _, _, [] => True
  | marked, p, op :: ops => (op.marks → marked = false) ∧
      ∀ q, op.apply p = .ok q →
        MarksOnce (if q.state = .complete then false else op.marks || marked) q ops

/-- What the arguments of the operations tell about a packet: whether the last operation has
completed it, and how many characters it has been given, be there room for them or not. -/
structure Progress where
  complete : Bool
  filled : ℕ

def Progress.next (g : Progress) : Op → Progress
  | .init _ => ⟨false, 0⟩
  | .readStream characters =>
    match packetEnd characters with
    | some k => ⟨true, (kept (characters.take k)).length + 1⟩
    | none => ⟨false, (kept characters).length⟩
  | .writeStart => ⟨false, 1⟩
  | .writePayload characters => ⟨false, g.filled + characters.chars.length⟩
  | .writePayloadAsHex characters => ⟨false, g.filled + 2 * characters.chars.length⟩
  | .writeStop => ⟨g.filled + 4 ≤ gdbPacketMaxBufferLength, g.filled + 4⟩
  | .write characters =>
    ⟨characters.chars.length + 5 ≤ gdbPacketMaxBufferLength, characters.chars.length + 5⟩
  | .writeAck _ => ⟨true, 1⟩
  | .markSent => ⟨false, g.filled⟩

/-- Each time the packet is marked as sent, the operation before has completed it. -/
def MarkedWhenDone : Progress → List Op → Prop
  | _, [] => True
  | g, op :: ops => (op.marks → g.complete) ∧ MarkedWhenDone (g.next op) ops

instance decidableMarkedWhenDone : ∀ (g : Progress) (ops : List Op),
    Decidable (MarkedWhenDone g ops)
  | _, [] => .isTrue trivial
  | g, op :: ops =>
    have := decidableMarkedWhenDone (g.next op) ops
    inferInstanceAs (Decidable ((op.marks → g.complete) ∧ MarkedWhenDone (g.next op) ops))

structure Tracks (g : Progress) (p : GdbPacket) : Prop where
  complete : p.state = .complete ↔ g.complete
  length : p.length = min gdbPacketMaxBufferLength g.filled

theorem tracks_open {p : GdbPacket} {n : ℕ} (hs : p.state ≠ .complete)
    (hlength : p.length = min gdbPacketMaxBufferLength n) : Tracks ⟨false, n⟩ p :=
  ⟨iff_of_false hs Bool.false_ne_true, hlength⟩

theorem tracks_complete {p : GdbPacket} {n : ℕ} (hs : p.state = .complete)
    (hlength : p.length = min gdbPacketMaxBufferLength n) : Tracks ⟨true, n⟩ p :=
  ⟨iff_of_true hs rfl, hlength⟩

theorem tracks_fitting {p : GdbPacket} {n : ℕ} {s : GdbPacketState} (hopen : s ≠ .complete)
    (hs : p.state = if n ≤ gdbPacketMaxBufferLength then .complete else s)
    (hlength : p.length = min gdbPacketMaxBufferLength n) :
    Tracks ⟨n ≤ gdbPacketMaxBufferLength, n⟩ p := by
  refine ⟨?_, hlength⟩
  rw [hs]
  by_cases hfits : n ≤ gdbPacketMaxBufferLength <;> simp [hfits, hopen]

theorem writeStop_state {p : GdbPacket} (h : p.state = .collect) :
    ∃ q, gdbPacketWriteStop p = .ok (.ok, q) ∧
      q.state = (if p.length + 4 ≤ gdbPacketMaxBufferLength then .complete else .collect) ∧
      q.length = min gdbPacketMaxBufferLength (p.length + 4) := by
  refine ⟨_, writeStop_eq h, ?_⟩
  have hlength := length_addChars p [GdbPacketChar.stop, hexDigit (getUpperNibble p.checksum),
    hexDigit (getLowerNibble p.checksum), 0] false
  by_cases hfits : p.length + 4 ≤ gdbPacketMaxBufferLength
  · simp only [if_pos hfits]
    exact ⟨trivial, hlength⟩
  · simp only [if_neg hfits]
    exact ⟨by rw [state_addChars, h], hlength⟩

theorem tracks_readStream {p q : GdbPacket} {characters : List UInt8} (g : Progress)
    (h : (Op.readStream characters).apply p = .ok q) :
    Tracks (g.next (.readStream characters)) q := by
  obtain ⟨read, hread, hq⟩ := bind_eq_ok h
  cases hq
  rw [Progress.next]
  rcases readStream_cases p characters with ⟨-, hcase⟩ | ⟨-, hend, q, hcase, hopen, hstored⟩ |
    ⟨-, k, hend, q, hcase, hbuilt⟩
  · rw [hcase] at hread
    cases hread
  · rw [hcase] at hread
    cases hread
    rw [hend]
    refine tracks_open hopen ?_
    rw [← q.length_stored, hstored, List.length_take]
  · rw [hcase] at hread
    obtain rfl := Except.ok.inj hread
    rw [hend]
    exact tracks_complete hbuilt.state hbuilt.length

/-- What one operation does to the progress of a packet. -/
theorem Tracks.next {g : Progress} {p q : GdbPacket} {op : Op} (h : Tracks g p)
    (hop : op.apply p = .ok q) : Tracks (g.next op) q := by
  have hmax : gdbPacketMaxBufferLength = 2048 := rfl
  have hlength := h.length
  cases op with
  | init type =>
    cases hop
    exact tracks_open (by simp [gdbPacketInit]) rfl
  | readStream characters => exact tracks_readStream g hop
  | writeStart =>
    obtain ⟨started, hstart, hq⟩ := bind_eq_ok hop
    cases hq
    obtain ⟨_, hassert, -⟩ := bind_eq_ok hstart
    obtain ⟨q, hwrite, hcollect⟩ := writeStart_collecting (of_assertVerbose hassert)
    rw [hwrite] at hstart
    cases hstart
    exact tracks_open (by simp [hcollect.state]) hcollect.length
  | writePayload characters =>
    obtain ⟨written, hwrite, hq⟩ := bind_eq_ok hop
    cases hq
    obtain ⟨_, hassert, hloop⟩ := bind_eq_ok hwrite
    rw [writePayloadLoop_eq] at hloop
    cases hloop
    refine tracks_open (by simp [of_assertVerbose hassert]) ?_
    rw [length_addChars]
    omega
  | writePayloadAsHex characters =>
    obtain ⟨written, hwrite, hq⟩ := bind_eq_ok hop
    cases hq
    obtain ⟨_, hassert, hloop⟩ := bind_eq_ok hwrite
    rw [writePayloadAsHexLoop_eq] at hloop
    cases hloop
    refine tracks_open (by simp [of_assertVerbose hassert]) ?_
    rw [length_addChars, length_hexOf]
    omega
  | writeStop =>
    obtain ⟨stopped, hstop, hq⟩ := bind_eq_ok hop
    cases hq
    obtain ⟨_, hassert, -⟩ := bind_eq_ok hstop
    obtain ⟨q, hclosed, hstate, hclosedLength⟩ := writeStop_state (of_assertVerbose hassert)
    rw [hclosed] at hstop
    cases hstop
    have hfits : p.length + 4 ≤ gdbPacketMaxBufferLength ↔
        g.filled + 4 ≤ gdbPacketMaxBufferLength := by omega
    have hfilled : q.length = min gdbPacketMaxBufferLength (g.filled + 4) := by omega
    simp only [hfits] at hstate
    exact tracks_fitting (by decide) hstate hfilled
  | write characters =>
    obtain ⟨written, hwrite, hq⟩ := bind_eq_ok hop
    cases hq
    obtain ⟨started, hstart, -⟩ := bind_eq_ok hwrite
    obtain ⟨_, hassert, -⟩ := bind_eq_ok hstart
    obtain ⟨q, hwritten, hdone⟩ := gdbPacketWrite_written (of_assertVerbose hassert) characters
    rw [hwritten] at hwrite
    cases hwrite
    refine tracks_fitting (by decide) hdone.state ?_
    rw [← q.length_stored, hdone.stored, List.length_take, List.length_append, length_wire]
    rfl
  | writeAck character =>
    obtain ⟨written, hwrite, hq⟩ := bind_eq_ok hop
    cases hq
    obtain ⟨_, -, hadd⟩ := bind_eq_ok hwrite
    have hroom := gdbPacketAddChar_result (p := gdbPacketInit p .outbound)
      (by simp [gdbPacketInit]) character false
    rw [if_neg (not_not.mpr hroom)] at hadd
    cases hadd
    exact tracks_complete rfl (length_addChars (gdbPacketInit p .outbound) [character] false)
  | markSent =>
    obtain ⟨_, _, hq⟩ := bind_eq_ok hop
    cases hq
    exact tracks_open (by simp) hlength

/-- In a run that trips no assertion, the packets that are marked are those that the operations
before have completed. -/
theorem Tracks.marksComplete_iff {g : Progress} {p r : GdbPacket} {ops : List Op}
    (h : Tracks g p) (hrun : run p ops = .ok r) : MarksComplete p ops ↔ MarkedWhenDone g ops := by
  induction ops generalizing g p with
  | nil => exact Iff.rfl
  | cons op ops ih =>
    obtain ⟨q, hop, hrest⟩ := bind_eq_ok hrun
    rw [MarksComplete, MarkedWhenDone, h.complete, ← ih (h.next hop) hrest]
    refine and_congr_right fun _ => ⟨fun hall => hall q hop, fun hq q' hop' => ?_⟩
    rw [hop] at hop'
    cases hop'
    exact hq

theorem marksOnce_of_marksComplete {marked : Bool} {p : GdbPacket} {ops : List Op}
    (hmarked : p.state = .complete → marked = false) (h : MarksComplete p ops) :
    MarksOnce marked p ops := by
  induction ops generalizing marked p with
  | nil => trivial
  | cons op ops ih =>
    obtain ⟨hcomplete, hrest⟩ := h
    refine ⟨fun hop => hmarked (hcomplete hop), fun q hq => ih (fun hs => ?_) (hrest q hq)⟩
    rw [if_pos hs]

theorem tracks_init (p : GdbPacket) (type : GdbPacketType) :
    Tracks ⟨false, 0⟩ (gdbPacketInit p type) :=
  tracks_open (by simp [gdbPacketInit]) rfl

/-- Only packets that are complete are marked as sent, and once each, exactly when each marking
comes directly behind an operation that completes the packet. -/
theorem sent_means_completed_iff (p : GdbPacket) (type : GdbPacketType) (ops : List Op)
    (hrun : ∃ r, run (gdbPacketInit p type) ops = .ok r) :
    MarksComplete (gdbPacketInit p type) ops ∧ MarksOnce false (gdbPacketInit p type) ops ↔
      MarkedWhenDone ⟨false, 0⟩ ops := by
  obtain ⟨r, hrun⟩ := hrun
  rw [← (tracks_init p type).marksComplete_iff hrun]
  exact ⟨And.left, fun h => ⟨h, marksOnce_of_marksComplete (fun _ => rfl) h⟩⟩

theorem apply_write_ok : ∃ q, (Op.write (.lit "OK")).apply (gdbPacketInit .zero .outbound) = .ok q := by
  obtain ⟨q, hwrite, -⟩ :=
    gdbPacketWrite_written (p := gdbPacketInit .zero .outbound) (by decide) (.lit "OK")
  exact ⟨q, by rw [Op.apply, hwrite]; rfl⟩

theorem reply_sent_completed :
    MarksComplete (gdbPacketInit .zero .outbound) [.write (.lit "OK"), .markSent] ∧
      MarksOnce false (gdbPacketInit .zero .outbound) [.write (.lit "OK"), .markSent] := by
  obtain ⟨q, hwrite⟩ := apply_write_ok
  have hrun : run (gdbPacketInit .zero .outbound) [.write (.lit "OK"), .markSent] =
      .ok { q with state := .sent } := by
    rw [run, hwrite]
    rfl
  exact (sent_means_completed_iff .zero .outbound _ ⟨_, hrun⟩).mpr (by decide)

/-- A packet that has just been initialized is marked as sent, and a reply is marked twice. -/
theorem empty_packet_sent :
    ((∃ r, run (gdbPacketInit .zero .outbound) [.markSent] = .ok r ∧ r.state = .sent) ∧
        ¬MarksComplete (gdbPacketInit .zero .outbound) [.markSent]) ∧
      (∃ r, run (gdbPacketInit .zero .outbound) [.write (.lit "OK"), .markSent, .markSent] = .ok r) ∧
        ¬MarksOnce false (gdbPacketInit .zero .outbound)
          [.write (.lit "OK"), .markSent, .markSent] := by
  obtain ⟨q, hwrite⟩ := apply_write_ok
  refine ⟨⟨⟨_, rfl, rfl⟩, fun h => ?_⟩, ⟨{ q with state := .sent }, ?_⟩, fun h => ?_⟩
  · exact absurd (h.1 rfl) (by decide)
  · rw [run, hwrite]
    rfl
  · have hmarked := ((h.2 q hwrite).2 _ rfl).1 rfl
    exact Bool.noConfusion hmarked

end PacketOperations
end NetBmp
