import NetBmp.Commands

/-!
# What the session writes

A flush hands the stored bytes of the output packet to the transport, whatever the transport
makes of them, and leaves the packet as sent. A reply is therefore one write of a frame and
its NUL, and it changes nothing of the session but the output packet and, when a write of a
TCP session fails, the state.
-/

namespace NetBmp

open Hex Halting

namespace World

def withInput (w : World) (packet : GdbPacket) : World :=
  { w with gdbSession := { w.gdbSession with inputPacket := packet } }

def withOutput (w : World) (packet : GdbPacket) : World :=
  { w with gdbSession := { w.gdbSession with outputPacket := packet } }

/-- The world after the transport has been given `data`. -/
def send (w : World) (data : List UInt8) : World :=
  match w.gdbSession.pWriteCb with
  | none => w
  | some writeCb =>
    { gdbSession := { w.gdbSession with
        state := if w.writeResults 0 ≠ .ok ∧ w.gdbSession.transport = .tcpIp then .aborted
          else w.gdbSession.state }
      networkErr := if writeCb = .networkGdbWriteCb then w.writeResults 0 else w.networkErr
      writeResults := fun n => w.writeResults (n + 1)
      trace := w.trace ++ [.write writeCb data (w.writeResults 0)] }

@[simp] theorem withOutput_withOutput (w : World) (p q : GdbPacket) :
    (w.withOutput p).withOutput q = w.withOutput q := rfl

@[simp] theorem withOutput_outputPacket (w : World) (p : GdbPacket) :
    (w.withOutput p).gdbSession.outputPacket = p := rfl

@[simp] theorem withOutput_inputPacket (w : World) (p : GdbPacket) :
    (w.withOutput p).gdbSession.inputPacket = w.gdbSession.inputPacket := rfl

@[simp] theorem withOutput_pWriteCb (w : World) (p : GdbPacket) :
    (w.withOutput p).gdbSession.pWriteCb = w.gdbSession.pWriteCb := rfl

@[simp] theorem withOutput_pTarget (w : World) (p : GdbPacket) :
    (w.withOutput p).gdbSession.pTarget = w.gdbSession.pTarget := rfl

@[simp] theorem send_withOutput (w : World) (p : GdbPacket) (data : List UInt8) :
    (w.withOutput p).send data = (w.send data).withOutput p := by
  cases h : w.gdbSession.pWriteCb <;> simp [send, withOutput, h]

@[simp] theorem send_withInput (w : World) (p : GdbPacket) (data : List UInt8) :
    (w.withInput p).send data = (w.send data).withInput p := by
  cases h : w.gdbSession.pWriteCb <;> simp [send, withInput, h]

@[simp] theorem send_pWriteCb (w : World) (data : List UInt8) :
    (w.send data).gdbSession.pWriteCb = w.gdbSession.pWriteCb := by
  unfold send; split <;> rfl

@[simp] theorem send_inputPacket (w : World) (data : List UInt8) :
    (w.send data).gdbSession.inputPacket = w.gdbSession.inputPacket := by
  unfold send; split <;> rfl

@[simp] theorem send_outputPacket (w : World) (data : List UInt8) :
    (w.send data).gdbSession.outputPacket = w.gdbSession.outputPacket := by
  unfold send; split <;> rfl

@[simp] theorem send_pTarget (w : World) (data : List UInt8) :
    (w.send data).gdbSession.pTarget = w.gdbSession.pTarget := by
  unfold send; split <;> rfl

@[simp] theorem send_properties (w : World) (data : List UInt8) :
    (w.send data).gdbSession.properties = w.gdbSession.properties := by
  unfold send; split <;> rfl

@[simp] theorem send_transport (w : World) (data : List UInt8) :
    (w.send data).gdbSession.transport = w.gdbSession.transport := by
  unfold send; split <;> rfl

@[simp] theorem send_lock (w : World) (data : List UInt8) :
    (w.send data).gdbSession.lock = w.gdbSession.lock := by
  unfold send; split <;> rfl

end World

@[simp] theorem run_getSession (w : World) : getSession.run w = .ok w.gdbSession w := rfl

@[simp] theorem run_modifySession (f : GdbSession → GdbSession) (w : World) :
    (modifySession f).run w = .ok () { w with gdbSession := f w.gdbSession } := rfl

@[simp] theorem run_record (event : Event) (w : World) :
    (record event).run w = .ok () { w with trace := w.trace ++ [event] } := rfl

theorem run_call (writeCb : GdbWriteCb) (data : List UInt8) (w : World) :
    (writeCb.call data).run w = .ok (w.writeResults 0 = .ok)
      { w with
        networkErr := if writeCb = .networkGdbWriteCb then w.writeResults 0 else w.networkErr
        writeResults := fun n => w.writeResults (n + 1)
        trace := w.trace ++ [.write writeCb data (w.writeResults 0)] } := by
  cases writeCb <;> rfl

/-- The write callback is set, and the output packet has been flushed. -/
structure Flushed (w : World) : Prop where
  callback : w.gdbSession.pWriteCb ≠ none
  sent : w.gdbSession.outputPacket.state = .sent
  nonempty : 0 < w.gdbSession.outputPacket.length

/-- The write callback is set, and the output packet may be written to. -/
structure Ready (w : World) : Prop where
  callback : w.gdbSession.pWriteCb ≠ none
  writable : w.gdbSession.outputPacket.state ≠ .complete

theorem Flushed.ready {w : World} (h : Flushed w) : Ready w :=
  ⟨h.callback, by simp [h.sent]⟩

theorem run_gdbSessionFlush {w : World} {p : GdbPacket} (hcb : w.gdbSession.pWriteCb ≠ none)
    (hs : p.state = .complete ∨ p.state = .sent) (hl : 0 < p.length) :
    gdbSessionFlush.run (w.withOutput p) =
      .ok () ((w.send p.stored).withOutput { p with state := .sent }) := by
  obtain ⟨writeCb, hsome⟩ := Option.ne_none_iff_exists'.mp hcb
  have hbuffer : gdbPacketGetBuffer p = .ok (p.stored ++ p.buffer.toList.drop p.length) := by
    simpa [gdbPacketGetBuffer] using getBufferOffset_of_lt hs hl
  have hlength : gdbPacketGetLength p = .ok p.length := by
    simp [gdbPacketGetLength, hs]
  have htake : (p.stored ++ p.buffer.toList.drop p.length).take p.length = p.stored := by
    rw [← p.length_stored, List.take_left]
  have hmark : gdbPacketMarkSent p = .ok { p with state := .sent } := rfl
  simp only [gdbSessionFlush, EStateM.run_bind, run_getSession, World.withOutput, hsome, hbuffer,
    hlength, hmark, lift_ok, EStateM.run_pure, htake, run_call, run_modifySession, World.send]
  by_cases hr : w.writeResults 0 = .ok
  · simp [hr]
  · cases ht : w.gdbSession.transport <;> simp [hr]

theorem run_gdbSessionFlush_open {w : World} (hcb : w.gdbSession.pWriteCb ≠ none)
    (hs : w.gdbSession.outputPacket.state = .collect) :
    gdbSessionFlush.run w = .error "Packet not complete." w := by
  obtain ⟨writeCb, hsome⟩ := Option.ne_none_iff_exists'.mp hcb
  have hbuffer : gdbPacketGetBuffer w.gdbSession.outputPacket = .error "Packet not complete." := by
    simp [gdbPacketGetBuffer, gdbPacketGetBufferOffset, gdbPacketGetLength, hs]
  simp only [gdbSessionFlush, EStateM.run_bind, run_getSession, hsome, hbuffer, lift_error,
    run_throw]

theorem run_writeOutput {write : GdbPacket → Except String (GdbPacketResult × GdbPacket)}
    {w : World} {r : GdbPacketResult} {q : GdbPacket}
    (h : write w.gdbSession.outputPacket = .ok (r, q)) :
    (writeOutput write).run w = .ok () (w.withOutput q) := by
  simp only [writeOutput, EStateM.run_bind, run_getSession, h, lift_ok, EStateM.run_pure,
    run_modifySession]
  rfl

/-- Flushing a packet that has just been finalized: one write when the payload fits, and a halt
when it does not. -/
theorem run_flush_written {w : World} {payload : List UInt8} {p : GdbPacket}
    (hcb : w.gdbSession.pWriteCb ≠ none) (h : Written payload p) :
    if payload.length ≤ 2043 then
      ∃ o : GdbPacket, o.state = .sent ∧ 0 < o.length ∧
        gdbSessionFlush.run (w.withOutput p) =
          .ok () ((w.send (wire payload ++ [0])).withOutput o)
    else gdbSessionFlush.run (w.withOutput p) = .error "Packet not complete." (w.withOutput p) := by
  split_ifs with hl
  · obtain ⟨hstate, hstored⟩ := h.fits hl
    have hlen : 0 < p.length := by
      rw [← p.length_stored, hstored]
      simp
    refine ⟨{ p with state := .sent }, rfl, hlen, ?_⟩
    rw [run_gdbSessionFlush hcb (Or.inl hstate) hlen, hstored]
  · have hmax : gdbPacketMaxBufferLength = 2048 := rfl
    apply run_gdbSessionFlush_open (w := w.withOutput p) hcb
    rw [World.withOutput_outputPacket, h.state, if_neg (by omega)]

theorem run_gdbReply {w : World} (h : Ready w) (reply : CString)
    (hl : reply.chars.length ≤ 2043) :
    ∃ o : GdbPacket, o.state = .sent ∧ 0 < o.length ∧
      (gdbReply reply).run w = .ok () ((w.send (wire reply.chars ++ [0])).withOutput o) := by
  obtain ⟨q, hq, hwritten⟩ := gdbPacketWrite_written h.writable reply
  have hflush := run_flush_written h.callback hwritten
  rw [if_pos hl] at hflush
  obtain ⟨o, hs, hpos, hrun⟩ := hflush
  refine ⟨o, hs, hpos, ?_⟩
  rw [gdbReply, run_bind_of_ok (run_writeOutput hq), hrun]

theorem run_gdbAcknowledge {w : World} (hcb : w.gdbSession.pWriteCb ≠ none) {character : UInt8}
    (hc : character = GdbPacketChar.ack ∨ character = GdbPacketChar.nack) :
    ∃ o : GdbPacket, o.state = .sent ∧ 0 < o.length ∧
      (gdbAcknowledge character).run w = .ok () ((w.send [character]).withOutput o) := by
  let p₀ := gdbPacketInit w.gdbSession.outputPacket .outbound
  have hl : p₀.length < gdbPacketMaxBufferLength := Nat.zero_lt_succ 2047
  let p : GdbPacket := { (gdbPacketAddChar p₀ character false).2 with state := .complete }
  have hwrite : gdbPacketWriteAck w.gdbSession.outputPacket character = .ok (.ok, p) := by
    simp only [gdbPacketWriteAck, assertVerbose_true _ hc, ok_bind]
    rw [if_neg (by simpa using gdbPacketAddChar_result hl character false)]
    rfl
  have hstored : p.stored = [character] := by
    change (gdbPacketAddChar p₀ character false).2.stored = [character]
    rw [stored_addChar, stored_init]
    rfl
  have hpos : 0 < p.length := by rw [← p.length_stored, hstored]; simp
  refine ⟨{ p with state := .sent }, rfl, hpos, ?_⟩
  rw [gdbAcknowledge, run_bind_of_ok (run_writeOutput hwrite),
    run_gdbSessionFlush hcb (Or.inl rfl) hpos, hstored]

end NetBmp
