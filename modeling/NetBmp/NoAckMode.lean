import NetBmp.SessionStream

/-!
# The no-acknowledgement mode

`QStartNoAckMode` stands in the table of queries, but a packet that starts with `Q` is
dispatched to `gdb_set`, whose reply is empty. No reachable session leaves the acknowledgements
off, so every packet goes on to be acknowledged.
-/

namespace NetBmp
namespace NoAckMode

open Hex Halting Server SessionStream

/-- Chunks that are handled one after the other without tripping an assertion. -/
def RunsChunks (build : Build) : List (List UInt8) → World → World → Prop
  | [], w, w' => w' = w
  | chunk :: chunks, w, w' => ∃ k w₁, w.gdbSession.state = .active ∧
      (gdbSessionHandle build chunk).run w = .ok k w₁ ∧ RunsChunks build chunks w₁ w'

/-- The frame turns the mode on with the reply `OK`, and no chunk after it is acknowledged. -/
def StartsNoAckMode (build : Build) (w : World) (f : Frame) : Prop :=
  ∃ k w' events, (gdbSessionHandle build f.bytes).run w = .ok k w' ∧
    w'.trace = w.trace ++ events ∧ w'.gdbSession.properties.noAckMode = true ∧
    (∃ reply ∈ written events, wire (bytes "OK") <+: reply) ∧
    ∀ chunks w'' later, RunsChunks build chunks w' w'' → w''.trace = w'.trace ++ later →
      [GdbPacketChar.ack] ∉ written later ∧ [GdbPacketChar.nack] ∉ written later

theorem runsChunks_reachable {build : Build} {chunks : List (List UInt8)} {w w' : World}
    (hw : Reachable build w) (h : RunsChunks build chunks w w') : Reachable build w' := by
  induction chunks generalizing w with
  | nil =>
    obtain rfl : w' = w := h
    exact hw
  | cons chunk chunks ih =>
    obtain ⟨k, w₁, hactive, hrun, hrest⟩ := h
    exact ih (.handle hw hactive chunk hrun) hrest

theorem respond_set (build : Build) (target : Option ℕ) {stored : List UInt8}
    (h : command stored = 'Q'.toUInt8) : respond build target stored = .ok [[]] := by
  rw [respond, h, if_neg (by decide), if_neg (by decide), if_neg (by decide), if_neg (by decide)]

theorem handles_set {target : Option ℕ} {writeCb : GdbWriteCb} {w : World}
    (h : Continues target writeCb w) (build : Build) (f : Frame) (hc : f.Correct)
    (hpayload : f.payload = bytes "QStartNoAckMode") :
    ∃ w', (gdbSessionHandle build f.bytes).run w = .ok f.bytes.length w' ∧
      Continues target writeCb w' ∧
      w'.trace = w.trace ++ [.handle f.bytes, .write writeCb [GdbPacketChar.ack] .ok,
        .execute (f.bytes ++ [0]), .write writeCb (wire [] ++ [0]) .ok,
        .consumed f.bytes.length] := by
  have hcommand : command (f.bytes ++ [0]) = 'Q'.toUInt8 := by
    rw [command, drop_one_stored, hpayload]
    rfl
  have hr := respond_set build target hcommand
  have hlen : f.payload.length ≤ 2043 := by
    rw [hpayload]
    decide
  obtain ⟨w', hrun, hcontinues, htrace⟩ := h.accepts build f hlen hc hr []
  rw [List.append_nil] at hrun htrace
  exact ⟨w', hrun, hcontinues, by rw [htrace, answerEvents_of_ok hr]; rfl⟩

/-- In no reachable session does the packet start the mode: its reply is empty, and
acknowledgements stay on for as long as chunks are handled. -/
theorem not_startsNoAckMode (build : Build) {w : World} (hr : Reachable build w)
    (hactive : w.gdbSession.state = .active) (hreliable : w.Reliable) (f : Frame)
    (hc : f.Correct) (hpayload : f.payload = bytes "QStartNoAckMode") :
    ¬StartsNoAckMode build w f ∧
      ∃ w' writeCb, (gdbSessionHandle build f.bytes).run w = .ok f.bytes.length w' ∧
        w'.trace = w.trace ++ [.handle f.bytes, .write writeCb [GdbPacketChar.ack] .ok,
          .execute (f.bytes ++ [0]), .write writeCb (wire [] ++ [0]) .ok,
          .consumed f.bytes.length] ∧
        ∀ chunks w'', RunsChunks build chunks w' w'' →
          w''.gdbSession.properties.noAckMode = false := by
  obtain ⟨writeCb, h⟩ := continues_of_reachable hr hactive hreliable
  obtain ⟨w', hrun, hcontinues, htrace⟩ := handles_set h build f hc hpayload
  constructor
  · rintro ⟨k, w'', events, hrun', -, hmode, -⟩
    rw [hrun] at hrun'
    cases hrun'
    rw [hcontinues.acks] at hmode
    cases hmode
  · refine ⟨w', writeCb, hrun, htrace, fun chunks w'' hchunks => ?_⟩
    exact (runsChunks_reachable (.handle hr hactive f.bytes hrun) hchunks).sound.acks

theorem not_startsNoAckMode_locked :
    ¬StartsNoAckMode .release (.locked fun _ => .ok) (.carrying (bytes "QStartNoAckMode")) :=
  (not_startsNoAckMode .release (reachable_locked .release _) rfl (fun _ => rfl)
    (.carrying (bytes "QStartNoAckMode")) (Frame.carrying_correct ..) rfl).1

theorem no_ack_mode_refused :
    (Frame.carrying (bytes "QStartNoAckMode")).Correct ∧
      ¬StartsNoAckMode .release (.locked fun _ => .ok) (.carrying (bytes "QStartNoAckMode")) := by
  refine ⟨Frame.carrying_correct .., ?_⟩
  rintro ⟨k, w', events, hrun, htrace, -, ⟨reply, hreply, hok⟩, -⟩
  obtain ⟨w₁, hrun₁, -, htrace₁⟩ := handles_set continues_locked .release
    (.carrying (bytes "QStartNoAckMode")) (Frame.carrying_correct ..) rfl
  rw [hrun] at hrun₁
  cases hrun₁
  rw [← List.append_cancel_left (htrace₁.symm.trans htrace)] at hreply
  have hwrites : [GdbPacketChar.ack] = reply ∨ wire [] ++ [0] = reply := by
    simpa [written, dataOf] using hreply
  rcases hwrites with rfl | rfl <;> exact absurd hok (by decide)

end NoAckMode
end NetBmp
