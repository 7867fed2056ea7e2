import NetBmp.Frame
import NetBmp.Reachability

/-!
# A session that receives frames

Frames that arrive in one chunk are taken off it one by one. A right frame is acknowledged and
executed; a wrong one is refused and leaves no other trace.
-/

namespace NetBmp
namespace SessionStream

open Hex Halting Server

theorem drop_one_stored (f : Frame) :
    (f.bytes ++ [0]).drop 1 = f.payload ++ GdbPacketChar.stop :: [f.h₁, f.h₂, 0] := by
  simp [Frame.bytes]

/-- What the server does with a frame that fits, whatever follows it. -/
theorem answer_frame (build : Build) (target : Option ℕ) (f : Frame)
    (hlen : f.payload.length ≤ 2043) (rest : List UInt8) :
    answer build target (f.bytes ++ rest) =
      if f.Correct then
        match respond build target (f.bytes ++ [0]) with
        | .ok replies =>
          (.handle (f.bytes ++ rest) :: .send [GdbPacketChar.ack] :: .execute (f.bytes ++ [0]) ::
            (replies.map fun reply => .send (wire reply ++ [0])) ++ [.consumed f.bytes.length],
            .ok f.bytes.length)
        | .error e => ([.handle (f.bytes ++ rest), .send [GdbPacketChar.ack],
            .execute (f.bytes ++ [0])], .error e)
      else ([.handle (f.bytes ++ rest), .send [GdbPacketChar.nack], .consumed f.bytes.length],
        .ok f.bytes.length) := by
  have hdigits : ¬∃ d ∈ digits .body (f.bytes ++ rest), ¬Accepted d := by
    push Not
    exact f.digits_accepted rest
  rw [answer, if_neg hdigits, f.packetEnd_bytes rest]
  simp only [List.take_left, f.verdict_bytes hlen, f.storedBytes_bytes hlen]
  by_cases hc : f.Correct
  · cases respond build target (f.bytes ++ [0]) <;> simp only [hc, ↓reduceIte]
  · simp [hc]

/-- Only a monitor command can trip an assertion. -/
theorem respond_ok (build : Build) (target : Option ℕ) {stored : List UInt8}
    (h : ¬bytes "qRcmd," <+: stored.drop 1) : ∃ replies, respond build target stored = .ok replies := by
  simp only [respond, query, if_neg h]
  split_ifs
  all_goals exact ⟨_, rfl⟩

def dataOf : Event → Option (List UInt8)
  | .write _ data _ => some data
  | _ => none

/-- The data of the writes among some events. -/
def written (events : List Event) : List (List UInt8) := events.filterMap dataOf

def storedOf : Event → Option (List UInt8)
  | .execute stored => some stored
  | _ => none

/-- The packets that are executed among some events. -/
def executed (events : List Event) : List (List UInt8) := events.filterMap storedOf

/-- Whether an event is a write. -/
def IsWrite : Event → Prop
  | .write _ _ _ => True
  | _ => False

/-- One call of `gdb_session_handle` with a frame in front of its input. -/
structure HandlesFrame (build : Build) (f : Frame) (input : List UInt8) (w w' : World) : Prop where
  run : (gdbSessionHandle build input).run w = .ok f.bytes.length w'
  accepted : f.Correct → ∃ writeCb replies, (∀ e ∈ replies, IsWrite e) ∧
    w'.trace = w.trace ++ (.handle input :: .write writeCb [GdbPacketChar.ack] .ok ::
      .execute (f.bytes ++ [0]) :: replies ++ [.consumed f.bytes.length])
  refused : ¬f.Correct →
    (∃ writeCb, w'.trace = w.trace ++ [.handle input,
      .write writeCb [GdbPacketChar.nack] .ok, .consumed f.bytes.length]) ∧
    w'.gdbSession.properties = w.gdbSession.properties ∧
    w'.gdbSession.state = w.gdbSession.state ∧
    w'.gdbSession.transport = w.gdbSession.transport

/-- Calls on what the calls before have not consumed, until nothing is left. -/
def Handles (build : Build) : List Frame → List UInt8 → World → World → Prop
  | [], input, w, w' => input = [] ∧ w' = w
  | f :: fs, input, w, w' => ∃ w₁, HandlesFrame build f input w w₁ ∧
      Handles build fs (input.drop f.bytes.length) w₁ w'

/-- The events that concern accepted frames: executed packets, and all writes that are not a
negative acknowledgement. -/
def isHeard : Event → Bool
  | .execute _ => true
  | .write _ data _ => data ≠ [GdbPacketChar.nack]
  | _ => false

def heard (trace : List Event) : List Event := trace.filter isHeard

theorem heard_append (xs ys : List Event) : heard (xs ++ ys) = heard xs ++ heard ys :=
  List.filter_append ..

def replyEvents (writeCb : GdbWriteCb) (replies : List (List UInt8)) : List Event :=
  replies.map fun reply => .write writeCb (wire reply ++ [0]) .ok

theorem heard_replyEvents (writeCb : GdbWriteCb) (replies : List (List UInt8)) :
    heard (replyEvents writeCb replies) = replyEvents writeCb replies := by
  refine List.filter_eq_self.mpr fun e he => ?_
  obtain ⟨reply, -, rfl⟩ := List.mem_map.mp he
  simp [isHeard, wire]

/-- The events of an accepted frame. They depend on the frame, the build, the target and the
callback. -/
def answerEvents (build : Build) (target : Option ℕ) (writeCb : GdbWriteCb) (f : Frame) :
    List Event :=
  match respond build target (f.bytes ++ [0]) with
  | .ok replies => .write writeCb [GdbPacketChar.ack] .ok :: .execute (f.bytes ++ [0]) ::
      replyEvents writeCb replies
  | .error _ => []

theorem answerEvents_of_ok {build : Build} {target : Option ℕ} {f : Frame}
    {replies : List (List UInt8)} (h : respond build target (f.bytes ++ [0]) = .ok replies)
    (writeCb : GdbWriteCb) :
    answerEvents build target writeCb f = .write writeCb [GdbPacketChar.ack] .ok ::
      .execute (f.bytes ++ [0]) :: replyEvents writeCb replies := by
  rw [answerEvents, h]

theorem heard_answerEvents (build : Build) (target : Option ℕ) (writeCb : GdbWriteCb)
    (f : Frame) : heard (answerEvents build target writeCb f) =
      answerEvents build target writeCb f := by
  cases h : respond build target (f.bytes ++ [0]) with
  | ok replies =>
    rw [answerEvents_of_ok h]
    exact congrArg (_ :: _ :: ·) (heard_replyEvents writeCb replies)
  | error e =>
    rw [answerEvents, h]
    rfl

/-- A session as it stands between two calls, with the parts of it that stay as they are. -/
structure Continues (target : Option ℕ) (writeCb : GdbWriteCb) (w : World) : Prop
    extends Serving w where
  reliable : w.Reliable
  target_eq : w.gdbSession.pTarget = target
  writeCb_eq : w.gdbSession.pWriteCb = some writeCb

theorem continues_locked : Continues none .networkGdbWriteCb (.locked fun _ => .ok) :=
  ⟨(reachable_locked .release _).serving rfl, fun _ => rfl, rfl, rfl⟩

theorem continues_of_reachable {build : Build} {w : World} (hr : Reachable build w)
    (hactive : w.gdbSession.state = .active) (hreliable : w.Reliable) :
    ∃ writeCb, Continues w.gdbSession.pTarget writeCb w := by
  have hserving := hr.serving hactive
  obtain ⟨writeCb, hcb⟩ := Option.ne_none_iff_exists'.mp hserving.callback
  exact ⟨writeCb, hserving, hreliable, rfl, hcb⟩

theorem answer_stopReason : answer .release none (bytes "$?#3F") =
    ([.handle (bytes "$?#3F"), .send [GdbPacketChar.ack], .execute (bytes "$?#3F" ++ [0]),
      .send (wire (bytes "W00") ++ [0]), .consumed 5], .ok 5) := by
  decide +kernel

namespace Continues

variable {target : Option ℕ} {writeCb : GdbWriteCb} {w : World}

theorem handle_ok (h : Continues target writeCb w) {build : Build} {input : List UInt8}
    {actions : List Action} {k : ℕ} (ha : answer build target input = (actions, .ok k)) :
    ∃ w', (gdbSessionHandle build input).run w = .ok k w' ∧ Continues target writeCb w' ∧
      (w.performs actions).Agrees w' ∧
      w'.trace = w.trace ++ actions.map (·.event writeCb) := by
  obtain ⟨w', hrun, hagrees, hready, hack⟩ := h.toServing.handle_ok (h.target_eq.symm ▸ ha)
  obtain ⟨hreliable, htrace, hstate, -⟩ := h.reliable.performs h.writeCb_eq actions
  have htarget := World.performs_pTarget w actions
  have hcb := World.performs_pWriteCb w actions
  obtain ⟨i, o, rfl⟩ := hagrees
  exact ⟨_, hrun, ⟨⟨hready, hstate.trans h.active, hack⟩, hreliable, htarget.trans h.target_eq,
    hcb.trans h.writeCb_eq⟩, ⟨i, o, rfl⟩, htrace⟩

theorem accepts (h : Continues target writeCb w) (build : Build) (f : Frame)
    (hlen : f.payload.length ≤ 2043) (hc : f.Correct) {replies : List (List UInt8)}
    (hr : respond build target (f.bytes ++ [0]) = .ok replies) (rest : List UInt8) :
    ∃ w', (gdbSessionHandle build (f.bytes ++ rest)).run w = .ok f.bytes.length w' ∧
      Continues target writeCb w' ∧
      w'.trace = w.trace ++ (.handle (f.bytes ++ rest) ::
        answerEvents build target writeCb f ++ [.consumed f.bytes.length]) := by
  have hanswer := answer_frame build target f hlen rest
  rw [if_pos hc, hr] at hanswer
  obtain ⟨w', hrun, hcontinues, -, htrace⟩ := h.handle_ok hanswer
  refine ⟨w', hrun, hcontinues, ?_⟩
  rw [htrace, answerEvents_of_ok hr]
  simp [replyEvents, Action.event, Function.comp_def]

theorem halts (h : Continues target writeCb w) (build : Build) (f : Frame)
    (hlen : f.payload.length ≤ 2043) (hc : f.Correct) {e : String}
    (hr : respond build target (f.bytes ++ [0]) = .error e) (rest : List UInt8) :
    ∃ w', (gdbSessionHandle build (f.bytes ++ rest)).run w = .error e w' := by
  have hanswer := answer_frame build target f hlen rest
  rw [if_pos hc, hr] at hanswer
  obtain ⟨w', hrun, -⟩ := h.toServing.handle_error (h.target_eq.symm ▸ hanswer)
  exact ⟨w', hrun⟩

theorem handlesFrame (h : Continues target writeCb w) (build : Build) (f : Frame)
    (hlen : f.payload.length ≤ 2043) (hremote : ¬bytes "qRcmd," <+: f.payload)
    (rest : List UInt8) :
    ∃ w', HandlesFrame build f (f.bytes ++ rest) w w' ∧ Continues target writeCb w' ∧
      heard w'.trace = heard w.trace ++
        if f.Correct then answerEvents build target writeCb f else [] := by
  by_cases hc : f.Correct
  · have htext : ¬bytes "qRcmd," <+: (f.bytes ++ [0]).drop 1 := by
      rwa [drop_one_stored, prefix_append_cons_iff (by decide)]
    obtain ⟨replies, hr⟩ := respond_ok build target htext
    obtain ⟨w', hrun, hcontinues, htrace⟩ := h.accepts build f hlen hc hr rest
    refine ⟨w', ⟨hrun, fun _ => ?_, fun hn => absurd hc hn⟩, hcontinues, ?_⟩
    · refine ⟨writeCb, replyEvents writeCb replies, ?_, ?_⟩
      · simp [replyEvents, IsWrite]
      · rw [htrace, answerEvents_of_ok hr]
    · have hframe : heard (.handle (f.bytes ++ rest) :: answerEvents build target writeCb f ++
          [.consumed f.bytes.length]) = answerEvents build target writeCb f := by
        rw [heard_append]
        exact (congrArg (· ++ []) (heard_answerEvents build target writeCb f)).trans
          (List.append_nil _)
      rw [htrace, heard_append, if_pos hc, hframe]
  · have hanswer := answer_frame build target f hlen rest
    rw [if_neg hc] at hanswer
    obtain ⟨w', hrun, hcontinues, ⟨i, o, rfl⟩, htrace⟩ := h.handle_ok hanswer
    refine ⟨_, ⟨hrun, fun hn => absurd hn hc, fun _ => ⟨⟨writeCb, htrace⟩, ?_, ?_, ?_⟩⟩,
      hcontinues, ?_⟩
    · simp [World.withOutput, World.withInput, World.perform]
    · exact hcontinues.active.trans h.active.symm
    · simp [World.withOutput, World.withInput, World.perform]
    · rw [htrace, heard_append, if_neg hc]
      simp [heard, isHeard, Action.event]

theorem handles (h : Continues target writeCb w) (build : Build) {fs : List Frame}
    (hlen : ∀ f ∈ fs, f.payload.length ≤ 2043)
    (hremote : ∀ f ∈ fs, ¬bytes "qRcmd," <+: f.payload) :
    ∃ w', Handles build fs (fs.flatMap Frame.bytes) w w' ∧
      heard w'.trace = heard w.trace ++
        (fs.filter (·.Correct)).flatMap (answerEvents build target writeCb) := by
  induction fs generalizing w with
  | nil => exact ⟨w, ⟨rfl, rfl⟩, by simp⟩
  | cons f fs ih =>
    obtain ⟨w₁, hframe, hcontinues, hheard⟩ := h.handlesFrame build f (hlen f (by simp))
      (hremote f (by simp)) (fs.flatMap Frame.bytes)
    obtain ⟨w', hrest, hheard'⟩ := ih hcontinues (fun g hg => hlen g (by simp [hg]))
      (fun g hg => hremote g (by simp [hg]))
    refine ⟨w', ⟨w₁, hframe, ?_⟩, ?_⟩
    · rwa [List.flatMap_cons, List.drop_left]
    · rw [hheard', hheard, List.append_assoc]
      by_cases hc : f.Correct <;> simp [hc]

end Continues

/-- An active session takes the frames of a chunk off it one by one, and what it executes and
answers is as if the wrong frames had not been received. -/
theorem handles_frames (build : Build) {w : World} (hr : Reachable build w)
    (hactive : w.gdbSession.state = .active) (hreliable : w.Reliable) (fs : List Frame)
    (hlen : ∀ f ∈ fs, f.payload.length ≤ 2043)
    (hremote : ∀ f ∈ fs, ¬bytes "qRcmd," <+: f.payload) :
    ∃ w₁ w₂, Handles build fs (fs.flatMap Frame.bytes) w w₁ ∧
      Handles build (fs.filter (·.Correct)) ((fs.filter (·.Correct)).flatMap Frame.bytes) w w₂ ∧
      heard w₁.trace = heard w₂.trace := by
  obtain ⟨writeCb, h⟩ := continues_of_reachable hr hactive hreliable
  obtain ⟨w₁, hrun₁, hheard₁⟩ := h.handles build hlen hremote
  have hlen' : ∀ f ∈ fs.filter (·.Correct), f.payload.length ≤ 2043 :=
    fun f hf => hlen f (List.mem_of_mem_filter hf)
  have hremote' : ∀ f ∈ fs.filter (·.Correct), ¬bytes "qRcmd," <+: f.payload :=
    fun f hf => hremote f (List.mem_of_mem_filter hf)
  obtain ⟨w₂, hrun₂, hheard₂⟩ := h.handles build hlen' hremote'
  refine ⟨w₁, w₂, hrun₁, hrun₂, ?_⟩
  rw [hheard₁, hheard₂, List.filter_filter]
  simp

theorem handles_frames_mixed :
    ∃ w₁ w₂, Handles .release
        [.carrying (bytes "?"), { Frame.carrying (bytes "g") with h₁ := 0x30, digit₁ := by decide },
          .carrying (bytes "qC")]
        (bytes "$?#3F$g#07$qC#B4") (.locked fun _ => .ok) w₁ ∧
      Handles .release [.carrying (bytes "?"), .carrying (bytes "qC")] (bytes "$?#3F$qC#B4")
        (.locked fun _ => .ok) w₂ ∧
      heard w₁.trace = heard w₂.trace :=
  handles_frames .release (reachable_locked .release _) rfl (fun _ => rfl)
    [.carrying (bytes "?"), { Frame.carrying (bytes "g") with h₁ := 0x30, digit₁ := by decide },
      .carrying (bytes "qC")] (by decide) (by decide)

end SessionStream
end NetBmp
