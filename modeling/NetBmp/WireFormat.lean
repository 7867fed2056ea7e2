import NetBmp.Answers
import NetBmp.Effects
import NetBmp.FrameGrammar

/-!
# What goes over the wire

The length of a packet counts the NUL behind its frame, and so every reply is written with it.
Only acknowledgements are written as they should be.
-/

namespace NetBmp
namespace WireFormat

open Hex Halting Framing Server SessionStream Answers Effects FrameGrammar

inductive Call
  | lock (transport : GdbSessionTransport) (writeCb : GdbWriteCb)
  | handle (input : List UInt8)
  | release

def Call.run (build : Build) : Call → Routine Unit
  | .lock transport writeCb => do
    let _ ← gdbSessionLock transport writeCb
    return
  | .handle input => do
    let _ ← gdbSessionHandle build input
    return
  | .release => gdbSessionRelease

/-- Calls one after the other, until one of them trips an assertion. -/
def runCalls (build : Build) : List Call → Routine Unit
  | [] => return
  | call :: calls => do
    call.run build
    runCalls build calls

/-- An acknowledgement, or a frame with nothing before or after it. -/
def Framed (data : List UInt8) : Prop :=
  data = [GdbPacketChar.ack] ∨ data = [GdbPacketChar.nack] ∨ ∃ f : BinaryFrame, data = f.bytes

/-- A monitor command without a reply: it cannot be decoded, has no argument, or trips an
assertion by its first argument. -/
def Unanswered (build : Build) (stored : List UInt8) : Prop :=
  bytes "qRcmd," <+: stored.drop 1 ∧
    ∀ message token, strFromHex (stored.drop 7) (stored.length - 10)
        (List.replicate gdbQueryMessageMaxLength 0) = .ok message →
      (gdbGetArgs message).2.head? = some token →
      token.headD 0 = GdbPacketChar.start ∨ (bytes "version" <+: token ∧
        1010 < build.version.chars.length + build.commitHash.chars.length)

/-- If the reader accepts a packet from the input, then it is one without a reply. -/
def Quiet (build : Build) (input : List UInt8) : Prop :=
  ∀ q k, gdbPacketReadStream .zero input = .ok (.ok, q, k) → Unanswered build q.stored

/-- The NUL behind a frame does not belong to it. -/
theorem not_framed_reply (reply : List UInt8) : ¬Framed (wire reply ++ [0]) := by
  have hlength : (wire reply ++ [0]).length = reply.length + 5 := by simp
  rintro (h | h | ⟨f, h⟩)
  · have hone := congrArg List.length h
    rw [hlength, List.length_singleton] at hone
    omega
  · have hone := congrArg List.length h
    rw [hlength, List.length_singleton] at hone
    omega
  · have hsplit : f.bytes = (GdbPacketChar.start :: f.payload ++ [GdbPacketChar.stop, f.h₁]) ++
        [f.h₂] := by simp [BinaryFrame.bytes]
    rw [hsplit] at h
    obtain ⟨-, hlast⟩ := List.append_inj' h rfl
    have hzero : f.h₂ = 0 := (List.singleton_inj.mp hlast).symm
    have hdigit := f.digit₂
    rw [hzero] at hdigit
    exact absurd hdigit (by decide)

theorem unanswered_iff (build : Build) (target : Option ℕ) (stored : List UInt8) :
    Unanswered build stored ↔ ∀ replies, respond build target stored = .ok replies → replies = [] := by
  constructor
  · rintro ⟨hremote, htoken⟩ replies hreplies
    rw [respond_remote_eq build target hremote] at hreplies
    cases hdecode : strFromHex (stored.drop 7) (stored.length - 10)
        (List.replicate gdbQueryMessageMaxLength 0) with
    | error e =>
      rw [hdecode] at hreplies
      cases hreplies
    | ok message =>
      rw [hdecode, ok_bind] at hreplies
      apply (monitor_ok_cases hreplies).resolve_right
      intro hone
      obtain ⟨reply, rfl⟩ : ∃ reply, replies = [reply] := by
        rcases hone with rfl | ⟨text, -, rfl⟩ <;> exact ⟨_, rfl⟩
      obtain ⟨token, hhead, hstart, hfits⟩ := (monitor_single_iff build _).mp ⟨reply, hreplies⟩
      rcases htoken message token hdecode hhead with hs | ⟨hversion, hlong⟩
      · exact hstart hs
      · exact absurd (hfits hversion) (not_le.mpr hlong)
  · intro h
    by_cases hremote : bytes "qRcmd," <+: stored.drop 1
    · refine ⟨hremote, fun message token hdecode hhead => ?_⟩
      by_contra hsound
      push Not at hsound
      have hmonitor := (monitor_single_iff build (gdbGetArgs message).2).mpr
        ⟨token, hhead, hsound.1, fun hversion => hsound.2 hversion⟩
      obtain ⟨reply, hreply⟩ := hmonitor
      rw [respond_remote_eq build target hremote, hdecode] at h
      exact absurd (h [reply] hreply) (List.cons_ne_nil _ _)
    · by_cases hbreakpoint : command stored ∈ bytes "zZ"
      · have hthree : respond build target stored = .ok [bytes "E01", bytes "OK", []] := by
          have hlist : bytes "zZ" = ['z'.toUInt8, 'Z'.toUInt8] := by decide
          rw [hlist] at hbreakpoint
          rcases List.mem_pair.mp hbreakpoint with hc | hc <;> rw [respond, hc] <;> rfl
        exact absurd (h _ hthree) (List.cons_ne_nil _ _)
      · obtain ⟨reply, hreply⟩ := respond_single build target hremote hbreakpoint
        exact absurd (h _ hreply) (List.cons_ne_nil _ _)

theorem sentBy_replies (replies : List (List UInt8)) (k : ℕ) :
    sentBy ((replies.map fun reply => .send (wire reply ++ [0])) ++ [.consumed k]) =
      replies.map fun reply => wire reply ++ [0] := by
  induction replies with
  | nil => rfl
  | cons reply replies ih => exact congrArg (_ :: ·) ih

theorem framed_accepted_iff (build : Build) (target : Option ℕ) {input : List UInt8} {k : ℕ}
    (hdigits : ∀ d ∈ digits .body input, Accepted d) (hend : packetEnd input = some k)
    (hok : verdict (input.take k) = .ok) :
    (∀ data ∈ sentBy (answer build target input).1, Framed data) ↔
      ∀ replies, respond build target (storedBytes (input.take k)) = .ok replies → replies = [] := by
  have hack : Framed [GdbPacketChar.ack] := Or.inl rfl
  rw [answer, if_neg (by push Not; exact hdigits), hend]
  simp only [hok, ↓reduceIte]
  cases hr : respond build target (storedBytes (input.take k)) with
  | error e =>
    refine iff_of_true (List.forall_mem_singleton.mpr hack) fun replies h => ?_
    cases h
  | ok replies =>
    have hsent : sentBy (.handle input :: .send [GdbPacketChar.ack] ::
        .execute (storedBytes (input.take k)) ::
          (replies.map fun reply => .send (wire reply ++ [0])) ++ [.consumed k]) =
        [GdbPacketChar.ack] :: replies.map fun reply => wire reply ++ [0] :=
      congrArg ([GdbPacketChar.ack] :: ·) (sentBy_replies replies k)
    rw [hsent, List.forall_mem_cons, and_iff_right hack]
    constructor
    · intro h replies' hreplies
      cases hreplies
      cases replies with
      | nil => rfl
      | cons reply _ => exact absurd (h _ (List.mem_cons_self ..)) (not_framed_reply reply)
    · intro h
      rw [h replies rfl]
      exact List.forall_mem_nil _

/-- What a call sends is framed exactly when the input is quiet. -/
theorem framed_answer_iff (build : Build) (target : Option ℕ) (input : List UInt8) :
    (∀ data ∈ sentBy (answer build target input).1, Framed data) ↔ Quiet build input := by
  have hnothing : ∀ data ∈ ([] : List (List UInt8)), Framed data := List.forall_mem_nil _
  have hnack : Framed [GdbPacketChar.nack] := Or.inr (Or.inl rfl)
  rcases readStream_cases .zero input with
    ⟨hbad, hread⟩ | ⟨hdigits, hend, q, hread, -⟩ | ⟨hdigits, k, hend, q, hread, hbuilt⟩
  · rw [answer, if_pos hbad]
    refine iff_of_true hnothing fun q' k' hq => ?_
    rw [hread] at hq
    cases hq
  · rw [answer, if_neg (by push Not; exact hdigits), hend]
    refine iff_of_true hnothing fun q' k' hq => ?_
    rw [hread] at hq
    cases hq
  rcases verdict_cases (input.take k) with hok | hrefused
  · rw [framed_accepted_iff build target hdigits hend hok, ← unanswered_iff, ← hbuilt.stored]
    constructor
    · intro h q' k' hq
      rw [hread, hok] at hq
      cases hq
      exact h
    · exact fun h => h q k (hok ▸ hread)
  · have hne : verdict (input.take k) ≠ .ok := by simp [hrefused]
    rw [answer, if_neg (by push Not; exact hdigits), hend]
    simp only [hne, ↓reduceIte]
    refine iff_of_true (List.forall_mem_singleton.mpr hnack) fun q' k' hq => ?_
    rw [hread, hrefused] at hq
    cases hq

/-- The condition on one call: what an active session is handed is quiet. -/
def QuietCall (build : Build) (w : World) : Call → Prop
  | .handle input => w.gdbSession.state = .active → Quiet build input
  | _ => True

def QuietRun (build : Build) : List Call → World → Prop
  | [], _ => True
  | call :: calls, w => QuietCall build w call ∧
      ∀ w', (call.run build).run w = .ok () w' → QuietRun build calls w'

/-- What is written from `w` to `w'` is framed exactly when `P` holds. -/
def FramedIff (w w' : World) (P : Prop) : Prop :=
  ∃ events, w'.trace = w.trace ++ events ∧ ((∀ data ∈ written events, Framed data) ↔ P)

theorem framedIff_silent {w w' : World} (h : w'.trace = w.trace) {P : Prop} (hP : P) :
    FramedIff w w' P :=
  ⟨[], by rw [h, List.append_nil], iff_of_true (fun _ hdata => (by cases hdata)) hP⟩

theorem framedIff_handle (build : Build) {w : World} (h : Sound w) (input : List UInt8) :
    FramedIff w (endOf ((gdbSessionHandle build input).run w))
      (QuietCall build w (.handle input)) := by
  by_cases hactive : w.gdbSession.state = .active
  · have hserving := h.serving hactive
    obtain ⟨writeCb, hcb⟩ := Option.ne_none_iff_exists'.mp hserving.callback
    refine ⟨_, handle_trace hserving hcb build input, ?_⟩
    rw [written_eventsOf, framed_answer_iff]
    exact ⟨fun hquiet _ => hquiet, fun hquiet => hquiet hactive⟩
  · rw [run_handle_inactive build hactive input]
    exact ⟨[.handle input], rfl, iff_of_true (fun _ hdata => (by cases hdata))
      fun ha => absurd ha hactive⟩

theorem framedIff_call (build : Build) {w : World} (h : Sound w) (call : Call) :
    FramedIff w (endOf ((call.run build).run w)) (QuietCall build w call) ∧
      ∀ w', (call.run build).run w = .ok () w' → Sound w' := by
  cases call with
  | lock transport writeCb =>
    cases hl : w.gdbSession.lock with
    | true =>
      have hlock := run_gdbSessionLock transport writeCb w
      rw [hl, if_pos rfl] at hlock
      rw [Call.run, run_bind_of_ok hlock]
      refine ⟨framedIff_silent rfl trivial, fun w' hw' => ?_⟩
      cases hw'
      exact h
    | false =>
      have hlock := run_gdbSessionLock_free hl transport writeCb
      rw [Call.run, run_bind_of_ok hlock]
      refine ⟨framedIff_silent rfl trivial, fun w' hw' => ?_⟩
      cases hw'
      exact sound_gdbSessionLock h hlock
  | handle input =>
    have hframed := framedIff_handle build h input
    rw [Call.run]
    cases hrun : (gdbSessionHandle build input).run w with
    | ok k w₁ =>
      rw [run_bind_of_ok hrun]
      rw [hrun] at hframed
      refine ⟨hframed, fun w' hw' => ?_⟩
      cases hw'
      exact sound_gdbSessionHandle h (active_of_handle hrun) hrun
    | error e w₁ =>
      rw [run_bind_of_error hrun]
      rw [hrun] at hframed
      refine ⟨hframed, fun w' hw' => ?_⟩
      cases hw'
  | release =>
    refine ⟨framedIff_silent rfl trivial, fun w' hw' => ?_⟩
    exact sound_gdbSessionRelease h hw'

theorem framedIff_calls (build : Build) (calls : List Call) {w : World} (h : Sound w) :
    FramedIff w (endOf ((runCalls build calls).run w)) (QuietRun build calls w) := by
  induction calls generalizing w with
  | nil => exact framedIff_silent rfl trivial
  | cons call calls ih =>
    obtain ⟨⟨events, htrace, hiff⟩, hsound⟩ := framedIff_call build h call
    cases hrun : (call.run build).run w with
    | error e w₁ =>
      rw [hrun] at htrace
      rw [runCalls, run_bind_of_error hrun]
      refine ⟨events, htrace, hiff.trans (and_iff_left fun w' hw' => ?_).symm⟩
      rw [hrun] at hw'
      cases hw'
    | ok _ w₁ =>
      have hfirst : w₁.trace = w.trace ++ events := by simpa only [hrun, endOf] using htrace
      obtain ⟨later, hrest, hiff'⟩ := ih (hsound w₁ hrun)
      rw [runCalls, run_bind_of_ok hrun]
      refine ⟨events ++ later, ?_, ?_⟩
      · rw [hrest, hfirst, List.append_assoc]
      · rw [written, List.filterMap_append, List.forall_mem_append]
        refine and_congr hiff (hiff'.trans ⟨fun hquiet w' hw' => ?_, fun hquiet => hquiet w₁ hrun⟩)
        rw [hrun] at hw'
        cases hw'
        exact hquiet

/-- The world after `gdb_session_init`. -/
def initialized (writeResults : ℕ → ErrT) : World := endOf (gdbSessionInit.run (.boot writeResults))

/-- All that is written in a run is framed exactly when no packet in it has a reply. -/
theorem framed_iff_quiet (build : Build) (writeResults : ℕ → ErrT) (calls : List Call) :
    (∀ data ∈ written (endOf ((runCalls build calls).run (initialized writeResults))).trace,
        Framed data) ↔ QuietRun build calls (initialized writeResults) := by
  have hreachable : Reachable build (initialized writeResults) := .init writeResults rfl
  obtain ⟨events, htrace, hiff⟩ := framedIff_calls build calls hreachable.sound
  rw [htrace]
  exact hiff

/-- The reply to the first packet of a session ends in a NUL. -/
theorem stop_reason_not_framed :
    bytes "$W00#B7" ++ [0] ∈ written (endOf ((runCalls .release [.lock .tcpIp .networkGdbWriteCb,
        .handle (bytes "$?#3F")]).run (initialized fun _ => .ok))).trace ∧
      ¬Framed (bytes "$W00#B7" ++ [0]) := by
  have hwire : bytes "$W00#B7" = wire (bytes "W00") := by decide
  obtain ⟨w, hrun, -, -, htrace⟩ := continues_locked.handle_ok answer_stopReason
  have hlock : ((Call.lock .tcpIp .networkGdbWriteCb).run .release).run
      (initialized fun _ => .ok) = .ok () (.locked fun _ => .ok) := rfl
  have hhandle : ((Call.handle (bytes "$?#3F")).run .release).run (.locked fun _ => .ok) =
      .ok () w := run_bind_of_ok hrun _
  have hcalls : (runCalls .release [.lock .tcpIp .networkGdbWriteCb,
      .handle (bytes "$?#3F")]).run (initialized fun _ => .ok) = .ok () w := by
    rw [runCalls, run_bind_of_ok hlock, runCalls, run_bind_of_ok hhandle]
    rfl
  rw [hcalls, endOf, htrace, hwire]
  refine ⟨?_, not_framed_reply (bytes "W00")⟩
  have hsent : wire (bytes "W00") ++ [0] ∈ [[GdbPacketChar.ack], wire (bytes "W00") ++ [0]] :=
    .tail _ (.head _)
  exact hsent

end WireFormat
end NetBmp
