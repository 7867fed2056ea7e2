import NetBmp.Serve

/-!
# Writes that fail

A failed write leaves a TCP session aborted, and an aborted session must not be handed data.
The connection is given up at once if the last write for a packet succeeds. If it is the last
write that fails, the next result of `netconn_recv` is awaited, and data in it trip an
assertion.
-/

namespace NetBmp
namespace Abort

open Hex Halting Framing Server Serve

def Failed : Event → Prop
  | .write _ _ result => result ≠ .ok
  | _ => False

def IsCall : Event → Prop
  | .handle _ => True
  | _ => False

/-- Events without a failed write. -/
def Calm (events : List Event) : Prop := ∀ e ∈ events, ¬Failed e

/-- Once a write has failed, `gdb_session_handle` is not called any more. -/
def NoCallAfterFailure (events : List Event) : Prop :=
  events.Pairwise fun e later => Failed e → ¬IsCall later

theorem calm_append {xs ys : List Event} : Calm (xs ++ ys) ↔ Calm xs ∧ Calm ys :=
  List.forall_mem_append

theorem calm_singleton {e : Event} : Calm [e] ↔ ¬Failed e := List.forall_mem_singleton

theorem calm_cons {e : Event} {events : List Event} :
    Calm (e :: events) ↔ ¬Failed e ∧ Calm events := List.forall_mem_cons

theorem Calm.noCallAfterFailure {xs : List Event} (h : Calm xs) : NoCallAfterFailure xs :=
  List.pairwise_of_forall_mem_list fun e he _ _ hfailed => absurd hfailed (h e he)

theorem NoCallAfterFailure.append {xs ys : List Event} (hx : Calm xs)
    (hy : NoCallAfterFailure ys) : NoCallAfterFailure (xs ++ ys) :=
  List.pairwise_append.mpr
    ⟨hx.noCallAfterFailure, hy, fun e he _ _ hfailed => absurd hfailed (hx e he)⟩

theorem noCallAfterFailure_call (input : List UInt8) {tail : List Event}
    (h : ∀ e ∈ tail, ¬IsCall e) : NoCallAfterFailure (.handle input :: tail) :=
  List.pairwise_cons.mpr ⟨fun _ _ hfailed => hfailed.elim,
    List.pairwise_of_forall_mem_list fun _ _ later hlater _ => h later hlater⟩

/-- An active session of the network module. -/
structure Attached (w : World) : Prop extends Serving w where
  tcp : w.gdbSession.transport = .tcpIp
  network : w.gdbSession.pWriteCb = some .networkGdbWriteCb

theorem attached_of_lock {build : Build} {w₀ w : World} (hr : Reachable build w₀)
    (hlock : (gdbSessionLock .tcpIp .networkGdbWriteCb).run w₀ = .ok true w) : Attached w := by
  obtain ⟨-, hactive, htcp, hcb⟩ := gdbSessionLock_true hlock
  exact ⟨(Reachable.lock hr _ _ hlock).serving hactive, htcp, hcb⟩

/-- A TCP session goes on from `w` to `w'` with these events: it is aborted when a write fails,
and stays as it is otherwise. -/
structure Proceeds (w : World) (events : List Event) (w' : World) : Prop where
  trace_eq : w'.trace = w.trace ++ events
  tcp : w'.gdbSession.transport = .tcpIp
  calm : Calm events → w'.gdbSession.state = w.gdbSession.state
  failed : ¬Calm events → w'.gdbSession.state = .aborted

namespace Proceeds

variable {w w' w'' : World} {xs ys : List Event}

theorem refl (htcp : w.gdbSession.transport = .tcpIp) : Proceeds w [] w :=
  ⟨(List.append_nil _).symm, htcp, fun _ => rfl, fun h => absurd (List.forall_mem_nil _) h⟩

theorem trans (h : Proceeds w xs w') (h' : Proceeds w' ys w'') : Proceeds w (xs ++ ys) w'' where
  trace_eq := by rw [h'.trace_eq, h.trace_eq, List.append_assoc]
  tcp := h'.tcp
  calm hcalm := by
    obtain ⟨hx, hy⟩ := calm_append.mp hcalm
    rw [h'.calm hy, h.calm hx]
  failed hfailed := by
    by_cases hy : Calm ys
    · have hx : ¬Calm xs := fun hx => hfailed (calm_append.mpr ⟨hx, hy⟩)
      rw [h'.calm hy, h.failed hx]
    · exact h'.failed hy

theorem agrees (h : Proceeds w xs w') (hagrees : w'.Agrees w'') : Proceeds w xs w'' := by
  obtain ⟨i, o, rfl⟩ := hagrees
  exact ⟨h.trace_eq, h.tcp, h.calm, h.failed⟩

end Proceeds

theorem proceeds_perform {w : World} (htcp : w.gdbSession.transport = .tcpIp)
    (hcb : w.gdbSession.pWriteCb ≠ none) (action : Action) :
    ∃ e, Proceeds w [e] (w.perform action) ∧ ((∃ input, action = .handle input) ∨ ¬IsCall e) := by
  have hsilent : ∀ {w' : World} (e : Event), ¬Failed e → w'.trace = w.trace ++ [e] →
      w'.gdbSession.transport = .tcpIp → w'.gdbSession.state = w.gdbSession.state →
      Proceeds w [e] w' := fun e he htrace htcp' hstate =>
    ⟨htrace, htcp', fun _ => hstate, fun h => absurd (calm_singleton.mpr he) h⟩
  cases action with
  | handle input => exact ⟨_, hsilent _ id rfl htcp rfl, Or.inl ⟨input, rfl⟩⟩
  | consumed length => exact ⟨_, hsilent _ id rfl htcp rfl, Or.inr id⟩
  | execute stored => exact ⟨_, hsilent _ id rfl htcp rfl, Or.inr id⟩
  | send data =>
    obtain ⟨writeCb, hsome⟩ := Option.ne_none_iff_exists'.mp hcb
    refine ⟨.write writeCb data (w.writeResults 0), ?_, Or.inr id⟩
    have hcalm : Calm [.write writeCb data (w.writeResults 0)] ↔ w.writeResults 0 = .ok :=
      calm_singleton.trans not_not
    simp only [World.perform, World.send, hsome]
    exact ⟨rfl, htcp, fun h => by simp [hcalm.mp h], fun h => by simp [hcalm.not.mp h, htcp]⟩

theorem proceeds_performs {w : World} (htcp : w.gdbSession.transport = .tcpIp)
    (hcb : w.gdbSession.pWriteCb ≠ none) {actions : List Action}
    (hcalls : ∀ input, Action.handle input ∉ actions) :
    ∃ events, Proceeds w events (w.performs actions) ∧ ∀ e ∈ events, ¬IsCall e := by
  induction actions generalizing w with
  | nil => exact ⟨[], .refl htcp, List.forall_mem_nil _⟩
  | cons action actions ih =>
    obtain ⟨e, hstep, hcall⟩ := proceeds_perform htcp hcb action
    have hsilent : ¬IsCall e := by
      apply hcall.resolve_left
      rintro ⟨input, rfl⟩
      exact hcalls input (List.mem_cons_self ..)
    obtain ⟨events, hrest, hevents⟩ := ih hstep.tcp (by rwa [World.perform_pWriteCb])
      fun input h => hcalls input (List.mem_cons_of_mem _ h)
    exact ⟨e :: events, hstep.trans hrest, List.forall_mem_cons.mpr ⟨hsilent, hevents⟩⟩

/-- If the command of the first packet trips an assertion, then its acknowledgement is written:
the next write succeeds. -/
def TripsAcknowledged (build : Build) (w : World) (input : List UInt8) : Prop :=
  ∀ n, packetEnd input = some n → verdict (input.take n) = .ok →
    (∃ replies, respond build w.gdbSession.pTarget (storedBytes (input.take n)) = .ok replies) ∨
      w.writeResults 0 = .ok

/-- An assertion that is not about the state of the session, with no failed write before it. -/
def HaltsCalmly (w : World) (message : String) (w' : World) : Prop :=
  message ≠ "Session inactive." ∧ ∃ events, Proceeds w events w' ∧ Calm events

/-- What a call takes off its input: the first packet, or else everything. -/
def consumedOf (input : List UInt8) : ℕ := (packetEnd input).getD input.length

theorem consumedOf_bounds {input : List UInt8} (h : 0 < input.length) :
    0 < consumedOf input ∧ consumedOf input ≤ input.length := by
  unfold consumedOf
  cases hend : packetEnd input with
  | none => exact ⟨h, le_rfl⟩
  | some n => exact ⟨packetFramer.frameEnd_pos hend, packetFramer.frameEnd_le hend⟩

/-- An answer is given in full, or it stops at a bad digit before anything is written, or at a
command behind the acknowledgement. -/
theorem answer_cases (build : Build) (target : Option ℕ) (input : List UInt8) :
    answer build target input = ([.handle input], .error "Invalid hex nibble.") ∨
      (∃ actions, answer build target input = (.handle input :: actions, .ok (consumedOf input)) ∧
        ∀ data, Action.handle data ∉ actions) ∨
      ∃ n e, packetEnd input = some n ∧ verdict (input.take n) = .ok ∧
        respond build target (storedBytes (input.take n)) = .error e ∧
        answer build target input = ([.handle input, .send [GdbPacketChar.ack],
          .execute (storedBytes (input.take n))], .error e) := by
  by_cases hdigits : ∃ d ∈ digits .body input, ¬Accepted d
  · exact Or.inl (by rw [answer, if_pos hdigits])
  right
  have haccepted : ∀ d ∈ digits .body input, Accepted d := by
    push Not at hdigits
    exact hdigits
  unfold consumedOf
  cases hend : packetEnd input with
  | none => exact Or.inl ⟨_, answer_rest build target hend haccepted, by simp⟩
  | some n =>
    by_cases hpacket : HarmlessPacket build target (input.take n)
    · refine Or.inl ⟨_, answer_packet hend hpacket, fun data hdata => ?_⟩
      rcases List.mem_append.mp hdata with hmem | hmem
      · rcases mem_packetActions hmem with ⟨_, hsend⟩ | ⟨_, hexecute⟩ <;> contradiction
      · simp at hmem
    · have hdigits' : ∀ d ∈ digits .body (input.take n), Accepted d := by
        rwa [(scan_take hend).2.1]
      have htrips : ¬(verdict (input.take n) = .ok →
          ∃ replies, respond build target (storedBytes (input.take n)) = .ok replies) :=
        fun hcommand => hpacket ⟨hdigits', hcommand⟩
      push Not at htrips
      obtain ⟨hok, hrespond⟩ := htrips
      cases hr : respond build target (storedBytes (input.take n)) with
      | ok replies => exact absurd hr (hrespond replies)
      | error e =>
        refine Or.inr ⟨n, e, rfl, hok, hr, ?_⟩
        rw [answer, if_neg hdigits, hend]
        simp only [hok, hr, ↓reduceIte]

theorem Attached.proceeds_trip {w : World} (h : Attached w) (hwritten : w.writeResults 0 = .ok)
    (input stored : List UInt8) :
    ∃ events, Proceeds w events (w.performs [.handle input, .send [GdbPacketChar.ack],
      .execute stored]) ∧ Calm events := by
  let events : List Event := [.handle input,
    .write .networkGdbWriteCb [GdbPacketChar.ack] .ok, .execute stored]
  have hcalm : Calm events := by simp [events, Calm, Failed]
  refine ⟨events, ⟨?_, ?_, fun _ => ?_, fun hn => absurd hcalm hn⟩, hcalm⟩
  · simp [events, World.perform, World.send, h.network, hwritten]
  · simp [World.perform, h.tcp]
  · simp [World.perform, World.send, h.network, hwritten]

theorem Attached.handle_cases {w : World} (h : Attached w) (build : Build) {input : List UInt8}
    (htrips : TripsAcknowledged build w input) :
    (∃ e w', (gdbSessionHandle build input).run w = .error e w' ∧ HaltsCalmly w e w') ∨
      ∃ w' tail, (gdbSessionHandle build input).run w = .ok (consumedOf input) w' ∧
        Proceeds w (.handle input :: tail) w' ∧ (∀ e ∈ tail, ¬IsCall e) ∧
        (Calm tail → Attached w') := by
  have hquiet : Calm [.handle input] := calm_singleton.mpr id
  have hcall : Proceeds w [.handle input] (w.perform (.handle input)) :=
    ⟨rfl, h.tcp, fun _ => rfl, fun hn => absurd hquiet hn⟩
  rcases answer_cases build w.gdbSession.pTarget input with
    ha | ⟨actions, ha, hcalls⟩ | ⟨n, e, hend, hok, hrespond, ha⟩
  · obtain ⟨w', hrun, hagrees⟩ := h.toServing.handle_error ha
    exact Or.inl ⟨_, w', hrun, by decide, [.handle input], hcall.agrees hagrees, hquiet⟩
  · obtain ⟨w', hrun, hagrees, hready, hack⟩ := h.toServing.handle_ok ha
    obtain ⟨tail, hrest, htail⟩ := proceeds_performs hcall.tcp h.callback hcalls
    have hproceeds : Proceeds w (.handle input :: tail) w' := (hcall.trans hrest).agrees hagrees
    have hcb := World.performs_pWriteCb w (.handle input :: actions)
    refine Or.inr ⟨w', tail, hrun, hproceeds, htail, fun hcalm => ?_⟩
    have hactive : w'.gdbSession.state = .active := by
      rw [hproceeds.calm (calm_cons.mpr ⟨id, hcalm⟩), h.active]
    refine ⟨⟨hready, hactive, hack⟩, hproceeds.tcp, ?_⟩
    obtain ⟨i, o, rfl⟩ := hagrees
    exact hcb.trans h.network
  · -- the command trips an assertion, so its acknowledgement has been written
    have hwritten : w.writeResults 0 = .ok := by
      apply (htrips n hend hok).resolve_left
      rintro ⟨replies, hreplies⟩
      rw [hrespond] at hreplies
      cases hreplies
    obtain ⟨w', hrun, hagrees⟩ := h.toServing.handle_error ha
    obtain ⟨events, hproceeds, hcalm⟩ :=
      h.proceeds_trip hwritten input (storedBytes (input.take n))
    have hmessage : e ≠ "Session inactive." := by
      rintro rfl
      exact absurd (respond_eq_error hrespond) (by decide)
    exact Or.inl ⟨e, w', hrun, hmessage, events, hproceeds.agrees hagrees, hcalm⟩

/-- What has become of a session: it has halted calmly, or else `P` holds of what is returned
and whether the events were calm. -/
def Outcome {α : Type} (P : Prop → α → World → Prop) (w : World) :
    EStateM.Result String World α → Prop
  | .ok a w' => ∃ events, Proceeds w events w' ∧ NoCallAfterFailure events ∧ P (Calm events) a w'
  | .error e w' => HaltsCalmly w e w'

theorem Outcome.after {α : Type} {P : Prop → α → World → Prop} {w w₁ : World} {xs : List Event}
    (h : Proceeds w xs w₁) (hcalm : Calm xs) {r : EStateM.Result String World α}
    (hr : Outcome P w₁ r) : Outcome P w r := by
  match r, hr with
  | .ok a w', ⟨ys, hproceeds, hcalls, hend⟩ =>
    have hsame : Calm (xs ++ ys) = Calm ys := propext (calm_append.trans (and_iff_right hcalm))
    exact ⟨xs ++ ys, h.trans hproceeds, .append hcalm hcalls, hsame ▸ hend⟩
  | .error e w', ⟨hmessage, ys, hproceeds, hys⟩ =>
    exact ⟨hmessage, xs ++ ys, h.trans hproceeds, calm_append.mpr ⟨hcalm, hys⟩⟩

/-- When `network_serve_gdb` is left, it asks to go on if no write has failed. -/
def LoopOutcome : World → EStateM.Result String World ErrT → Prop :=
  Outcome fun calm err w' => calm → err = .ok ∧ Attached w'

/-- What has been consumed before each call of the session in the loop, and the world then. -/
inductive Reaches (build : Build) (data : List UInt8) : ℕ → World → ℕ → World → Prop
  | refl (total : ℕ) (w : World) : Reaches build data total w total w
  | step {total k total' : ℕ} {w w₁ w' : World}
      (h : (gdbSessionHandle build (data.drop total)).run w = .ok k w₁)
      (hactive : w₁.gdbSession.state = .active)
      (hrest : Reaches build data (total + k) w₁ total' w') : Reaches build data total w total' w'

/-- The loop gives up its data once a write has failed. -/
theorem loop_cases (build : Build) (data : List UInt8) {total : ℕ} {w : World}
    (hle : total ≤ data.length) (h : Attached w)
    (htrips : ∀ total' w', Reaches build data total w total' w' →
      TripsAcknowledged build w' (data.drop total')) :
    LoopOutcome w ((networkServeGdbLoop build data total).run w) := by
  induction hm : data.length - total using Nat.strong_induction_on generalizing total w with
  | _ m ih =>
    rcases Nat.eq_or_lt_of_le hle with hdone | hlt
    · rw [run_loop_done build hdone]
      exact ⟨[], .refl h.tcp, .nil, fun _ => ⟨rfl, h⟩⟩
    rcases h.handle_cases build (htrips total w (.refl total w)) with
      ⟨e, w', hrun, hhalts⟩ | ⟨w', tail, hrun, hproceeds, htail, hcalm⟩
    · rw [run_loop_error hlt hrun]
      exact hhalts
    obtain ⟨hpos, hbound⟩ := consumedOf_bounds (List.length_drop ▸ Nat.sub_pos_of_lt hlt)
    replace hbound := hbound.trans_eq List.length_drop
    rw [run_loop_ok hlt hrun hpos.ne']
    have hcalls := noCallAfterFailure_call (data.drop total) htail
    by_cases hevents : Calm (.handle (data.drop total) :: tail)
    · have hattached := hcalm (calm_cons.mp hevents).2
      split_ifs with herr hstate
      · exact ⟨_, hproceeds, hcalls, fun _ => ⟨rfl, hattached⟩⟩
      · simp [hattached.active] at hstate
      · have hrest := ih _ (by omega) (by omega) hattached
          (fun total' w'' hreaches => htrips total' w'' (.step hrun hattached.active hreaches)) rfl
        exact hrest.after hproceeds hevents
    · -- the session is aborted, so one of the two early returns is taken
      have hstate := hproceeds.failed hevents
      split_ifs
      · exact ⟨_, hproceeds, hcalls, fun hn => absurd hn hevents⟩
      · exact ⟨_, hproceeds, hcalls, fun hn => absurd hn hevents⟩

/-- The results of `netconn_recv` from `w` on: no data reach an aborted session, it is not kept
waiting, and no command trips an assertion whose acknowledgement was not written. -/
def Meets (build : Build) : List RecvResult → World → Prop
  | [], w => w.gdbSession.state ≠ .aborted
  | .failed _ _ :: _, _ => True
  | .received netbuf :: results, w =>
    (∀ data, netbufData netbuf = some data →
      (w.gdbSession.state = .aborted → data = []) ∧
      ∀ total w', Reaches build data 0 w total w' →
        TripsAcknowledged build w' (data.drop total)) ∧
    ∀ w', (networkServeGdb build netbuf).run w = .ok .ok w' → Meets build results w'

theorem run_networkServeGdb_empty (build : Build) {netbuf : Netbuf}
    (h : ∀ data, netbufData netbuf = some data → data = []) (w : World) :
    (networkServeGdb build netbuf).run w = .ok .ok w := by
  unfold networkServeGdb
  cases hdata : netbufData netbuf with
  | none => rfl
  | some data =>
    obtain rfl := h data hdata
    exact run_loop_done build rfl w

/-- An aborted session waits for `netconn_recv` to fail. -/
theorem serve_aborted (build : Build) {results : List RecvResult} {w : World}
    (h : w.gdbSession.state = .aborted) (hmeets : Meets build results w) :
    ∃ err, (networkServe build results).run w = .ok (some err) w := by
  induction results with
  | nil => exact absurd h hmeets
  | cons result results ih =>
    cases result with
    | failed err herr => exact ⟨err, rfl⟩
    | received netbuf =>
      have hrun := run_networkServeGdb_empty build
        (fun data hdata => (hmeets.1 data hdata).1 h) w
      obtain ⟨err, hrest⟩ := ih (hmeets.2 w hrun)
      exact ⟨err, by rw [networkServe, run_bind_of_ok hrun, if_pos rfl, hrest]⟩

theorem serve_aborted_data (build : Build) {netbuf : Netbuf} {data : List UInt8}
    (hdata : netbufData netbuf = some data) (hne : data ≠ []) (results : List RecvResult)
    {w : World} (h : w.gdbSession.state = .aborted) :
    ∃ w', (networkServe build (.received netbuf :: results)).run w =
      .error "Session inactive." w' := by
  have hhandle := run_handle_inactive build (w := w) (by simp [h]) data
  have hgdb : (networkServeGdb build netbuf).run w =
      .error "Session inactive." (w.perform (.handle data)) := by
    rw [networkServeGdb, hdata]
    exact run_loop_error (List.length_pos_iff.mpr hne) hhandle
  exact ⟨_, run_bind_of_error hgdb _⟩

/-- The error of the last write is not reported: the loop ends as if all data were served. -/
theorem run_networkServeGdb_failed {build : Build} {netbuf : Netbuf} {data : List UInt8}
    (hdata : netbufData netbuf = some data) (hne : data ≠ []) {w w' : World} {k : ℕ}
    (hrun : (gdbSessionHandle build data).run w = .ok k w') (hk : k ≠ 0)
    (herr : w'.networkErr ≠ .ok) : (networkServeGdb build netbuf).run w = .ok .ok w' := by
  rw [networkServeGdb, hdata]
  exact (run_loop_ok (List.length_pos_iff.mpr hne) hrun hk).trans (if_pos herr)

theorem gdb_cases (build : Build) {netbuf : Netbuf} {w : World} (h : Attached w)
    (htrips : ∀ data, netbufData netbuf = some data → ∀ total w', Reaches build data 0 w total w' →
      TripsAcknowledged build w' (data.drop total)) :
    LoopOutcome w ((networkServeGdb build netbuf).run w) := by
  unfold networkServeGdb
  cases hdata : netbufData netbuf with
  | none => exact ⟨[], .refl h.tcp, .nil, fun _ => ⟨rfl, h⟩⟩
  | some data => exact loop_cases build data (Nat.zero_le _) h (htrips data hdata)

/-- When `network_serve` waits for a result, no write has failed. -/
def ServeOutcome : World → EStateM.Result String World (Option ErrT) → Prop :=
  Outcome fun calm r _ => ¬calm → r ≠ none

theorem serve_cases (build : Build) {results : List RecvResult} {w : World} (h : Attached w)
    (hmeets : Meets build results w) :
    ServeOutcome w ((networkServe build results).run w) := by
  induction results generalizing w with
  | nil => exact ⟨[], .refl h.tcp, .nil, fun hn => absurd (List.forall_mem_nil _) hn⟩
  | cons result results ih =>
    cases result with
    | failed err herr => exact ⟨[], .refl h.tcp, .nil, fun _ => by simp⟩
    | received netbuf =>
      have houtcome := gdb_cases build h fun data hdata => (hmeets.1 data hdata).2
      match hrun : (networkServeGdb build netbuf).run w with
      | .error e w₁ =>
        rw [hrun] at houtcome
        rw [networkServe, run_bind_of_error hrun]
        exact houtcome
      | .ok err w₁ =>
        rw [hrun] at houtcome
        obtain ⟨events, hproceeds, hcalls, hcalm⟩ := houtcome
        rw [networkServe, run_bind_of_ok hrun]
        by_cases hevents : Calm events
        · obtain ⟨rfl, hattached⟩ := hcalm hevents
          exact (ih hattached (hmeets.2 w₁ hrun)).after hproceeds hevents
        split_ifs with herr
        · subst herr
          obtain ⟨err, hrest⟩ := serve_aborted build (hproceeds.failed hevents) (hmeets.2 w₁ hrun)
          rw [hrest]
          exact ⟨events, hproceeds, hcalls, fun _ => by simp⟩
        · exact ⟨events, hproceeds, hcalls, fun _ => by simp⟩

/-- A TCP session in which nothing is handled any more once a write has failed, and which is
then released. -/
def EndsAfterFailure (build : Build) (results : List RecvResult) (w : World) : Prop :=
  match (networkTcpServer build results).run w with
  | .ok connection w' => ∃ events, w'.trace = w.trace ++ events ∧ NoCallAfterFailure events ∧
      (¬Calm events → ∃ err, connection = .closed err ∧ w'.gdbSession.state = .idle ∧
        w'.gdbSession.lock = false)
  | .error e w' => e ≠ "Session inactive." ∧
      ∃ events, w'.trace = w.trace ++ events ∧ Calm events

theorem run_networkTcpServer {build : Build} {results : List RecvResult} {w w₁ : World}
    (hlock : (gdbSessionLock .tcpIp .networkGdbWriteCb).run w = .ok true w₁) :
    (networkTcpServer build results).run w =
      match (networkServe build results).run w₁ with
      | .ok none w' => .ok .waiting w'
      | .ok (some err) w' => .ok (.closed err) { w' with
          gdbSession := { w'.gdbSession with
            properties := ⟨false, false, false⟩
            transport := .none
            state := .idle
            lock := false } }
      | .error e w' => .error e w' := by
  rw [networkTcpServer, run_bind_of_ok hlock]
  match hrun : (networkServe build results).run w₁ with
  | .ok none w' => exact run_bind_of_ok hrun _
  | .ok (some err) w' => exact run_bind_of_ok hrun _
  | .error e w' => exact run_bind_of_error hrun _

theorem tripsAcknowledged_of_short (build : Build) (w : World) {input : List UInt8}
    (h : input.length < 6) : TripsAcknowledged build w input := by
  intro n hend hok
  refine Or.inl (SessionStream.respond_ok build _ fun hremote => ?_)
  have hsix : (bytes "qRcmd,").length = 6 := by decide
  have hle := hremote.length_le
  have hkept : (kept (input.take n)).length ≤ input.length :=
    (List.length_filter_le _ _).trans (List.take_sublist n input).length_le
  simp only [hsix, storedBytes, List.length_drop, List.length_take, List.length_append,
    List.length_singleton] at hle
  omega

theorem serve_stopReason_failed {writeResults : ℕ → ErrT} (hfailed : writeResults 1 = .abrt)
    (h : Attached (.locked writeResults)) : ∃ w,
      (networkServeGdb .release (.single (bytes "$?#3F"))).run (.locked writeResults) = .ok .ok w ∧
      w.networkErr = .abrt ∧ w.gdbSession.state = .aborted ∧
      w.writeResults = fun n => writeResults (n + 2) := by
  have hresult : (World.locked writeResults).writeResults 1 = .abrt := hfailed
  obtain ⟨w, hhandle, ⟨i, o, hw⟩, -⟩ := h.toServing.handle_ok SessionStream.answer_stopReason
  have herr : w.networkErr = .abrt := by
    simp [hw, World.perform, World.send, h.network, hresult, World.withOutput, World.withInput]
  have haborted : w.gdbSession.state = .aborted := by
    simp [hw, World.perform, World.send, h.network, h.tcp, hresult, World.withOutput,
      World.withInput]
  have hrest : w.writeResults = fun n => writeResults (n + 2) := by
    funext n
    show _ = (World.locked writeResults).writeResults (n + 2)
    simp [hw, World.perform, World.send, h.network, World.withOutput, World.withInput]
  have hdata : netbufData (.single (bytes "$?#3F")) = some (bytes "$?#3F") := rfl
  exact ⟨w, run_networkServeGdb_failed hdata (by decide) hhandle (by decide) (by simp [herr]),
    herr, haborted, hrest⟩

end Abort
end NetBmp
