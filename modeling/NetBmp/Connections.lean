import NetBmp.Effects

/-!
# Connections do not influence each other

Earlier connections leave their bytes in the packets and the error of their last write in the
network module. A new connection cannot tell: its session is dispatched on what it receives, and
a stale error ends the loop only after a call without a write, which has consumed all that was
left anyway.
-/

namespace NetBmp
namespace Connections

open Hex Halting Framing Server SessionStream Serve Abort Effects

/-- The worlds after earlier TCP connections that have all been closed. -/
inductive History (build : Build) : World → Prop
  | init {w : World} (writeResults : ℕ → ErrT)
      (h : gdbSessionInit.run (.boot writeResults) = .ok () w) : History build w
  | connection {w w' : World} {err : ErrT} (hw : History build w) (results : List RecvResult)
      (h : (networkTcpServer build results).run w = .ok (.closed err) w') : History build w'

/-- What `network_serve_gdb` returns, call by call. -/
def servedReturns (build : Build) : List RecvResult → World → List ErrT
  | .received netbuf :: results, w =>
    match (networkServeGdb build netbuf).run w with
    | .ok err w' => err :: if err = .ok then servedReturns build results w' else []
    | .error _ _ => []
  | _, _ => []

/-- What can be told of a connection: what becomes of it or the assertion that it trips, what
`network_serve_gdb` returns, and the events, with all lengths consumed and all writes. -/
structure Transcript where
  outcome : Except String Connection
  returned : List ErrT
  events : List Event

def transcript (build : Build) (results : List RecvResult) (w : World) : Transcript where
  outcome := outcomeOf ((networkTcpServer build results).run w)
  returned := servedReturns build results (w.lockBy .tcpIp .networkGdbWriteCb)
  events := (endOf ((networkTcpServer build results).run w)).trace.drop w.trace.length

/-- What holds between connections. -/
structure Vacated (w : World) : Prop where
  sound : Sound w
  free : w.gdbSession.lock = false
  target : w.gdbSession.pTarget = none

theorem sound_target_handle {build : Build} {w w' : World} {input : List UInt8} {k : ℕ}
    (h : Sound w ∧ w.gdbSession.pTarget = none)
    (hrun : (gdbSessionHandle build input).run w = .ok k w') :
    Sound w' ∧ w'.gdbSession.pTarget = none := by
  have hactive := active_of_handle hrun
  refine ⟨sound_gdbSessionHandle h.1 hactive hrun, ?_⟩
  obtain ⟨actions, -, ⟨i, o, rfl⟩, -⟩ := (h.1.serving hactive).of_handle hrun
  exact (World.performs_pTarget w actions).trans h.2

theorem History.vacated {build : Build} {w : World} (h : History build w) : Vacated w := by
  induction h with
  | init writeResults h =>
    cases h
    exact ⟨⟨rfl, by simp [World.boot, GdbPacket.zero], by simp⟩, rfl, rfl⟩
  | @connection w w' err _ results h ih =>
    have hlock := run_gdbSessionLock_free ih.free .tcpIp .networkGdbWriteCb
    rw [run_networkTcpServer hlock] at h
    cases hserve : (networkServe build results).run (w.lockBy .tcpIp .networkGdbWriteCb) with
    | error e w₁ =>
      rw [hserve] at h
      cases h
    | ok r w₁ =>
      obtain ⟨hsound, htarget⟩ := networkServe_preserves sound_target_handle
        ⟨sound_gdbSessionLock ih.sound hlock, ih.target⟩ hserve
      rw [hserve] at h
      cases r with
      | none => cases h
      | some err' =>
        cases h
        exact ⟨⟨rfl, hsound.writable, by simp⟩, rfl, htarget⟩

/-- Two worlds that have gone through the same events, from the records `t₁` and `t₂` on. They
may differ in their packets and in the error of the network module. -/
structure Alike (t₁ t₂ : List Event) (w₁ w₂ : World) : Prop where
  record : ∃ events, w₁.trace = t₁ ++ events ∧ w₂.trace = t₂ ++ events
  writeResults : w₁.writeResults = w₂.writeResults
  target : w₁.gdbSession.pTarget = w₂.gdbSession.pTarget
  transport : w₁.gdbSession.transport = w₂.gdbSession.transport
  state : w₁.gdbSession.state = w₂.gdbSession.state
  network₁ : w₁.gdbSession.pWriteCb = some .networkGdbWriteCb
  network₂ : w₂.gdbSession.pWriteCb = some .networkGdbWriteCb

variable {t₁ t₂ : List Event} {w₁ w₂ : World}

namespace Alike

theorem agrees (h : Alike t₁ t₂ w₁ w₂) {w₁' w₂' : World} (h₁ : w₁.Agrees w₁')
    (h₂ : w₂.Agrees w₂') : Alike t₁ t₂ w₁' w₂' := by
  obtain ⟨i₁, o₁, rfl⟩ := h₁
  obtain ⟨i₂, o₂, rfl⟩ := h₂
  exact ⟨h.record, h.writeResults, h.target, h.transport, h.state, h.network₁, h.network₂⟩

theorem recorded (h : Alike t₁ t₂ w₁ w₂) (e : Event) :
    ∃ events, w₁.trace ++ [e] = t₁ ++ events ∧ w₂.trace ++ [e] = t₂ ++ events := by
  obtain ⟨events, h₁, h₂⟩ := h.record
  exact ⟨events ++ [e], by rw [h₁, List.append_assoc], by rw [h₂, List.append_assoc]⟩

theorem perform (h : Alike t₁ t₂ w₁ w₂) (action : Action) :
    Alike t₁ t₂ (w₁.perform action) (w₂.perform action) := by
  cases action with
  | send data =>
    simp only [World.perform, World.send, h.network₁, h.network₂, h.writeResults, h.transport,
      h.state]
    exact ⟨h.recorded _, rfl, h.target, rfl, rfl, rfl, rfl⟩
  | _ => exact ⟨h.recorded _, h.writeResults, h.target, h.transport, h.state, h.network₁, h.network₂⟩

theorem performs (h : Alike t₁ t₂ w₁ w₂) (actions : List Action) :
    Alike t₁ t₂ (w₁.performs actions) (w₂.performs actions) := by
  induction actions generalizing w₁ w₂ with
  | nil => exact h
  | cons action actions ih => exact ih (h.perform action)

/-- A write replaces whatever error there was. -/
theorem networkErr_performs (h : Alike t₁ t₂ w₁ w₂) {actions : List Action}
    (hsend : (∃ data, Action.send data ∈ actions) ∨ w₁.networkErr = w₂.networkErr) :
    (w₁.performs actions).networkErr = (w₂.performs actions).networkErr := by
  induction actions generalizing w₁ w₂ with
  | nil => exact hsend.resolve_left (by simp)
  | cons action actions ih =>
    apply ih (h.perform action)
    cases action with
    | send data =>
      right
      simp [World.perform, World.send, h.network₁, h.network₂, h.writeResults]
    | _ =>
      apply hsend.imp_left
      rintro ⟨data, hdata⟩
      exact ⟨data, (List.mem_cons.mp hdata).resolve_left (by simp)⟩

end Alike

/-- Two such worlds between calls. -/
structure Twins (t₁ t₂ : List Event) (w₁ w₂ : World) : Prop extends Alike t₁ t₂ w₁ w₂ where
  sound₁ : Sound w₁
  sound₂ : Sound w₂

/-- The same is returned or the same assertion is tripped, and the worlds stay alike. -/
inductive SameResult {α : Type} (t₁ t₂ : List Event) :
    EStateM.Result String World α → EStateM.Result String World α → Prop
  | ok (a : α) {w₁ w₂ : World} (h : Twins t₁ t₂ w₁ w₂) : SameResult t₁ t₂ (.ok a w₁) (.ok a w₂)
  | error (e : String) {w₁ w₂ : World} (h : Alike t₁ t₂ w₁ w₂) :
    SameResult t₁ t₂ (.error e w₁) (.error e w₂)

/-- One call. If it writes nothing, then it consumes everything. -/
theorem Twins.handle (h : Twins t₁ t₂ w₁ w₂) (hactive : w₁.gdbSession.state = .active)
    (build : Build) (input : List UInt8) :
    (∃ e w₁' w₂', (gdbSessionHandle build input).run w₁ = .error e w₁' ∧
        (gdbSessionHandle build input).run w₂ = .error e w₂' ∧ Alike t₁ t₂ w₁' w₂') ∨
      ∃ w₁' w₂', (gdbSessionHandle build input).run w₁ = .ok (consumedOf input) w₁' ∧
        (gdbSessionHandle build input).run w₂ = .ok (consumedOf input) w₂' ∧
        Twins t₁ t₂ w₁' w₂' ∧ (w₁'.networkErr = w₂'.networkErr ∨
          (consumedOf input = input.length ∧ w₁'.gdbSession.state = .active)) := by
  have hactive₂ : w₂.gdbSession.state = .active := h.state.symm.trans hactive
  have h₁ := h.sound₁.serving hactive
  have h₂ := h.sound₂.serving hactive₂
  rcases ha : answer build w₁.gdbSession.pTarget input with ⟨actions, e | k⟩
  · obtain ⟨w₁', hrun₁, hagrees₁⟩ := h₁.handle_error ha
    obtain ⟨w₂', hrun₂, hagrees₂⟩ := h₂.handle_error (h.target ▸ ha)
    exact Or.inl ⟨e, w₁', w₂', hrun₁, hrun₂, (h.performs actions).agrees hagrees₁ hagrees₂⟩
  · obtain ⟨w₁', hrun₁, hagrees₁, -⟩ := h₁.handle_ok ha
    obtain ⟨w₂', hrun₂, hagrees₂, -⟩ := h₂.handle_ok (h.target ▸ ha)
    have htwins : Twins t₁ t₂ w₁' w₂' :=
      ⟨(h.performs actions).agrees hagrees₁ hagrees₂, sound_gdbSessionHandle h.sound₁ hactive hrun₁,
        sound_gdbSessionHandle h.sound₂ hactive₂ hrun₂⟩
    have herr₁ : w₁'.networkErr = (w₁.performs actions).networkErr := by
      obtain ⟨i, o, rfl⟩ := hagrees₁
      rfl
    have herr₂ : w₂'.networkErr = (w₂.performs actions).networkErr := by
      obtain ⟨i, o, rfl⟩ := hagrees₂
      rfl
    obtain ⟨rfl, inner, rfl, -, hsend⟩ := answer_eq_ok ha
    refine Or.inr ⟨w₁', w₂', hrun₁, hrun₂, htwins, ?_⟩
    rcases hsend with ⟨rfl, hall⟩ | ⟨data, hdata⟩
    · right
      obtain ⟨i, o, rfl⟩ := hagrees₁
      exact ⟨hall, hactive⟩
    · left
      rw [herr₁, herr₂]
      exact h.networkErr_performs (Or.inl ⟨data, by simp [hdata]⟩)

theorem Twins.loop (build : Build) (data : List UInt8) {total : ℕ} (hle : total ≤ data.length)
    (h : Twins t₁ t₂ w₁ w₂) :
    SameResult t₁ t₂ ((networkServeGdbLoop build data total).run w₁)
      ((networkServeGdbLoop build data total).run w₂) := by
  induction hm : data.length - total using Nat.strong_induction_on generalizing total w₁ w₂ with
  | _ m ih =>
    rcases Nat.eq_or_lt_of_le hle with hdone | hlt
    · rw [run_loop_done build hdone, run_loop_done build hdone]
      exact SameResult.ok _ h
    by_cases hactive : w₁.gdbSession.state = .active
    swap
    · have hactive₂ : w₂.gdbSession.state ≠ .active := h.state ▸ hactive
      rw [run_loop_error hlt (run_handle_inactive build hactive _),
        run_loop_error hlt (run_handle_inactive build hactive₂ _)]
      exact .error _ (h.perform _)
    obtain ⟨hpos, hbound⟩ := consumedOf_bounds (List.length_drop ▸ Nat.sub_pos_of_lt hlt)
    have hlength : (data.drop total).length = data.length - total := List.length_drop
    rcases h.handle hactive build (data.drop total) with
      ⟨e, w₁', w₂', hrun₁, hrun₂, halike⟩ | ⟨w₁', w₂', hrun₁, hrun₂, htwins, herr⟩
    · rw [run_loop_error hlt hrun₁, run_loop_error hlt hrun₂]
      exact .error e halike
    rw [run_loop_ok hlt hrun₁ hpos.ne', run_loop_ok hlt hrun₂ hpos.ne', ← htwins.state]
    rcases herr with herr | ⟨hall, hstate⟩
    · rw [← herr]
      split_ifs
      · exact SameResult.ok _ htwins
      · exact SameResult.ok _ htwins
      · exact ih _ (by omega) (by omega) htwins rfl
    · -- all is consumed, so a stale error makes no difference
      have hdone : total + consumedOf (data.drop total) = data.length := by omega
      have hrunning : w₁'.gdbSession.state ≠ .aborted := by simp [hstate]
      rw [run_loop_done build hdone, run_loop_done build hdone, if_neg hrunning, if_neg hrunning,
        ite_self, ite_self]
      exact SameResult.ok _ htwins

theorem Twins.networkServeGdb (build : Build) (netbuf : Netbuf) (h : Twins t₁ t₂ w₁ w₂) :
    SameResult t₁ t₂ ((networkServeGdb build netbuf).run w₁)
      ((networkServeGdb build netbuf).run w₂) := by
  unfold NetBmp.networkServeGdb
  cases netbufData netbuf with
  | none => exact SameResult.ok _ h
  | some data => exact h.loop build data (Nat.zero_le _)

theorem Twins.networkServe (build : Build) (results : List RecvResult) (h : Twins t₁ t₂ w₁ w₂) :
    SameResult t₁ t₂ ((networkServe build results).run w₁) ((networkServe build results).run w₂) ∧
      servedReturns build results w₁ = servedReturns build results w₂ := by
  induction results generalizing w₁ w₂ with
  | nil => exact ⟨SameResult.ok none h, rfl⟩
  | cons result results ih =>
    cases result with
    | failed err herr => exact ⟨SameResult.ok (some err) h, rfl⟩
    | received netbuf =>
      have hserve := h.networkServeGdb build netbuf
      rw [NetBmp.networkServe, servedReturns, servedReturns]
      generalize hrun₁ : (NetBmp.networkServeGdb build netbuf).run w₁ = r₁ at hserve
      generalize hrun₂ : (NetBmp.networkServeGdb build netbuf).run w₂ = r₂ at hserve
      cases hserve with
      | error e halike =>
        rw [run_bind_of_error hrun₁, run_bind_of_error hrun₂]
        exact ⟨.error e halike, rfl⟩
      | ok err htwins =>
        rw [run_bind_of_ok hrun₁, run_bind_of_ok hrun₂]
        obtain ⟨hrest, hreturns⟩ := ih htwins
        split_ifs with herr
        · exact ⟨hrest, by simp only [herr, ↓reduceIte, hreturns]⟩
        · exact ⟨.ok (some err) htwins, by simp only [herr, ↓reduceIte]⟩

theorem twins_lockBy (h₁ : Vacated w₁) (h₂ : Vacated w₂)
    (hresults : w₁.writeResults = w₂.writeResults) :
    Twins w₁.trace w₂.trace (w₁.lockBy .tcpIp .networkGdbWriteCb)
      (w₂.lockBy .tcpIp .networkGdbWriteCb) where
  record := ⟨[], (List.append_nil _).symm, (List.append_nil _).symm⟩
  writeResults := hresults
  target := h₁.target.trans h₂.target.symm
  transport := rfl
  state := rfl
  network₁ := rfl
  network₂ := rfl
  sound₁ := ⟨h₁.sound.acks, by simp [World.lockBy, gdbPacketInit], by simp [World.lockBy]⟩
  sound₂ := ⟨h₂.sound.acks, by simp [World.lockBy, gdbPacketInit], by simp [World.lockBy]⟩

theorem drop_record (h : Alike t₁ t₂ w₁ w₂) :
    w₁.trace.drop t₁.length = w₂.trace.drop t₂.length := by
  obtain ⟨events, h₁, h₂⟩ := h.record
  rw [h₁, h₂, List.drop_left, List.drop_left]

/-- What a connection sees and does depends on the earlier connections in nothing but the
results of its writes. -/
theorem transcript_eq (build : Build) (h₁ : History build w₁) (h₂ : History build w₂)
    (hresults : w₁.writeResults = w₂.writeResults) (results : List RecvResult) :
    transcript build results w₁ = transcript build results w₂ := by
  have hvacated₁ := h₁.vacated
  have hvacated₂ := h₂.vacated
  have hlock₁ := run_gdbSessionLock_free hvacated₁.free .tcpIp .networkGdbWriteCb
  have hlock₂ := run_gdbSessionLock_free hvacated₂.free .tcpIp .networkGdbWriteCb
  obtain ⟨hserve, hreturns⟩ :=
    (twins_lockBy hvacated₁ hvacated₂ hresults).networkServe build results
  rw [transcript, transcript, hreturns, run_networkTcpServer hlock₁, run_networkTcpServer hlock₂]
  generalize (networkServe build results).run (w₁.lockBy .tcpIp .networkGdbWriteCb) = r₁ at hserve
  generalize (networkServe build results).run (w₂.lockBy .tcpIp .networkGdbWriteCb) = r₂ at hserve
  cases hserve with
  | ok r htwins =>
    cases r with
    | none => simp only [outcomeOf, endOf, drop_record htwins.toAlike]
    | some err => simp only [outcomeOf, endOf, drop_record htwins.toAlike]
  | error e halike => simp only [outcomeOf, endOf, drop_record halike]

/-- Before one of the connections, the reply to an earlier one could not be written. -/
theorem transcript_after_failure : ∃ w₁ w₂, w₁.networkErr = .ok ∧ w₂.networkErr = .abrt ∧
    transcript .release [.received (.single (bytes "$g#67"))] w₁ =
      transcript .release [.received (.single (bytes "$g#67"))] w₂ := by
  let writeResults : ℕ → ErrT := fun n => if n = 1 then .abrt else .ok
  let w : World := endOf (gdbSessionInit.run (.boot writeResults))
  have hlock : (gdbSessionLock .tcpIp .networkGdbWriteCb).run w = .ok true (.locked writeResults) :=
    rfl
  have hinit : Reachable .release w := .init writeResults rfl
  obtain ⟨w₁, hgdb, herr, -, hrest⟩ := serve_stopReason_failed rfl (attached_of_lock hinit hlock)
  have hremaining : w₁.writeResults = fun _ => .ok := hrest
  have hserve : (networkServe .release [.received (.single (bytes "$?#3F")),
      .failed .abrt (by decide)]).run (.locked writeResults) = .ok (some .abrt) w₁ := by
    rw [networkServe, run_bind_of_ok hgdb]
    rfl
  have hclosed : History .release _ := .connection (.init writeResults rfl)
    [.received (.single (bytes "$?#3F")), .failed .abrt (by decide)]
    ((run_networkTcpServer hlock).trans (by rw [hserve]))
  refine ⟨_, _, ?_, ?_, transcript_eq .release (.init (fun _ => .ok) rfl) hclosed
    hremaining.symm _⟩
  · rfl
  · exact herr

end Connections
end NetBmp
