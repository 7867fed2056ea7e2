import NetBmp.Serving

/-!
# Reachable sessions

What holds of the session between the calls of its interface, whatever has been received and
whatever became of the writes. The no-acknowledgement mode is never entered.
-/

namespace NetBmp

open Hex Halting Server

/-- The world before `gdb_session_init`: static storage is zero. -/
def World.boot (writeResults : ℕ → ErrT) : World where
  gdbSession := ⟨none, .zero, .zero, none, .none, ⟨false, false, false⟩, .idle, false⟩
  networkErr := .ok
  writeResults := writeResults
  trace := []

/-- The worlds between the calls of a transport, which handles data only in an active session
and releases only a session that is locked. -/
inductive Reachable (build : Build) : World → Prop
  | init {w : World} (writeResults : ℕ → ErrT)
      (h : gdbSessionInit.run (.boot writeResults) = .ok () w) : Reachable build w
  | lock {w w' : World} {locked : Bool} (hw : Reachable build w)
      (transport : GdbSessionTransport) (writeCb : GdbWriteCb)
      (h : (gdbSessionLock transport writeCb).run w = .ok locked w') : Reachable build w'
  | handle {w w' : World} {k : ℕ} (hw : Reachable build w)
      (hactive : w.gdbSession.state = .active) (input : List UInt8)
      (h : (gdbSessionHandle build input).run w = .ok k w') : Reachable build w'
  | release {w w' : World} (hw : Reachable build w) (hlock : w.gdbSession.lock = true)
      (h : gdbSessionRelease.run w = .ok () w') : Reachable build w'

/-- An active session with acknowledgements on. -/
structure Serving (w : World) : Prop extends Ready w where
  active : w.gdbSession.state = .active
  acks : w.gdbSession.properties.noAckMode = false

/-- Worlds that differ at most in the packets of the session. -/
def World.Agrees (w w' : World) : Prop := ∃ i o : GdbPacket, w' = (w.withInput i).withOutput o

theorem run_handle_inactive (build : Build) {w : World} (h : w.gdbSession.state ≠ .active)
    (input : List UInt8) : (gdbSessionHandle build input).run w =
      .error "Session inactive." (w.perform (.handle input)) := by
  rw [gdbSessionHandle, run_bind_of_ok (run_record _ w), run_bind_of_ok (run_getSession _)]
  simp only [h, assertVerbose_false, not_false_eq_true]
  rfl

theorem active_of_handle {build : Build} {w w' : World} {input : List UInt8} {k : ℕ}
    (hrun : (gdbSessionHandle build input).run w = .ok k w') : w.gdbSession.state = .active := by
  by_contra hn
  rw [run_handle_inactive build hn input] at hrun
  cases hrun

namespace Serving

theorem handle_ok {w : World} (h : Serving w) {build : Build} {input : List UInt8}
    {actions : List Action} {k : ℕ}
    (ha : answer build w.gdbSession.pTarget input = (actions, .ok k)) :
    ∃ w', (gdbSessionHandle build input).run w = .ok k w' ∧ (w.performs actions).Agrees w' ∧
      Ready w' ∧ w'.gdbSession.properties.noAckMode = false := by
  obtain ⟨q, o, ho⟩ := run_gdbSessionHandle h.toReady h.active h.acks build input
  rw [ha] at ho
  obtain ⟨hsettled, hrun⟩ := ho
  refine ⟨_, hrun, ⟨q, o, rfl⟩, ⟨?_, ?_⟩, ?_⟩
  · simpa [World.withInput] using h.callback
  · rcases hsettled with hsent | rfl
    · simp [hsent]
    · exact h.writable
  · exact (World.performs_noAckMode w actions).trans h.acks

theorem handle_error {w : World} (h : Serving w) {build : Build} {input : List UInt8}
    {actions : List Action} {e : String}
    (ha : answer build w.gdbSession.pTarget input = (actions, .error e)) :
    ∃ w', (gdbSessionHandle build input).run w = .error e w' ∧
      (w.performs actions).Agrees w' := by
  obtain ⟨q, o, ho⟩ := run_gdbSessionHandle h.toReady h.active h.acks build input
  rw [ha] at ho
  exact ⟨_, ho, q, o, rfl⟩

/-- Every call that returns performs the actions of the server. -/
theorem of_handle {w w' : World} (h : Serving w) {build : Build} {input : List UInt8} {k : ℕ}
    (hrun : (gdbSessionHandle build input).run w = .ok k w') :
    ∃ actions, answer build w.gdbSession.pTarget input = (actions, .ok k) ∧
      (w.performs actions).Agrees w' ∧ Ready w' ∧
      w'.gdbSession.properties.noAckMode = false := by
  match ha : answer build w.gdbSession.pTarget input with
  | (actions, .ok k') =>
    obtain ⟨w'', hrun', hagrees, hready, hack⟩ := h.handle_ok ha
    rw [hrun] at hrun'
    cases hrun'
    exact ⟨actions, rfl, hagrees, hready, hack⟩
  | (actions, .error e) =>
    obtain ⟨w'', hrun', -⟩ := h.handle_error ha
    rw [hrun] at hrun'
    cases hrun'

theorem of_handle_error {w w' : World} (h : Serving w) {build : Build} {input : List UInt8}
    {e : String} (hrun : (gdbSessionHandle build input).run w = .error e w') :
    ∃ actions, answer build w.gdbSession.pTarget input = (actions, .error e) := by
  rcases ha : answer build w.gdbSession.pTarget input with ⟨actions, e' | k⟩
  · obtain ⟨w'', hrun', -⟩ := h.handle_error ha
    rw [hrun] at hrun'
    cases hrun'
    exact ⟨actions, rfl⟩
  · obtain ⟨w'', hrun', -⟩ := h.handle_ok ha
    rw [hrun] at hrun'
    cases hrun'

end Serving

/-- What holds between the calls: acknowledgements are on, the output packet may be written to,
and an active session has a callback. -/
structure Sound (w : World) : Prop where
  acks : w.gdbSession.properties.noAckMode = false
  writable : w.gdbSession.outputPacket.state ≠ .complete
  callback : w.gdbSession.state = .active → w.gdbSession.pWriteCb ≠ none

theorem Sound.serving {w : World} (h : Sound w) (hactive : w.gdbSession.state = .active) :
    Serving w :=
  ⟨⟨h.callback hactive, h.writable⟩, hactive, h.acks⟩

def World.lockBy (w : World) (transport : GdbSessionTransport) (writeCb : GdbWriteCb) : World :=
  { w with gdbSession := { w.gdbSession with
      lock := true
      inputPacket := gdbPacketInit w.gdbSession.inputPacket .inbound
      outputPacket := gdbPacketInit w.gdbSession.outputPacket .outbound
      state := .active
      transport := transport
      pWriteCb := some writeCb } }

theorem run_gdbSessionLock (transport : GdbSessionTransport) (writeCb : GdbWriteCb) (w : World) :
    (gdbSessionLock transport writeCb).run w =
      if w.gdbSession.lock then .ok false w else .ok true (w.lockBy transport writeCb) := by
  rw [gdbSessionLock, run_bind_of_ok (run_getSession w)]
  cases hl : w.gdbSession.lock <;> simp [World.lockBy]

theorem run_gdbSessionLock_free {w : World} (h : w.gdbSession.lock = false)
    (transport : GdbSessionTransport) (writeCb : GdbWriteCb) :
    (gdbSessionLock transport writeCb).run w = .ok true (w.lockBy transport writeCb) := by
  rw [run_gdbSessionLock, h, if_neg Bool.false_ne_true]

theorem sound_gdbSessionLock {w w' : World} {locked : Bool} (h : Sound w)
    {transport : GdbSessionTransport} {writeCb : GdbWriteCb}
    (hrun : (gdbSessionLock transport writeCb).run w = .ok locked w') : Sound w' := by
  rw [run_gdbSessionLock] at hrun
  split_ifs at hrun
  · cases hrun
    exact h
  · cases hrun
    exact ⟨h.acks, by simp [World.lockBy, gdbPacketInit], by simp [World.lockBy]⟩

theorem gdbSessionLock_true {w w' : World} {transport : GdbSessionTransport} {writeCb : GdbWriteCb}
    (hrun : (gdbSessionLock transport writeCb).run w = .ok true w') :
    w'.trace = w.trace ∧ w'.gdbSession.state = .active ∧
      w'.gdbSession.transport = transport ∧ w'.gdbSession.pWriteCb = some writeCb := by
  rw [run_gdbSessionLock] at hrun
  split_ifs at hrun
  · cases hrun
  · cases hrun
    exact ⟨rfl, rfl, rfl, rfl⟩

theorem sound_gdbSessionRelease {w w' : World} (h : Sound w)
    (hrun : gdbSessionRelease.run w = .ok () w') : Sound w' := by
  cases hrun
  exact ⟨rfl, h.writable, by simp⟩

theorem sound_gdbSessionHandle {w w' : World} (h : Sound w)
    (hactive : w.gdbSession.state = .active) {build : Build} {input : List UInt8} {k : ℕ}
    (hrun : (gdbSessionHandle build input).run w = .ok k w') : Sound w' := by
  obtain ⟨actions, -, -, hready, hack⟩ := (h.serving hactive).of_handle hrun
  exact ⟨hack, hready.writable, fun _ => hready.callback⟩

theorem Reachable.sound {build : Build} {w : World} (h : Reachable build w) : Sound w := by
  induction h with
  | init writeResults h =>
    cases h
    exact ⟨rfl, by simp [World.boot, GdbPacket.zero], by simp⟩
  | lock _ transport writeCb h ih => exact sound_gdbSessionLock ih h
  | handle _ hactive input h ih => exact sound_gdbSessionHandle ih hactive h
  | release _ _ h ih => exact sound_gdbSessionRelease ih h

theorem Reachable.serving {build : Build} {w : World} (h : Reachable build w)
    (hactive : w.gdbSession.state = .active) : Serving w :=
  h.sound.serving hactive

/-- All writes from here on succeed. -/
def World.Reliable (w : World) : Prop := ∀ n, w.writeResults n = .ok

/-- The event that an action leaves behind when its write succeeds. -/
def Server.Action.event (writeCb : GdbWriteCb) : Action → Event
  | .handle input => .handle input
  | .consumed length => .consumed length
  | .execute stored => .execute stored
  | .send data => .write writeCb data .ok

theorem World.Reliable.perform {w : World} (h : w.Reliable) {writeCb : GdbWriteCb}
    (hcb : w.gdbSession.pWriteCb = some writeCb) (action : Action) :
    (w.perform action).Reliable ∧
      (w.perform action).trace = w.trace ++ [action.event writeCb] ∧
      (w.perform action).gdbSession.state = w.gdbSession.state ∧
      (w.networkErr = .ok → (w.perform action).networkErr = .ok) := by
  cases action with
  | send data =>
    simp only [World.perform, World.send, hcb, h 0]
    exact ⟨fun n => h (n + 1), rfl, by simp, fun he => by simp [he]⟩
  | _ => exact ⟨h, rfl, rfl, id⟩

theorem World.Reliable.performs {w : World} (h : w.Reliable) {writeCb : GdbWriteCb}
    (hcb : w.gdbSession.pWriteCb = some writeCb) (actions : List Action) :
    (w.performs actions).Reliable ∧
      (w.performs actions).trace = w.trace ++ actions.map (·.event writeCb) ∧
      (w.performs actions).gdbSession.state = w.gdbSession.state ∧
      (w.networkErr = .ok → (w.performs actions).networkErr = .ok) := by
  induction actions generalizing w with
  | nil => exact ⟨h, by simp, rfl, id⟩
  | cons action actions ih =>
    obtain ⟨hr, ht, hs, he⟩ := h.perform hcb action
    obtain ⟨hr', ht', hs', he'⟩ := ih hr (by rw [World.perform_pWriteCb, hcb])
    refine ⟨hr', ?_, hs'.trans hs, he' ∘ he⟩
    rw [World.performs_cons, ht', ht, List.map_cons, List.append_assoc]
    rfl

/-- The world after the network module has locked the session that was just initialized. -/
def World.locked (writeResults : ℕ → ErrT) : World :=
  match (do gdbSessionInit; gdbSessionLock .tcpIp .networkGdbWriteCb).run (.boot writeResults) with
  | .ok _ w => w
  | .error _ w => w

theorem locks_locked (build : Build) (writeResults : ℕ → ErrT) : ∃ w, Reachable build w ∧
    (gdbSessionLock .tcpIp .networkGdbWriteCb).run w = .ok true (.locked writeResults) :=
  ⟨_, .init writeResults rfl, rfl⟩

theorem reachable_locked (build : Build) (writeResults : ℕ → ErrT) :
    Reachable build (.locked writeResults) := by
  obtain ⟨w, hr, hlock⟩ := locks_locked build writeResults
  exact .lock hr .tcpIp .networkGdbWriteCb hlock

def Build.release : Build where
  version := .lit "v0.1.0"
  commitHash := .lit "0a1b2c3"
  chsnprintf size _ _ := ⟨(bytes "PacketSize=7FF").take (size - 1), fun h =>
    absurd (List.mem_of_mem_take h) (by decide)⟩
  chsnprintf_fits size _ _ h := by
    rw [List.length_take]
    omega

end NetBmp
