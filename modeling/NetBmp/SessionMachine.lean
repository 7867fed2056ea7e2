import NetBmp.Machines
import NetBmp.WireFormat

/-!
# The session as its callers see it

Seen through its interface, the session is a slot for one holder, whose input is answered as the
server does. The packets with their buffers, the semaphore and the state of the session cannot
be told from that, whatever is called and whatever becomes of the writes.
-/

namespace NetBmp
namespace SessionMachine

open Hex Halting Server SessionStream Abort Effects WireFormat Machines

/-- A call of the interface of the session. -/
inductive Operation
  | lock (transport : GdbSessionTransport) (writeCb : GdbWriteCb)
  | handle (input : List UInt8)
  | getState
  | release

/-- What a caller can see: the events of its call, and what is returned to it. -/
inductive Observation
  | event (e : Event)
  | locked (success : Bool)
  | handled (length : ℕ)
  | state (s : GdbSessionState)

def Operation.run (build : Build) : Operation → Routine (List Observation)
  | .lock transport writeCb => do return [.locked (← gdbSessionLock transport writeCb)]
  | .handle input => do return [.handled (← gdbSessionHandle build input)]
  | .getState => do return [.state (← gdbSessionGetState)]
  | .release => do
    gdbSessionRelease
    return []

/-- The session of the source. -/
def sessionMachine (build : Build) : Machine World Operation Observation String where
  step w operation :=
    match (operation.run build).run w with
    | .ok returned w' => ((w'.trace.drop w.trace.length).map .event ++ returned, .ok w')
    | .error e w' => ((w'.trace.drop w.trace.length).map .event, .error e)

/-- What the holder of the session was granted, whether it has asked for the extended mode, and
whether a write over TCP has failed. -/
structure Holding where
  transport : GdbSessionTransport
  writeCb : GdbWriteCb
  extended : Bool
  broken : Bool

/-- The session as a slot for a holder, with the results of the writes to come. -/
structure Slot where
  holding : Option Holding
  writeResults : ℕ → ErrT

def Slot.state (s : Slot) : GdbSessionState :=
  match s.holding with
  | none => .idle
  | some holding => if holding.broken then .aborted else .active

/-- Whether an action executes the command that asks for the extended mode. -/
def asksExtended : Action → Bool
  | .execute stored => command stored = '!'.toUInt8
  | _ => false

def Holding.after (holding : Holding) (writeResults : ℕ → ErrT) (actions : List Action) :
    Holding :=
  { holding with
    extended := holding.extended || actions.any asksExtended
    broken := holding.transport = .tcpIp ∧ ∃ n < (sentBy actions).length, writeResults n ≠ .ok }

/-- The answer to the input of a holder. -/
def Slot.answer (build : Build) (s : Slot) (holding : Holding) (input : List UInt8) :
    List Observation × Except String Slot :=
  match Server.answer build none input with
  | (actions, .ok k) =>
    ((eventsOf holding.writeCb s.writeResults actions).map .event ++ [.handled k],
      .ok ⟨some (holding.after s.writeResults actions),
        fun n => s.writeResults (n + (sentBy actions).length)⟩)
  | (actions, .error e) =>
    ((eventsOf holding.writeCb s.writeResults actions).map .event, .error e)

/-- The purpose of the session. -/
def slotMachine (build : Build) : Machine Slot Operation Observation String where
  step s
    | .lock transport writeCb =>
      match s.holding with
      | none => ([.locked true], .ok { s with holding := some ⟨transport, writeCb, false, false⟩ })
      | some _ => ([.locked false], .ok s)
    | .handle input =>
      match s.holding with
      | some ⟨transport, writeCb, extended, false⟩ =>
        s.answer build ⟨transport, writeCb, extended, false⟩ input
      | _ => ([.event (.handle input)], .error "Session inactive.")
    | .getState => ([.state s.state], .ok s)
    | .release => ([], .ok { s with holding := none })

/-- A world between two calls, and the slot that its session stands for. -/
structure Represents (w : World) (s : Slot) : Prop where
  sound : Sound w
  target : w.gdbSession.pTarget = none
  writeResults : w.writeResults = s.writeResults
  lock : w.gdbSession.lock = s.holding.isSome
  state : w.gdbSession.state = s.state
  granted : ∀ holding ∈ s.holding, w.gdbSession.transport = holding.transport ∧
    w.gdbSession.pWriteCb = some holding.writeCb
  properties : w.gdbSession.properties = ⟨s.holding.any (·.extended), false, false⟩

theorem step_ok {build : Build} {w w' : World} {operation : Operation}
    {returned : List Observation} {events : List Event}
    (hrun : (operation.run build).run w = .ok returned w') (htrace : w'.trace = w.trace ++ events) :
    (sessionMachine build).step w operation = (events.map .event ++ returned, .ok w') := by
  simp only [sessionMachine, hrun, htrace, List.drop_left]

theorem step_error {build : Build} {w w' : World} {operation : Operation} {e : String}
    {events : List Event} (hrun : (operation.run build).run w = .error e w')
    (htrace : w'.trace = w.trace ++ events) :
    (sessionMachine build).step w operation = (events.map .event, .error e) := by
  simp only [sessionMachine, hrun, htrace, List.drop_left]

theorem performs_writeResults {w : World} {writeCb : GdbWriteCb}
    (hcb : w.gdbSession.pWriteCb = some writeCb) (actions : List Action) :
    (w.performs actions).writeResults =
      fun n => w.writeResults (n + (sentBy actions).length) := by
  induction actions generalizing w with
  | nil => rfl
  | cons action actions ih =>
    rw [World.performs_cons, ih (by rw [World.perform_pWriteCb, hcb])]
    cases action with
    | send data =>
      have hlength : (sentBy (.send data :: actions)).length = (sentBy actions).length + 1 := rfl
      simp only [World.perform, World.send, hcb, hlength, Nat.add_assoc]
    | _ => rfl

theorem performs_properties (w : World) (actions : List Action) :
    (w.performs actions).gdbSession.properties = { w.gdbSession.properties with
      isExtendedRemote :=
        w.gdbSession.properties.isExtendedRemote || actions.any asksExtended } := by
  induction actions generalizing w with
  | nil => simp
  | cons action actions ih =>
    rw [World.performs_cons, ih]
    cases action with
    | send data => cases hcb : w.gdbSession.pWriteCb <;> simp [World.perform, World.send, hcb, asksExtended]
    | _ => simp [World.perform, asksExtended, Bool.or_assoc]

/-- From a world and its slot, an operation has the same outcome on both. -/
def Matches (build : Build) (w : World) (s : Slot) (operation : Operation) : Prop :=
  ((sessionMachine build).step w operation).1 = ((slotMachine build).step s operation).1 ∧
    SameEnd Represents ((sessionMachine build).step w operation).2
      ((slotMachine build).step s operation).2

theorem matches_of_ok {build : Build} {w w' : World} {s s' : Slot} {operation : Operation}
    {returned : List Observation} {events : List Event}
    (hrun : (operation.run build).run w = .ok returned w') (htrace : w'.trace = w.trace ++ events)
    (hslot : (slotMachine build).step s operation = (events.map .event ++ returned, .ok s'))
    (h : Represents w' s') : Matches build w s operation := by
  rw [Matches, step_ok hrun htrace, hslot]
  exact ⟨rfl, .ok h⟩

theorem matches_of_error {build : Build} {w w' : World} {s : Slot} {operation : Operation}
    {e : String} {events : List Event} (hrun : (operation.run build).run w = .error e w')
    (htrace : w'.trace = w.trace ++ events)
    (hslot : (slotMachine build).step s operation = (events.map .event, .error e)) :
    Matches build w s operation := by
  rw [Matches, step_error hrun htrace, hslot]
  exact ⟨rfl, .error e⟩

namespace Represents

variable {w : World} {s : Slot}

theorem matches_lock (h : Represents w s) (build : Build) (transport : GdbSessionTransport)
    (writeCb : GdbWriteCb) : Matches build w s (.lock transport writeCb) := by
  have hlock := run_gdbSessionLock transport writeCb w
  have hnothing : w.trace = w.trace ++ [] := (List.append_nil _).symm
  rcases hs : s.holding with _ | holding
  · rw [h.lock, hs, Option.isSome_none, if_neg Bool.false_ne_true] at hlock
    have hproperties := h.properties
    rw [hs] at hproperties
    have hslot : (slotMachine build).step s (.lock transport writeCb) =
        ([].map .event ++ [.locked true],
          .ok ⟨some ⟨transport, writeCb, false, false⟩, s.writeResults⟩) := by
      simp only [slotMachine, hs]
      rfl
    refine matches_of_ok (run_bind_of_ok hlock _) hnothing hslot
      ⟨sound_gdbSessionLock h.sound hlock, h.target, h.writeResults, rfl, rfl, ?_, hproperties⟩
    rintro holding ⟨⟩
    exact ⟨rfl, rfl⟩
  · rw [h.lock, hs, Option.isSome_some, if_pos rfl] at hlock
    exact matches_of_ok (run_bind_of_ok hlock _) hnothing (by simp only [slotMachine, hs]; rfl) h

theorem matches_getState (h : Represents w s) (build : Build) : Matches build w s .getState := by
  have hrun : (Operation.getState.run build).run w = .ok [.state w.gdbSession.state] w := rfl
  rw [h.state] at hrun
  exact matches_of_ok hrun (List.append_nil _).symm rfl h

theorem matches_release (h : Represents w s) (build : Build) : Matches build w s .release := by
  refine matches_of_ok (run_bind_of_ok rfl _) (List.append_nil _).symm rfl
    ⟨sound_gdbSessionRelease h.sound rfl, h.target, h.writeResults, rfl, rfl, ?_, rfl⟩
  rintro holding ⟨⟩

theorem matches_inactive (h : Represents w s) (hstate : s.state ≠ .active) (build : Build)
    (input : List UInt8) : Matches build w s (.handle input) := by
  have hrun := run_handle_inactive build (h.state ▸ hstate) input
  have htrace : (w.perform (.handle input)).trace = w.trace ++ [.handle input] := rfl
  refine matches_of_error (run_bind_of_error hrun _) htrace ?_
  obtain ⟨_ | ⟨transport, writeCb, extended, _ | _⟩, writeResults⟩ := s
  · rfl
  · exact absurd rfl hstate
  · rfl

theorem performs (h : Represents w s) {holding : Holding} (hs : s.holding = some holding)
    (hbroken : holding.broken = false) {w' : World} {actions : List Action} (hsound : Sound w')
    (hagrees : (w.performs actions).Agrees w') :
    Represents w' ⟨some (holding.after s.writeResults actions),
      fun n => s.writeResults (n + (sentBy actions).length)⟩ := by
  obtain ⟨htransport, hcb⟩ := h.granted holding hs
  have hactive : w.gdbSession.state = .active := by
    rw [h.state, Slot.state, hs]
    simp [hbroken]
  have hstate : (w.performs actions).gdbSession.state =
      if (holding.after s.writeResults actions).broken then .aborted else .active := by
    have hcalm := calm_eventsOf holding.writeCb s.writeResults actions
    rw [← h.writeResults] at hcalm
    rcases performs_state hcb actions with ⟨htcp, hfailed, hstate⟩ | ⟨hlater, hstate⟩
    · rw [hcalm] at hfailed
      push Not at hfailed
      rw [hstate, if_pos]
      simpa [Holding.after, ← htransport, htcp, ← h.writeResults] using hfailed
    · rw [hstate, hactive, if_neg]
      rw [hcalm] at hlater
      simpa [Holding.after, ← htransport, ← h.writeResults] using hlater
  obtain ⟨i, o, rfl⟩ := hagrees
  refine ⟨hsound, ?_, ?_, ?_, hstate, ?_, ?_⟩
  · exact (World.performs_pTarget w actions).trans h.target
  · rw [← h.writeResults]
    exact performs_writeResults hcb actions
  · refine (World.performs_lock w actions).trans (h.lock.trans ?_)
    rw [hs]
    rfl
  · rintro _ ⟨⟩
    exact ⟨(World.performs_transport w actions).trans htransport,
      (World.performs_pWriteCb w actions).trans hcb⟩
  · refine (performs_properties w actions).trans ?_
    rw [h.properties, hs]
    rfl

theorem matches_answer (h : Represents w s) {holding : Holding} (hs : s.holding = some holding)
    (hbroken : holding.broken = false) (build : Build) (input : List UInt8) :
    Matches build w s (.handle input) := by
  obtain ⟨-, hcb⟩ := h.granted holding hs
  have hactive : w.gdbSession.state = .active := by
    rw [h.state, Slot.state, hs]
    simp [hbroken]
  have hslot : (slotMachine build).step s (.handle input) = s.answer build holding input := by
    obtain ⟨transport, writeCb, extended, broken⟩ := holding
    obtain rfl : broken = false := hbroken
    simp only [slotMachine, hs]
  have hserving := h.sound.serving hactive
  have htrace := handle_trace hserving hcb build input
  rw [h.target, h.writeResults] at htrace
  rcases ha : Server.answer build none input with ⟨actions, e | k⟩
  · obtain ⟨w', hrun, -⟩ := hserving.handle_error (h.target.symm ▸ ha)
    rw [hrun, ha] at htrace
    exact matches_of_error (run_bind_of_error hrun _) htrace
      (hslot.trans (by simp only [Slot.answer, ha]))
  · obtain ⟨w', hrun, hagrees, -⟩ := hserving.handle_ok (h.target.symm ▸ ha)
    rw [hrun, ha] at htrace
    exact matches_of_ok (run_bind_of_ok hrun _) htrace
      (hslot.trans (by simp only [Slot.answer, ha]))
      (h.performs hs hbroken (sound_gdbSessionHandle h.sound hactive hrun) hagrees)

end Represents

/-- A session is simulated by its slot, operation by operation. -/
theorem simulates (build : Build) :
    Simulates (sessionMachine build) (slotMachine build) id id Represents := by
  intro w s operation h
  rw [List.map_id, List.map_id]
  cases operation with
  | lock transport writeCb => exact h.matches_lock build transport writeCb
  | getState => exact h.matches_getState build
  | release => exact h.matches_release build
  | handle input =>
    obtain ⟨_ | ⟨transport, writeCb, extended, _ | _⟩, writeResults⟩ := s
    · exact h.matches_inactive (by simp [Slot.state]) build input
    · exact h.matches_answer rfl rfl build input
    · exact h.matches_inactive (by simp [Slot.state]) build input

theorem represents_initialized (writeResults : ℕ → ErrT) :
    Represents (initialized writeResults) ⟨none, writeResults⟩ := by
  have hreachable : Reachable .release (initialized writeResults) := .init writeResults rfl
  exact ⟨hreachable.sound, rfl, rfl, rfl, rfl, fun _ h => (by cases h), rfl⟩

/-- Whatever is called, the session cannot be told from a slot. -/
theorem session_is_slot (build : Build) (writeResults : ℕ → ErrT) (operations : List Operation) :
    ((sessionMachine build).run (initialized writeResults) operations).1 =
        ((slotMachine build).run ⟨none, writeResults⟩ operations).1 ∧
      SameEnd Represents ((sessionMachine build).run (initialized writeResults) operations).2
        ((slotMachine build).run ⟨none, writeResults⟩ operations).2 :=
  (simulates build).run_id (represents_initialized writeResults) operations

/-- A session that nobody holds stands for a slot that depends on nothing but the writes to come. -/
theorem Represents.of_free {w : World} {s : Slot} (h : Represents w s)
    (hfree : w.gdbSession.lock = false) : Represents w ⟨none, w.writeResults⟩ := by
  obtain ⟨_ | holding, writeResults⟩ := s
  · obtain rfl : writeResults = w.writeResults := h.writeResults.symm
    exact h
  · have hlock := h.lock
    rw [hfree] at hlock
    cases hlock

/-- Once it has been released, a session is as good as new: whatever has been called before, over
whichever transport, and whatever writes have failed. -/
theorem released_as_new (build : Build) {writeResults : ℕ → ErrT} {before : List Operation}
    {w : World}
    (hrun : ((sessionMachine build).run (initialized writeResults) before).2 = .ok w)
    (hfree : w.gdbSession.lock = false) (operations : List Operation) :
    ((sessionMachine build).run w operations).1 =
        ((sessionMachine build).run (initialized w.writeResults) operations).1 ∧
      SameEnd (fun w₁ w₂ => ∃ s, Represents w₁ s ∧ Represents w₂ s)
        ((sessionMachine build).run w operations).2
        ((sessionMachine build).run (initialized w.writeResults) operations).2 := by
  obtain ⟨-, hend⟩ := (simulates build).run_id (represents_initialized writeResults) before
  rw [hrun] at hend
  generalize ((slotMachine build).run ⟨none, writeResults⟩ before).2 = result at hend
  cases hend with
  | ok h =>
    obtain ⟨hsame, hlast⟩ := (simulates build).run_id (h.of_free hfree) operations
    obtain ⟨hsame', hlast'⟩ :=
      (simulates build).run_id (represents_initialized w.writeResults) operations
    exact ⟨hsame.trans hsame'.symm, hlast.trans hlast'.symm⟩

theorem released_as_new_abrt : ∃ w,
    ((sessionMachine .release).run (initialized fun _ => .abrt)
      [.lock .tcpIp .networkGdbWriteCb, .handle (bytes "$?#3F"), .release]).2 = .ok w ∧
    ((sessionMachine .release).run w [.lock .usbCdc (.other 0), .handle (bytes "$g#67")]).1 =
      ((sessionMachine .release).run (initialized w.writeResults)
        [.lock .usbCdc (.other 0), .handle (bytes "$g#67")]).1 := by
  have hend := ((simulates .release).run_id (represents_initialized fun _ => .abrt)
    [.lock .tcpIp .networkGdbWriteCb, .handle (bytes "$?#3F"), .release]).2
  generalize hrun : ((sessionMachine .release).run (initialized fun _ => .abrt)
    [.lock .tcpIp .networkGdbWriteCb, .handle (bytes "$?#3F"), .release]).2 = result at hend
  simp only [Machine.run, slotMachine, Slot.answer, answer_stopReason] at hend
  cases hend with
  | @ok w s h => exact ⟨w, rfl, (released_as_new .release hrun h.lock _).1⟩

end SessionMachine
end NetBmp
