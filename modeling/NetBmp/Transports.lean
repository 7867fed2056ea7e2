import NetBmp.SessionMachine

/-!
# Over which transport

A session takes its transport and its callback from the lock. They make no difference to what is
done, unless a write fails over TCP: such a session is cut short, and up to then does what any
other does.
-/

namespace NetBmp
namespace Transports

open Hex Halting Server SessionStream Abort Effects WireFormat Machines SessionMachine

/-- Another transport and callback for each lock. -/
abbrev Detour := GdbSessionTransport → GdbWriteCb → GdbSessionTransport × GdbWriteCb

def Operation.via (f : Detour) : Operation → Operation
  | .lock transport writeCb => .lock (f transport writeCb).1 (f transport writeCb).2
  | operation => operation

def Holding.via (f : Detour) (holding : Holding) : Holding :=
  { holding with
    transport := (f holding.transport holding.writeCb).1
    writeCb := (f holding.transport holding.writeCb).2 }

def Slot.via (f : Detour) (s : Slot) : Slot := { s with holding := s.holding.map (Holding.via f) }

/-- What is observed without the callback of a write. -/
def Observation.anonymous : Observation → Observation
  | .event (.write _ data result) => .event (.write (.other 0) data result)
  | observation => observation

/-- The writes succeed, or the same sessions are TCP sessions. -/
def Indifferent (f : Detour) (writeResults : ℕ → ErrT) : Prop :=
  (∀ n, writeResults n = .ok) ∨
    ∀ transport writeCb, (f transport writeCb).1 = .tcpIp ↔ transport = .tcpIp

theorem anonymous_eventsOf (writeCb : GdbWriteCb) (writeResults : ℕ → ErrT)
    (actions : List Action) :
    ((eventsOf writeCb writeResults actions).map Observation.event).map Observation.anonymous =
      (eventsOf (.other 0) writeResults actions).map .event := by
  induction actions generalizing writeResults with
  | nil => rfl
  | cons action actions ih =>
    cases action with
    | send data => exact congrArg (_ :: ·) (ih _)
    | _ => exact congrArg (_ :: ·) (ih writeResults)

theorem Indifferent.after {f : Detour} {writeResults : ℕ → ErrT} (h : Indifferent f writeResults)
    (n : ℕ) : Indifferent f fun k => writeResults (k + n) :=
  h.imp (fun hok k => hok (k + n)) id

theorem via_after {f : Detour} {writeResults : ℕ → ErrT} (h : Indifferent f writeResults)
    (holding : Holding) (actions : List Action) :
    (Holding.via f holding).after writeResults actions =
      Holding.via f (holding.after writeResults actions) := by
  have hbroken : ((f holding.transport holding.writeCb).1 = .tcpIp ∧
        ∃ n < (sentBy actions).length, writeResults n ≠ .ok) ↔
      holding.transport = .tcpIp ∧ ∃ n < (sentBy actions).length, writeResults n ≠ .ok := by
    rcases h with hok | hsame
    · refine iff_of_false ?_ ?_ <;> rintro ⟨-, n, -, hn⟩ <;> exact hn (hok n)
    · exact and_congr_left' (hsame _ _)
  simp only [Holding.via, Holding.after, hbroken]

/-- Slots that differ in what their holder passed to the lock. -/
def Alike (f : Detour) (s t : Slot) : Prop := Indifferent f s.writeResults ∧ t = Slot.via f s

theorem slot_simulates (build : Build) (f : Detour) :
    Simulates (slotMachine build) ((slotMachine build).contramap (Operation.via f))
      Observation.anonymous Observation.anonymous (Alike f) := by
  rintro ⟨holding, writeResults⟩ _ operation ⟨hind, rfl⟩
  cases operation with
  | lock transport writeCb =>
    cases holding with
    | none => exact ⟨rfl, .ok ⟨hind, rfl⟩⟩
    | some holding => exact ⟨rfl, .ok ⟨hind, rfl⟩⟩
  | getState =>
    cases holding with
    | none => exact ⟨rfl, .ok ⟨hind, rfl⟩⟩
    | some holding => exact ⟨rfl, .ok ⟨hind, rfl⟩⟩
  | release => exact ⟨rfl, .ok ⟨hind, rfl⟩⟩
  | handle input =>
    obtain _ | ⟨transport, writeCb, extended, _ | _⟩ := holding
    · exact ⟨rfl, .error _⟩
    · have hafter := via_after hind ⟨transport, writeCb, extended, false⟩
      simp only [Machine.contramap, slotMachine, Operation.via, Slot.via, Option.map_some,
        Holding.via, Slot.answer] at hafter ⊢
      rcases answer build none input with ⟨actions, e | k⟩
      · simp only [anonymous_eventsOf, true_and]
        exact .error e
      · simp only [List.map_append, anonymous_eventsOf, true_and, hafter]
        exact .ok ⟨hind.after _, rfl⟩
    · exact ⟨rfl, .error _⟩

/-- Two sessions of which the same has become, but for an aborted one. -/
structure SameFate (w w' : World) : Prop where
  lock : w.gdbSession.lock = w'.gdbSession.lock
  properties : w.gdbSession.properties = w'.gdbSession.properties
  writeResults : w.writeResults = w'.writeResults

/-- The transport and the callback make no difference if the writes succeed, or if the same
sessions are TCP sessions. -/
theorem transport_indifferent (build : Build) (f : Detour) (writeResults : ℕ → ErrT)
    (h : Indifferent f writeResults) (operations : List Operation) :
    ((sessionMachine build).run (initialized writeResults) operations).1.map
        Observation.anonymous =
      ((sessionMachine build).run (initialized writeResults)
        (operations.map (Operation.via f))).1.map Observation.anonymous ∧
    SameEnd (fun w w' => SameFate w w' ∧ w.gdbSession.state = w'.gdbSession.state)
      ((sessionMachine build).run (initialized writeResults) operations).2
      ((sessionMachine build).run (initialized writeResults)
        (operations.map (Operation.via f))).2 := by
  have hinit := represents_initialized writeResults
  obtain ⟨hout, hend⟩ := (simulates build).run_id hinit operations
  obtain ⟨hout', hend'⟩ := (simulates build).run_id hinit (operations.map (Operation.via f))
  have halike : Alike f ⟨none, writeResults⟩ ⟨none, writeResults⟩ := ⟨h, rfl⟩
  obtain ⟨hsame, hmid⟩ := (slot_simulates build f).run halike operations
  rw [run_contramap] at hsame hmid
  rw [hout, hout']
  refine ⟨hsame, ((hend.trans hmid).trans hend'.symm).mono ?_⟩
  rintro w w' ⟨_, ⟨⟨holding, results⟩, hw, -, rfl⟩, hw'⟩
  refine ⟨⟨?_, ?_, ?_⟩, ?_⟩
  · rw [hw.lock, hw'.lock]
    exact (Option.isSome_map ..).symm
  · rw [hw.properties, hw'.properties]
    cases holding <;> rfl
  · rw [hw.writeResults, hw'.writeResults]
    rfl
  · rw [hw.state, hw'.state]
    cases holding <;> rfl

theorem transport_indifferent_usb :
    ((sessionMachine .release).run (initialized fun _ => .ok)
        [.lock .tcpIp .networkGdbWriteCb, .handle (bytes "$?#3F")]).1.map Observation.anonymous =
      ((sessionMachine .release).run (initialized fun _ => .ok)
        [.lock .usbCdc (.other 1), .handle (bytes "$?#3F")]).1.map Observation.anonymous :=
  (transport_indifferent .release (fun _ _ => (.usbCdc, .other 1)) _ (Or.inl fun _ => rfl)
    [.lock .tcpIp .networkGdbWriteCb, .handle (bytes "$?#3F")]).1

/-- What is observed without callbacks and states. -/
def Observation.hidden : Observation → Observation
  | .state _ => .state .idle
  | observation => Observation.anonymous observation

/-- A slot, and one whose holder is not on TCP. -/
structure Trails (s t : Slot) : Prop where
  writeResults : s.writeResults = t.writeResults
  holding : s.holding.map (·.extended) = t.holding.map (·.extended)
  sturdy : ∀ holding ∈ t.holding, holding.transport ≠ .tcpIp ∧ holding.broken = false

theorem hidden_eventsOf (writeCb : GdbWriteCb) (writeResults : ℕ → ErrT) (actions : List Action) :
    ((eventsOf writeCb writeResults actions).map Observation.event).map Observation.hidden =
      (eventsOf (.other 0) writeResults actions).map .event := by
  rw [← anonymous_eventsOf writeCb, List.map_map, List.map_map]
  refine List.map_congr_left fun e _ => ?_
  cases e <;> rfl

theorem answer_outputs (build : Build) (s : Slot) (holding : Holding) (input : List UInt8) :
    ∃ observations, (s.answer build holding input).1 = .event (.handle input) :: observations := by
  have hactions : ∃ actions, (Server.answer build none input).1 = .handle input :: actions := by
    rcases answer_cases build none input with h | ⟨actions, h, -⟩ | ⟨n, e, -, -, -, h⟩ <;>
      rw [h] <;> exact ⟨_, rfl⟩
  obtain ⟨actions, hactions⟩ := hactions
  rw [Slot.answer]
  generalize Server.answer build none input = answer at hactions ⊢
  obtain ⟨_, e | k⟩ := answer
  all_goals
    subst hactions
    exact ⟨_, rfl⟩

/-- A TCP session does what any other does, until it halts because it is not active. -/
theorem slot_lags (build : Build) {f : Detour}
    (hf : ∀ transport writeCb, (f transport writeCb).1 ≠ .tcpIp) :
    Lags (slotMachine build) ((slotMachine build).contramap (Operation.via f))
      Observation.hidden Observation.hidden Trails "Session inactive." := by
  rintro ⟨holding, writeResults⟩ ⟨holding', _⟩ operation ⟨hresults, hholding, hsturdy⟩
  obtain rfl := hresults
  cases operation with
  | lock transport writeCb =>
    cases holding <;> cases holding' <;> simp only [Option.map_none, Option.map_some,
      reduceCtorEq] at hholding
    · refine Or.inl ⟨rfl, .ok ⟨rfl, rfl, ?_⟩⟩
      rintro _ ⟨⟩
      exact ⟨hf transport writeCb, rfl⟩
    · exact Or.inl ⟨rfl, .ok ⟨rfl, by simpa using hholding, hsturdy⟩⟩
  | getState => exact Or.inl ⟨rfl, .ok ⟨rfl, hholding, hsturdy⟩⟩
  | release => exact Or.inl ⟨rfl, .ok ⟨rfl, rfl, fun _ h => (by cases h)⟩⟩
  | handle input =>
    obtain _ | ⟨transport', writeCb', extended', broken'⟩ := holding'
    · cases holding with
      | none => exact Or.inl ⟨rfl, .error _⟩
      | some holding => cases hholding
    obtain _ | ⟨transport, writeCb, extended, broken⟩ := holding
    · cases hholding
    obtain ⟨htransport, hbroken⟩ := hsturdy _ rfl
    obtain rfl : broken' = false := hbroken
    obtain rfl : extended = extended' := Option.some.inj hholding
    cases broken with
    | false =>
      left
      simp only [Machine.contramap, slotMachine, Operation.via, Slot.answer]
      rcases Server.answer build none input with ⟨actions, e | k⟩
      · simp only [hidden_eventsOf, true_and]
        exact .error e
      · simp only [List.map_append, hidden_eventsOf, true_and]
        refine .ok ⟨rfl, rfl, ?_⟩
        rintro _ ⟨⟩
        exact ⟨htransport, by simpa [Holding.after] using fun h => absurd h htransport⟩
    | true =>
      right
      refine ⟨?_, rfl⟩
      obtain ⟨observations, hanswer⟩ := answer_outputs build
        ⟨some ⟨transport', writeCb', extended, false⟩, writeResults⟩
        ⟨transport', writeCb', extended, false⟩ input
      simp only [Machine.contramap, slotMachine, Operation.via, hanswer]
      exact List.prefix_append [_] _

/-- A session of which some transports are TCP does what it would do over others, or it is cut
short by the assertion that data for an aborted session trip. -/
theorem tcp_lags (build : Build) (f : Detour)
    (hf : ∀ transport writeCb, (f transport writeCb).1 ≠ .tcpIp) (writeResults : ℕ → ErrT)
    (operations : List Operation) :
    let run := (sessionMachine build).run (initialized writeResults) operations
    let sturdy := (sessionMachine build).run (initialized writeResults)
      (operations.map (Operation.via f))
    (run.1.map Observation.hidden = sturdy.1.map Observation.hidden ∧
        SameEnd SameFate run.2 sturdy.2) ∨
      (run.1.map Observation.hidden <+: sturdy.1.map Observation.hidden ∧
        run.2 = .error "Session inactive.") := by
  intro run sturdy
  have hinit := represents_initialized writeResults
  obtain ⟨hout, hend⟩ := (simulates build).run_id hinit operations
  obtain ⟨hout', hend'⟩ := (simulates build).run_id hinit (operations.map (Operation.via f))
  have htrails : Trails ⟨none, writeResults⟩ ⟨none, writeResults⟩ :=
    ⟨rfl, rfl, fun _ h => (by cases h)⟩
  have hlags := (slot_lags build hf).run htrails operations
  rw [run_contramap] at hlags
  rcases hlags with ⟨hsame, hmid⟩ | ⟨hfewer, hhalt⟩
  · refine Or.inl ⟨by rw [hout, hout', hsame], ((hend.trans hmid).trans hend'.symm).mono ?_⟩
    rintro w w' ⟨t, ⟨s, hw, hst⟩, hw'⟩
    refine ⟨?_, ?_, ?_⟩
    · have hheld := congrArg Option.isSome hst.holding
      rw [Option.isSome_map, Option.isSome_map] at hheld
      rw [hw.lock, hw'.lock, hheld]
    · have hextended := congrArg (Option.any id) hst.holding
      rw [Option.any_map, Option.any_map] at hextended
      rw [hw.properties, hw'.properties]
      exact congrArg (GdbSessionProperties.mk · false false) hextended
    · rw [hw.writeResults, hw'.writeResults, hst.writeResults]
  · refine Or.inr ⟨by rwa [hout, hout'], ?_⟩
    rw [hhalt] at hend
    change SameEnd Represents run.2 _ at hend
    generalize run.2 = result at hend
    cases hend
    rfl

theorem tcp_lags_abrt :
    ((sessionMachine .release).run (initialized fun _ => .abrt) [.lock .tcpIp .networkGdbWriteCb,
        .handle (bytes "$?#3F"), .handle (bytes "$g#67")]).1.map Observation.hidden <+:
      ((sessionMachine .release).run (initialized fun _ => .abrt) [.lock .usbCdc (.other 1),
        .handle (bytes "$?#3F"), .handle (bytes "$g#67")]).1.map Observation.hidden :=
  (tcp_lags .release (fun _ _ => (.usbCdc, .other 1)) (fun _ _ => by decide) _
    [.lock .tcpIp .networkGdbWriteCb, .handle (bytes "$?#3F"), .handle (bytes "$g#67")]).elim
      (fun h => h.1 ▸ List.prefix_rfl) And.left

end Transports
end NetBmp
