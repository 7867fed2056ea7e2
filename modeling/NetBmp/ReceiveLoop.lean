import NetBmp.Effects

/-!
# The receive loop

Each call of the session takes a slice off the front of what is left of the data, and the loop
ends when nothing is left. The data are those of one fragment: the fragments behind it are
dropped with their buffer.
-/

namespace NetBmp
namespace ReceiveLoop

open Hex Halting Server SessionStream Serve Abort Effects

variable {α : Type}

/-- Calls that are each given all that is left of the data, and take at least one of them off the
front. They leave the last argument. -/
def Takes : List α → List (List α × ℕ) → List α → Prop
  | data, [], rest => data = rest
  | data, (input, k) :: calls, rest =>
    input = data ∧ 0 < k ∧ k ≤ data.length ∧ Takes (data.drop k) calls rest

def slices (calls : List (List α × ℕ)) : List (List α) := calls.map fun call => call.1.take call.2

theorem Takes.flatten_slices {data rest : List α} {calls : List (List α × ℕ)}
    (h : Takes data calls rest) : (slices calls).flatten ++ rest = data := by
  induction calls generalizing data with
  | nil => exact Eq.symm h
  | cons call calls ih =>
    obtain ⟨input, k⟩ := call
    obtain ⟨rfl, -, -, hrest⟩ := h
    have hflatten : (slices ((input, k) :: calls)).flatten =
        input.take k ++ (slices calls).flatten := rfl
    rw [hflatten, List.append_assoc, ih hrest, List.take_append_drop]

theorem Takes.flatten_slices_eq {data : List α} {calls : List (List α × ℕ)}
    (h : Takes data calls []) : (slices calls).flatten = data := by
  rw [← h.flatten_slices, List.append_nil]

theorem Takes.length_le {data rest : List α} {calls : List (List α × ℕ)}
    (h : Takes data calls rest) : calls.length ≤ data.length := by
  induction calls generalizing data with
  | nil => exact Nat.zero_le _
  | cons call calls ih =>
    obtain ⟨input, k⟩ := call
    obtain ⟨rfl, hpos, hle, hrest⟩ := h
    have hcalls := ih hrest
    rw [List.length_drop] at hcalls
    rw [List.length_cons]
    omega

def inputOf : Event → Option (List UInt8)
  | .handle input => some input
  | _ => none

def lengthOf : Event → Option ℕ
  | .consumed length => some length
  | _ => none

/-- The calls that have returned, with their inputs and the lengths they have consumed. -/
def calls (events : List Event) : List (List UInt8 × ℕ) :=
  (events.filterMap inputOf).zip (events.filterMap lengthOf)

theorem filterMap_eventsOf {β : Type} {f : Event → Option β}
    (hf : ∀ cb data result, f (.write cb data result) = none) (writeCb : GdbWriteCb)
    (results : ℕ → ErrT) (actions : List Action) :
    (eventsOf writeCb results actions).filterMap f =
      actions.filterMap fun action => f (action.event writeCb) := by
  induction actions generalizing results with
  | nil => rfl
  | cons action actions ih =>
    cases action with
    | send data => simp [eventsOf, hf, ih, Action.event]
    | _ => simp [eventsOf, List.filterMap_cons, ih]

theorem calls_eventsOf (writeCb : GdbWriteCb) (results : ℕ → ErrT) {input : List UInt8} {k : ℕ}
    {inner : List Action}
    (hinner : ∀ a ∈ inner, (∃ data, a = .send data) ∨ ∃ stored, a = .execute stored)
    (later : List Event) :
    calls (eventsOf writeCb results (.handle input :: inner ++ [.consumed k]) ++ later) =
      (input, k) :: calls later := by
  have hnone : ∀ {β : Type} {f : Event → Option β}, (∀ cb data result, f (.write cb data result) = none) →
      (∀ stored, f (.execute stored) = none) →
      inner.filterMap (fun action => f (action.event writeCb)) = [] := by
    intro β f hwrite hexecute
    refine List.filterMap_eq_nil_iff.mpr fun a ha => ?_
    rcases hinner a ha with ⟨data, rfl⟩ | ⟨stored, rfl⟩
    · exact hwrite ..
    · exact hexecute _
  have hinputs : (eventsOf writeCb results (.handle input :: inner ++ [.consumed k])).filterMap
      inputOf = [input] := by
    rw [filterMap_eventsOf fun _ _ _ => rfl, List.filterMap_append, List.filterMap_cons,
      hnone (fun _ _ _ => rfl) fun _ => rfl]
    rfl
  have hlengths : (eventsOf writeCb results (.handle input :: inner ++ [.consumed k])).filterMap
      lengthOf = [k] := by
    rw [filterMap_eventsOf fun _ _ _ => rfl, List.filterMap_append, List.filterMap_cons,
      hnone (fun _ _ _ => rfl) fun _ => rfl]
    rfl
  rw [calls, List.filterMap_append, List.filterMap_append, hinputs, hlengths]
  rfl

/-- What one call does. It takes a slice off its input. If no write fails, then the session
remains active, and an error that an earlier write has left in the network module is either
replaced or comes too late. -/
structure Slice (w : World) (input : List UInt8) (k : ℕ) (w' : World) (events : List Event) :
    Prop where
  trace : w'.trace = w.trace ++ events
  pos : 0 < k
  le : k ≤ input.length
  calls : ∀ later, calls (events ++ later) = (input, k) :: calls later
  network : w'.gdbSession.pWriteCb = some .networkGdbWriteCb
  active : Calm events → w'.gdbSession.state = .active
  networkErr : Calm events → w'.networkErr = .ok ∨ k = input.length
  reliable : w.Reliable → w'.Reliable ∧ Calm events

theorem handle_slice {build : Build} {w w' : World} {input : List UInt8} {k : ℕ} (h : Sound w)
    (hactive : w.gdbSession.state = .active)
    (hnetwork : w.gdbSession.pWriteCb = some .networkGdbWriteCb) (hinput : 0 < input.length)
    (hrun : (gdbSessionHandle build input).run w = .ok k w') :
    ∃ events, Slice w input k w' events := by
  obtain ⟨actions, ha, hagrees, -⟩ := (h.serving hactive).of_handle hrun
  have htrace := performs_trace hnetwork actions
  have hstate := performs_state hnetwork actions
  have hcb := World.performs_pWriteCb w actions
  have herr := @performs_networkErr w hnetwork actions
  have hreliable := fun hr : w.Reliable => (hr.performs hnetwork actions).1
  obtain ⟨rfl, inner, rfl, hinner, hsend⟩ := answer_eq_ok ha
  obtain ⟨hpos, hle⟩ := consumedOf_bounds hinput
  obtain ⟨i, o, rfl⟩ := hagrees
  refine ⟨_, htrace, hpos, hle, calls_eventsOf _ _ hinner, hcb.trans hnetwork, fun hcalm => ?_,
    fun hcalm => ?_, fun hr => ⟨hreliable hr, calm_of_reliable hr _ _⟩⟩
  · rcases hstate with ⟨-, hfailed, -⟩ | ⟨-, hsame⟩
    · exact absurd hcalm hfailed
    · exact hsame.trans hactive
  · rcases hsend with ⟨-, hall⟩ | ⟨data, hdata⟩
    · exact Or.inr hall
    · exact Or.inl (herr hcalm (Or.inl ⟨data, by simp [hdata]⟩))

/-- What becomes of data: the calls take all of them unless a write fails, or one of the calls
trips an assertion. -/
def Served (build : Build) (data : List UInt8) (w : World) :
    EStateM.Result String World ErrT → Prop
  | .ok err w' => ∃ events, w'.trace = w.trace ++ events ∧ (w.Reliable → Calm events) ∧
      (Calm events → err = .ok ∧ Takes data (calls events) [])
  | .error e w' => ∃ events rest w₁, w₁.trace = w.trace ++ events ∧
      Takes data (calls events) rest ∧ Sound w₁ ∧
        (w.Reliable → w.gdbSession.state = .active → w₁.gdbSession.state = .active) ∧
          (gdbSessionHandle build rest).run w₁ = .error e w'

theorem Served.after {build : Build} {data : List UInt8} {k : ℕ} {w w₁ : World}
    {events : List Event} (h : Slice w data k w₁ events) {r : EStateM.Result String World ErrT}
    (hr : Served build (data.drop k) w₁ r) : Served build data w r := by
  cases r with
  | ok err w' =>
    obtain ⟨later, htrace, hreliable, hlater⟩ := hr
    refine ⟨events ++ later, by rw [htrace, h.trace, List.append_assoc], fun hw => ?_, fun hcalm => ?_⟩
    · obtain ⟨hw₁, hcalm⟩ := h.reliable hw
      exact calm_append.mpr ⟨hcalm, hreliable hw₁⟩
    · obtain ⟨herr, htakes⟩ := hlater (calm_append.mp hcalm).2
      rw [h.calls]
      exact ⟨herr, rfl, h.pos, h.le, htakes⟩
  | error e w' =>
    obtain ⟨later, rest, w₂, htrace, htakes, hsound, hactive, hrun⟩ := hr
    refine ⟨events ++ later, rest, w₂, by rw [htrace, h.trace, List.append_assoc], ?_, hsound,
      fun hw _ => ?_, hrun⟩
    · rw [h.calls]
      exact ⟨rfl, h.pos, h.le, htakes⟩
    · obtain ⟨hw₁, hcalm⟩ := h.reliable hw
      exact hactive hw₁ (h.active hcalm)

/-- The loop, by induction on what is left. -/
theorem loop_served (build : Build) {data : List UInt8} {total : ℕ} (hle : total ≤ data.length)
    {w : World} (h : Sound w) (hnetwork : w.gdbSession.pWriteCb = some .networkGdbWriteCb) :
    Served build (data.drop total) w ((networkServeGdbLoop build data total).run w) := by
  induction hm : data.length - total using Nat.strong_induction_on generalizing total w with
  | _ m ih =>
    rcases Nat.eq_or_lt_of_le hle with hdone | hlt
    · rw [run_loop_done build hdone, hdone, List.drop_length]
      exact ⟨[], (List.append_nil _).symm, fun _ => List.forall_mem_nil _, fun _ => ⟨rfl, rfl⟩⟩
    have hlength : (data.drop total).length = data.length - total := List.length_drop
    cases hrun : (gdbSessionHandle build (data.drop total)).run w with
    | error e w₁ =>
      rw [run_loop_error hlt hrun]
      exact ⟨[], _, w, (List.append_nil _).symm, rfl, h, fun _ hactive => hactive, hrun⟩
    | ok k w₁ =>
      have hactive := active_of_handle hrun
      obtain ⟨events, hslice⟩ := handle_slice h hactive hnetwork (by omega) hrun
      have hk := hslice.le
      rw [run_loop_ok hlt hrun hslice.pos.ne']
      split_ifs with herr haborted
      · -- a stale error ends the loop, but not before its end
        refine ⟨events, hslice.trace, fun hr => (hslice.reliable hr).2, fun hcalm => ⟨rfl, ?_⟩⟩
        have hall := (hslice.networkErr hcalm).resolve_left herr
        rw [← List.append_nil events, hslice.calls]
        exact ⟨rfl, hslice.pos, hk, List.drop_eq_nil_of_le hall.ge⟩
      · refine ⟨events, hslice.trace, fun hr => (hslice.reliable hr).2, fun hcalm => ?_⟩
        rw [hslice.active hcalm] at haborted
        cases haborted
      · have hnext : total + k ≤ data.length := by omega
        have hpos := hslice.pos
        have hrest := ih _ (by omega) hnext (sound_gdbSessionHandle h hactive hrun) hslice.network rfl
        rw [← List.drop_drop] at hrest
        exact hrest.after hslice

theorem handle_message {build : Build} {w w' : World} {input : List UInt8} {e : String}
    (h : Sound w) (hrun : (gdbSessionHandle build input).run w = .error e w') :
    e ≠ "No data consumed." ∧ e ≠ "Data size inconsistent." := by
  by_cases hactive : w.gdbSession.state = .active
  · obtain ⟨actions, ha⟩ := (h.serving hactive).of_handle_error hrun
    rcases answer_eq_error ha with rfl | ⟨stored, hr⟩
    · decide
    · constructor <;> rintro rfl <;> exact absurd (respond_eq_error hr) (by decide)
  · rw [run_handle_inactive build hactive input] at hrun
    cases hrun
    decide

theorem networkServeGdb_served (build : Build) {netbuf : Netbuf} {data : List UInt8}
    (hdata : netbufData netbuf = some data) {w : World} (h : Sound w)
    (hnetwork : w.gdbSession.pWriteCb = some .networkGdbWriteCb) :
    Served build data w ((networkServeGdb build netbuf).run w) := by
  unfold networkServeGdb
  rw [hdata]
  exact loop_served build (Nat.zero_le _) h hnetwork

def ServedWhole (build : Build) (data : List UInt8) (w : World) :
    EStateM.Result String World ErrT → Prop
  | .ok err w' => err = .ok ∧ ∃ events, w'.trace = w.trace ++ events ∧
      Takes data (calls events) [] ∧ (slices (calls events)).flatten = data ∧
        (calls events).length ≤ data.length
  | .error e w' => e ≠ "No data consumed." ∧ e ≠ "Data size inconsistent." ∧
      ∃ events rest w₁, w₁.trace = w.trace ++ events ∧ Takes data (calls events) rest ∧
        w₁.gdbSession.state = .active ∧ (gdbSessionHandle build rest).run w₁ = .error e w'

/-- With writes that succeed, the loop comes to its end and its calls partition the data. -/
theorem receive_loop_partitions (build : Build) {w : World} (hr : Reachable build w)
    (hactive : w.gdbSession.state = .active)
    (hnetwork : w.gdbSession.pWriteCb = some .networkGdbWriteCb) (hreliable : w.Reliable)
    {netbuf : Netbuf} {data : List UInt8} (hdata : netbufData netbuf = some data) :
    ServedWhole build data w ((networkServeGdb build netbuf).run w) := by
  have hserved := networkServeGdb_served build hdata hr.sound hnetwork
  cases hrun : (networkServeGdb build netbuf).run w with
  | ok err w' =>
    rw [hrun] at hserved
    obtain ⟨events, htrace, hcalm, hall⟩ := hserved
    obtain ⟨herr, htakes⟩ := hall (hcalm hreliable)
    exact ⟨herr, events, htrace, htakes, htakes.flatten_slices_eq, htakes.length_le⟩
  | error e w' =>
    rw [hrun] at hserved
    obtain ⟨events, rest, w₁, htrace, htakes, hsound, hstate, hhandle⟩ := hserved
    obtain ⟨hconsumed, hsize⟩ := handle_message hsound hhandle
    exact ⟨hconsumed, hsize, events, rest, w₁, htrace, htakes, hstate hreliable hactive, hhandle⟩

theorem receive_loop_partitions_locked : ServedWhole .release (bytes "$?#3F$g#67$m")
    (.locked fun _ => .ok) ((networkServeGdb .release (.single (bytes "$?#3F$g#67$m"))).run
      (.locked fun _ => .ok)) :=
  receive_loop_partitions .release (reachable_locked .release _) rfl rfl (fun _ => rfl) rfl

/-- The slices are all the data of the buffer, fragment after fragment. -/
def ConsumesAll (netbuf : Netbuf) (events : List Event) : Prop :=
  (slices (calls events)).flatten = netbuf.fragments.flatten

/-- No byte is skipped exactly when the buffer has one fragment. -/
theorem consumesAll_iff (build : Build) {w w' : World} (hr : Reachable build w)
    (hnetwork : w.gdbSession.pWriteCb = some .networkGdbWriteCb) {netbuf : Netbuf}
    (hfragments : netbuf.fragments ≠ []) (hnonempty : ∀ fragment ∈ netbuf.fragments, fragment ≠ [])
    (hrun : (networkServeGdb build netbuf).run w = .ok .ok w') {events : List Event}
    (htrace : w'.trace = w.trace ++ events) (hcalm : Calm events) :
    ConsumesAll netbuf events ↔ netbuf.fragments.length = 1 := by
  obtain ⟨data, fragments, hsplit⟩ := List.exists_cons_of_ne_nil hfragments
  have hdata : netbufData netbuf = some data := by rw [netbufData, hsplit, List.head?_cons]
  have hserved := networkServeGdb_served build hdata hr.sound hnetwork
  rw [hrun] at hserved
  obtain ⟨events', htrace', -, hall⟩ := hserved
  obtain rfl : events = events' := List.append_cancel_left (htrace.symm.trans htrace')
  have hslices := (hall hcalm).2.flatten_slices_eq
  rw [ConsumesAll, hslices, hsplit, List.flatten_cons]
  constructor
  · intro hflatten
    have hrest : fragments.flatten = [] := List.self_eq_append_right.mp hflatten
    cases fragments with
    | nil => rfl
    | cons next fragments =>
      have hnext : next ≠ [] := hnonempty next (by simp [hsplit])
      exact absurd (List.append_eq_nil_iff.mp hrest).1 hnext
  · intro hone
    have hrest : fragments = [] := List.length_eq_zero_iff.mp (Nat.succ.inj hone)
    rw [hrest, List.flatten_nil, List.append_nil]

theorem run_networkServeGdb_once {build : Build} {target : Option ℕ} {w : World}
    (h : Continues target .networkGdbWriteCb w) (herr : w.networkErr = .ok) {netbuf : Netbuf}
    {data : List UInt8} (hdata : netbufData netbuf = some data) (hpos : 0 < data.length)
    {actions : List Action} (ha : answer build target data = (actions, .ok data.length)) :
    ∃ w', (networkServeGdb build netbuf).run w = .ok .ok w' ∧
      w'.trace = w.trace ++ actions.map (·.event .networkGdbWriteCb) := by
  obtain ⟨w', hrun, hcontinues, hagrees, htrace⟩ := h.handle_ok ha
  have herr' : w'.networkErr = .ok := by
    obtain ⟨i, o, rfl⟩ := hagrees
    exact (h.reliable.performs h.writeCb_eq actions).2.2.2 herr
  have hstate : w'.gdbSession.state ≠ .aborted := by simp [hcontinues.active]
  refine ⟨w', ?_, htrace⟩
  rw [networkServeGdb, hdata]
  have hfirst : (networkServeGdbLoop build data 0).run w = _ := run_loop_ok hpos hrun hpos.ne'
  rw [if_neg (not_not.mpr herr'), if_neg hstate, Nat.zero_add, run_loop_done build rfl] at hfirst
  exact hfirst

theorem run_networkServeGdb_stopReason (netbuf : Netbuf)
    (hdata : netbufData netbuf = some (bytes "$?#3F")) : ∃ w' events,
      (networkServeGdb .release netbuf).run (.locked fun _ => .ok) = .ok .ok w' ∧
      w'.trace = (World.locked fun _ => .ok).trace ++ events ∧ Calm events ∧
      calls events = [(bytes "$?#3F", 5)] := by
  obtain ⟨w', hrun, htrace⟩ := run_networkServeGdb_once continues_locked rfl hdata (by decide)
    answer_stopReason
  refine ⟨w', _, hrun, htrace, ?_, rfl⟩
  simp [Calm, Failed, Action.event]

theorem consumesAll_single : ∃ w' events,
    (networkServeGdb .release (.single (bytes "$?#3F"))).run (.locked fun _ => .ok) = .ok .ok w' ∧
      w'.trace = (World.locked fun _ => .ok).trace ++ events ∧
      ConsumesAll (.single (bytes "$?#3F")) events := by
  obtain ⟨w', events, hrun, htrace, hcalm, -⟩ :=
    run_networkServeGdb_stopReason (.single (bytes "$?#3F")) rfl
  exact ⟨w', events, hrun, htrace, (consumesAll_iff .release (reachable_locked .release _) rfl
    (List.cons_ne_nil _ _) (by decide) hrun htrace hcalm).mpr rfl⟩

/-- A second fragment is dropped. -/
theorem second_fragment_dropped : ∃ w' events,
    (networkServeGdb .release ⟨[bytes "$?#3F", bytes "$g#67"], by decide⟩).run
        (.locked fun _ => .ok) = .ok .ok w' ∧
      w'.trace = (World.locked fun _ => .ok).trace ++ events ∧ Calm events ∧
      ¬ConsumesAll ⟨[bytes "$?#3F", bytes "$g#67"], by decide⟩ events := by
  obtain ⟨w', events, hrun, htrace, hcalm, hcalls⟩ := run_networkServeGdb_stopReason
    ⟨[bytes "$?#3F", bytes "$g#67"], by decide⟩ rfl
  refine ⟨w', events, hrun, htrace, hcalm, ?_⟩
  rw [ConsumesAll, hcalls]
  decide

end ReceiveLoop
end NetBmp
