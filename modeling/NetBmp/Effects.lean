import NetBmp.Abort

/-!
# The effects of actions

What actions leave in the record and in the state of the session follows from the actions, the
callback and the results of the writes alone.
-/

namespace NetBmp
namespace Effects

open Hex Halting Server SessionStream Serve Abort

/-- The events of actions, with the results that their writes meet. -/
def eventsOf (writeCb : GdbWriteCb) : (ℕ → ErrT) → List Action → List Event
  | _, [] => []
  | results, .send data :: actions =>
    .write writeCb data (results 0) :: eventsOf writeCb (fun n => results (n + 1)) actions
  | results, action :: actions => action.event writeCb :: eventsOf writeCb results actions

def dataSent : Action → Option (List UInt8)
  | .send data => some data
  | _ => none

def sentBy (actions : List Action) : List (List UInt8) := actions.filterMap dataSent

theorem written_eventsOf (writeCb : GdbWriteCb) (results : ℕ → ErrT) (actions : List Action) :
    written (eventsOf writeCb results actions) = sentBy actions := by
  induction actions generalizing results with
  | nil => rfl
  | cons action actions ih =>
    cases action with
    | send data => exact congrArg (data :: ·) (ih _)
    | _ => exact ih results

theorem calm_eventsOf (writeCb : GdbWriteCb) (results : ℕ → ErrT) (actions : List Action) :
    Calm (eventsOf writeCb results actions) ↔
      ∀ n < (sentBy actions).length, results n = .ok := by
  induction actions generalizing results with
  | nil => exact iff_of_true (List.forall_mem_nil _) (by simp [sentBy])
  | cons action actions ih =>
    cases action with
    | send data =>
      have hlength : (sentBy (.send data :: actions)).length = (sentBy actions).length + 1 := rfl
      rw [eventsOf, calm_cons, ih, hlength, Nat.forall_lt_succ_left]
      exact and_congr_left' not_not
    | _ =>
      refine (calm_cons.trans (and_iff_right ?_)).trans (ih results)
      exact id

theorem calm_of_reliable {w : World} (h : w.Reliable) (writeCb : GdbWriteCb)
    (actions : List Action) : Calm (eventsOf writeCb w.writeResults actions) :=
  (calm_eventsOf writeCb w.writeResults actions).mpr fun n _ => h n

theorem writeCb_of_mem_eventsOf {writeCb cb : GdbWriteCb} {results : ℕ → ErrT}
    {actions : List Action} {data : List UInt8} {result : ErrT}
    (h : .write cb data result ∈ eventsOf writeCb results actions) : cb = writeCb := by
  induction actions generalizing results with
  | nil => cases h
  | cons action actions ih =>
    cases action with
    | send _ =>
      rcases List.mem_cons.mp h with h | h
      · cases h
        rfl
      · exact ih h
    | _ =>
      rcases List.mem_cons.mp h with h | h
      · cases h
      · exact ih h

theorem performs_trace {w : World} {writeCb : GdbWriteCb}
    (hcb : w.gdbSession.pWriteCb = some writeCb) (actions : List Action) :
    (w.performs actions).trace = w.trace ++ eventsOf writeCb w.writeResults actions := by
  induction actions generalizing w with
  | nil => exact (List.append_nil _).symm
  | cons action actions ih =>
    rw [World.performs_cons, ih (by rw [World.perform_pWriteCb, hcb])]
    cases action <;> simp [World.perform, World.send, hcb, eventsOf, Action.event]

/-- A failed write aborts a TCP session, and nothing else changes the state. -/
theorem performs_state {w : World} {writeCb : GdbWriteCb}
    (hcb : w.gdbSession.pWriteCb = some writeCb) (actions : List Action) :
    (w.gdbSession.transport = .tcpIp ∧ ¬Calm (eventsOf writeCb w.writeResults actions) ∧
        (w.performs actions).gdbSession.state = .aborted) ∨
      ((w.gdbSession.transport = .tcpIp → Calm (eventsOf writeCb w.writeResults actions)) ∧
        (w.performs actions).gdbSession.state = w.gdbSession.state) := by
  induction actions generalizing w with
  | nil => exact Or.inr ⟨fun _ => List.forall_mem_nil _, rfl⟩
  | cons action actions ih =>
    have hrest := ih (w := w.perform action) (by rw [World.perform_pWriteCb, hcb])
    rw [World.perform_transport] at hrest
    cases action with
    | send data =>
      have hresults : (w.perform (.send data)).writeResults = fun n => w.writeResults (n + 1) := by
        simp [World.perform, World.send, hcb]
      have hfirst : (w.perform (.send data)).gdbSession.state =
          if w.writeResults 0 ≠ .ok ∧ w.gdbSession.transport = .tcpIp then .aborted
          else w.gdbSession.state := by
        simp [World.perform, World.send, hcb]
      rw [hresults, hfirst] at hrest
      have hcalm : Calm (eventsOf writeCb w.writeResults (.send data :: actions)) ↔
          w.writeResults 0 = .ok ∧
            Calm (eventsOf writeCb (fun n => w.writeResults (n + 1)) actions) :=
        calm_cons.trans (and_congr_left' not_not)
      rw [hcalm, World.performs_cons]
      rcases hrest with ⟨htcp, hfailed, hstate⟩ | ⟨hlater, hstate⟩
      · exact Or.inl ⟨htcp, fun h => hfailed h.2, hstate⟩
      by_cases htcp : w.gdbSession.transport = .tcpIp
      · by_cases hok : w.writeResults 0 = .ok
        · rw [if_neg fun h => h.1 hok] at hstate
          exact Or.inr ⟨fun _ => ⟨hok, hlater htcp⟩, hstate⟩
        · rw [if_pos ⟨hok, htcp⟩] at hstate
          exact Or.inl ⟨htcp, fun h => hok h.1, hstate⟩
      · rw [if_neg fun h => htcp h.2] at hstate
        exact Or.inr ⟨fun h => absurd h htcp, hstate⟩
    | _ =>
      have hcalm : ∀ e : Event, ¬Failed e → ∀ events, Calm (e :: events) ↔ Calm events :=
        fun e he events => calm_cons.trans (and_iff_right he)
      rw [eventsOf, hcalm _ id]
      · exact hrest
      · intro sent h
        cases h

/-- The error of the network module is that of its last write. -/
theorem performs_networkErr {w : World} (hcb : w.gdbSession.pWriteCb = some .networkGdbWriteCb)
    {actions : List Action}
    (hcalm : Calm (eventsOf .networkGdbWriteCb w.writeResults actions))
    (hsend : (∃ data, Action.send data ∈ actions) ∨ w.networkErr = .ok) :
    (w.performs actions).networkErr = .ok := by
  induction actions generalizing w with
  | nil => exact hsend.resolve_left (by simp)
  | cons action actions ih =>
    rw [World.performs_cons]
    have hrest := ih (w := w.perform action) (by rw [World.perform_pWriteCb, hcb])
    cases action with
    | send data =>
      have hresults : (w.perform (.send data)).writeResults = fun n => w.writeResults (n + 1) := by
        simp [World.perform, World.send, hcb]
      have herr : (w.perform (.send data)).networkErr = w.writeResults 0 := by
        simp [World.perform, World.send, hcb]
      obtain ⟨hok, hlater⟩ := calm_cons.mp hcalm
      rw [hresults, herr] at hrest
      exact hrest hlater (Or.inr (not_not.mp hok))
    | _ =>
      refine hrest (calm_cons.mp hcalm).2 (hsend.imp_left ?_)
      rintro ⟨data, hdata⟩
      exact ⟨data, (List.mem_cons.mp hdata).resolve_left (by simp)⟩

/-- Between its input and the consumed length, a call that returns executes and sends. If it
does neither, then it has consumed everything. -/
theorem answer_eq_ok {build : Build} {target : Option ℕ} {input : List UInt8}
    {actions : List Action} {k : ℕ} (h : answer build target input = (actions, .ok k)) :
    k = consumedOf input ∧ ∃ inner, actions = .handle input :: inner ++ [.consumed k] ∧
      (∀ a ∈ inner, (∃ data, a = .send data) ∨ ∃ stored, a = .execute stored) ∧
        ((inner = [] ∧ k = input.length) ∨ ∃ data, .send data ∈ inner) := by
  obtain ⟨hdigits, hpackets⟩ := harmless_of_answer h
  unfold consumedOf
  cases hend : packetEnd input with
  | none =>
    rw [answer_rest build target hend hdigits] at h
    cases h
    exact ⟨rfl, [], rfl, fun a ha => (by cases ha), Or.inl ⟨rfl, rfl⟩⟩
  | some n =>
    rw [answer_packet hend (hpackets n hend)] at h
    cases h
    obtain ⟨data, rest, hsend⟩ := packetActions_eq build target (input.take k)
    refine ⟨rfl, _, rfl, fun a ha => mem_packetActions ha, Or.inr ⟨data, ?_⟩⟩
    simp [hsend]

/-- A call of an active session leaves the events of its answer, whether it halts or not. -/
theorem handle_trace {w : World} (h : Serving w) {writeCb : GdbWriteCb}
    (hcb : w.gdbSession.pWriteCb = some writeCb) (build : Build) (input : List UInt8) :
    (endOf ((gdbSessionHandle build input).run w)).trace =
      w.trace ++ eventsOf writeCb w.writeResults (answer build w.gdbSession.pTarget input).1 := by
  obtain ⟨q, o, ho⟩ := run_gdbSessionHandle h.toReady h.active h.acks build input
  rw [← performs_trace hcb]
  rcases ha : answer build w.gdbSession.pTarget input with ⟨actions, e | k⟩
  · rw [ha] at ho
    rw [ho]
    rfl
  · rw [ha] at ho
    rw [ho.2]
    rfl

end Effects
end NetBmp
