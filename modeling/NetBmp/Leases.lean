import NetBmp.Ownership
import NetBmp.SessionMachine

/-!
# The properties of a lease

Of the properties of a session only the extended mode is ever set, by the command `!`, and no
transport finds it set by another.
-/

namespace NetBmp
namespace Leases

open Hex Halting Server SessionStream Abort Effects Ownership SessionMachine

/-- Among some events, a packet asks for the extended mode. -/
def AsksExtended (events : List Event) : Prop :=
  ∃ stored ∈ executed events, command stored = '!'.toUInt8

instance (events : List Event) : Decidable (AsksExtended events) := List.decidableBEx _ _

theorem asksExtended_append {xs ys : List Event} :
    AsksExtended (xs ++ ys) ↔ AsksExtended xs ∨ AsksExtended ys := by
  simp only [AsksExtended, executed, List.filterMap_append, List.mem_append, or_and_right,
    exists_or]

theorem asksExtended_eventsOf (writeCb : GdbWriteCb) (writeResults : ℕ → ErrT)
    (actions : List Action) :
    AsksExtended (eventsOf writeCb writeResults actions) ↔ actions.any asksExtended = true := by
  induction actions generalizing writeResults with
  | nil => exact iff_of_false (fun ⟨_, h, _⟩ => by cases h) Bool.false_ne_true
  | cons action actions ih =>
    rw [List.any_cons, Bool.or_eq_true]
    cases action with
    | execute stored =>
      have hevents : eventsOf writeCb writeResults (.execute stored :: actions) =
          [.execute stored] ++ eventsOf writeCb writeResults actions := rfl
      rw [hevents, asksExtended_append, ih]
      simp [AsksExtended, executed, storedOf, asksExtended]
    | send data => exact (ih _).trans (by simp [asksExtended])
    | _ => exact (ih writeResults).trans (by simp [asksExtended])

/-- The properties of the session, by the lease that is held. -/
def Marks {T : Type} (w : World) : Option (Lease T) → Prop
  | none => w.gdbSession.properties = ⟨false, false, false⟩
  | some lease => w.gdbSession.properties = ⟨AsksExtended (lease.since w), false, false⟩

theorem marks_performs {T : Type} {lease : Lease T} {w : World} (h : Held lease w)
    (hmarks : Marks w (some lease)) (actions : List Action) :
    Marks (w.performs actions) (some lease) := by
  have hsince := since_append h.start_le (performs_trace h.writeCb actions)
  have hproperties : w.gdbSession.properties = _ := hmarks
  have hiff : AsksExtended (lease.since (w.performs actions)) ↔
      AsksExtended (lease.since w) ∨ actions.any asksExtended = true := by
    rw [hsince, asksExtended_append, asksExtended_eventsOf]
  rw [Marks, performs_properties, hproperties]
  simp only [hiff, Bool.decide_or, Bool.decide_eq_true]

/-- The session has the properties that the holder of the lease has asked for. -/
theorem lease_properties {build : Build} {T : Type} {w : World} {held : Option (Lease T)}
    (h : Interleaving build w held) : Marks w held := by
  induction h with
  | init writeResults h =>
    cases h
    rfl
  | @granted w w' held hw t transport writeCb h ih =>
    rw [run_gdbSessionLock] at h
    split_ifs at h with hlock
    · cases h
    cases h
    obtain ⟨-, hholds⟩ := hw.holds
    cases held with
    | some lease => exact absurd hholds.lock hlock
    | none =>
      have hnothing : (Lease.mk t transport writeCb w.trace.length).since
          (w.lockBy transport writeCb) = [] := List.drop_length ..
      have hproperties : w.gdbSession.properties = _ := ih
      rw [Marks, hnothing]
      exact hproperties
  | refused _ t transport writeCb h ih =>
    obtain rfl := lock_refused h
    exact ih
  | handle hw t howner hactive input h ih =>
    obtain ⟨hr, hholds⟩ := hw.holds
    obtain ⟨actions, -, ⟨i, o, rfl⟩, -⟩ := (hr.serving hactive).of_handle h
    exact marks_performs hholds ih actions
  | release _ t howner h ih =>
    cases h
    rfl

theorem lease_properties_extended : ∃ w, w.gdbSession.properties.isExtendedRemote = true ∧
    Marks w (some (⟨0, .tcpIp, .networkGdbWriteCb, 0⟩ : Lease ℕ)) := by
  have hinit : Interleaving .release (T := ℕ) (endOf (gdbSessionInit.run (.boot fun _ => .ok)))
      none := .init (fun _ => .ok) rfl
  have hlock : Interleaving .release (.locked fun _ => .ok)
      (some (⟨0, .tcpIp, .networkGdbWriteCb, 0⟩ : Lease ℕ)) :=
    .granted hinit 0 .tcpIp .networkGdbWriteCb rfl
  have hanswer : answer .release none (bytes "$!#21") = ([.handle (bytes "$!#21"),
      .send [GdbPacketChar.ack], .execute (bytes "$!#21" ++ [0]), .send (wire (bytes "OK") ++ [0]),
      .consumed 5], .ok 5) := by
    decide +kernel
  obtain ⟨w, hrun, -, ⟨i, o, rfl⟩, -⟩ := continues_locked.handle_ok hanswer
  exact ⟨_, rfl, lease_properties (.handle hlock 0 rfl rfl (bytes "$!#21") hrun)⟩

end Leases
end NetBmp
