import NetBmp.Effects

/-!
# Who owns the session

Any number of transports compete for the one session. What one of them has been granted is kept
in a lease, which the code does not know: its owner, what it passed to `gdb_session_lock`, and
how much had been recorded by then.
-/

namespace NetBmp
namespace Ownership

open Hex Halting Server SessionStream Abort Effects

/-- A lock that has been granted and not been released yet. -/
structure Lease (T : Type) where
  owner : T
  transport : GdbSessionTransport
  writeCb : GdbWriteCb
  start : ℕ

/-- What has been recorded since the lock was granted. -/
def Lease.since {T : Type} (lease : Lease T) (w : World) : List Event := w.trace.drop lease.start

/-- The worlds between the calls of the transports, with the lease that is held. Data are handled
and the session is released by the owner only. -/
inductive Interleaving (build : Build) {T : Type} : World → Option (Lease T) → Prop
  | init {w : World} (writeResults : ℕ → ErrT)
      (h : gdbSessionInit.run (.boot writeResults) = .ok () w) : Interleaving build w none
  | granted {w w' : World} {held : Option (Lease T)} (hw : Interleaving build w held) (t : T)
      (transport : GdbSessionTransport) (writeCb : GdbWriteCb)
      (h : (gdbSessionLock transport writeCb).run w = .ok true w') :
      Interleaving build w' (some ⟨t, transport, writeCb, w.trace.length⟩)
  | refused {w w' : World} {held : Option (Lease T)} (hw : Interleaving build w held) (t : T)
      (transport : GdbSessionTransport) (writeCb : GdbWriteCb)
      (h : (gdbSessionLock transport writeCb).run w = .ok false w') : Interleaving build w' held
  | handle {w w' : World} {lease : Lease T} {k : ℕ} (hw : Interleaving build w (some lease)) (t : T)
      (howner : t = lease.owner) (hactive : w.gdbSession.state = .active) (input : List UInt8)
      (h : (gdbSessionHandle build input).run w = .ok k w') : Interleaving build w' (some lease)
  | release {w w' : World} {lease : Lease T} (hw : Interleaving build w (some lease)) (t : T)
      (howner : t = lease.owner) (h : gdbSessionRelease.run w = .ok () w') :
      Interleaving build w' none

/-- All writes among some events go to one callback. -/
def WritesTo (writeCb : GdbWriteCb) (events : List Event) : Prop :=
  ∀ cb data result, Event.write cb data result ∈ events → cb = writeCb

structure Vacant (w : World) : Prop where
  lock : w.gdbSession.lock = false
  state : w.gdbSession.state = .idle
  transport : w.gdbSession.transport = .none
  properties : w.gdbSession.properties = ⟨false, false, false⟩

/-- The session while a lease is held: it is aborted if a write has failed over TCP, and active
if not. -/
structure Held {T : Type} (lease : Lease T) (w : World) : Prop where
  lock : w.gdbSession.lock = true
  transport : w.gdbSession.transport = lease.transport
  writeCb : w.gdbSession.pWriteCb = some lease.writeCb
  start_le : lease.start ≤ w.trace.length
  writes : WritesTo lease.writeCb (lease.since w)
  state : (lease.transport = .tcpIp ∧ ¬Calm (lease.since w) ∧ w.gdbSession.state = .aborted) ∨
    ((lease.transport = .tcpIp → Calm (lease.since w)) ∧ w.gdbSession.state = .active)

theorem writesTo_append {writeCb : GdbWriteCb} {xs ys : List Event} (hx : WritesTo writeCb xs)
    (hy : WritesTo writeCb ys) : WritesTo writeCb (xs ++ ys) := fun cb data result h =>
  (List.mem_append.mp h).elim (hx cb data result) (hy cb data result)

theorem vacant_release {w w' : World} (h : gdbSessionRelease.run w = .ok () w') : Vacant w' := by
  cases h
  exact ⟨rfl, rfl, rfl, rfl⟩

theorem held_lockBy {T : Type} (w : World) (t : T) (transport : GdbSessionTransport)
    (writeCb : GdbWriteCb) :
    Held ⟨t, transport, writeCb, w.trace.length⟩ (w.lockBy transport writeCb) := by
  have hnothing : (Lease.mk t transport writeCb w.trace.length).since
      (w.lockBy transport writeCb) = [] := List.drop_length ..
  refine ⟨rfl, rfl, rfl, le_rfl, ?_, ?_⟩
  · rw [hnothing]
    exact fun _ _ _ h => (by cases h)
  · rw [hnothing]
    exact Or.inr ⟨fun _ => List.forall_mem_nil _, rfl⟩

theorem since_append {T : Type} {lease : Lease T} {w w' : World} {events : List Event}
    (hle : lease.start ≤ w.trace.length) (h : w'.trace = w.trace ++ events) :
    lease.since w' = lease.since w ++ events := by
  rw [Lease.since, h, List.drop_append_of_le_length hle]
  rfl

theorem Held.performs {T : Type} {lease : Lease T} {w : World} (h : Held lease w)
    (hactive : w.gdbSession.state = .active) (actions : List Action) :
    Held lease (w.performs actions) := by
  have htrace := performs_trace h.writeCb actions
  have hsince := since_append h.start_le htrace
  have hcalm : lease.transport = .tcpIp → Calm (lease.since w) := by
    rcases h.state with ⟨-, -, habort⟩ | ⟨hcalm, -⟩
    · rw [hactive] at habort
      cases habort
    · exact hcalm
  refine ⟨?_, ?_, ?_, ?_, ?_, ?_⟩
  · rw [World.performs_lock, h.lock]
  · rw [World.performs_transport, h.transport]
  · rw [World.performs_pWriteCb, h.writeCb]
  · rw [htrace, List.length_append]
    exact Nat.le_add_right_of_le h.start_le
  · rw [hsince]
    exact writesTo_append h.writes fun cb data result hmem => writeCb_of_mem_eventsOf hmem
  · rw [hsince]
    rcases performs_state h.writeCb actions with ⟨htcp, hfailed, hstate⟩ | ⟨hlater, hstate⟩
    · rw [h.transport] at htcp
      exact Or.inl ⟨htcp, fun hc => hfailed (calm_append.mp hc).2, hstate⟩
    · rw [h.transport] at hlater
      exact Or.inr ⟨fun htcp => calm_append.mpr ⟨hcalm htcp, hlater htcp⟩, hstate.trans hactive⟩

theorem Held.agrees {T : Type} {lease : Lease T} {w w' : World} (h : Held lease w)
    (hagrees : w.Agrees w') : Held lease w' := by
  obtain ⟨i, o, rfl⟩ := hagrees
  exact ⟨h.lock, h.transport, h.writeCb, h.start_le, h.writes, h.state⟩

theorem lock_refused {w w' : World} {transport : GdbSessionTransport} {writeCb : GdbWriteCb}
    (h : (gdbSessionLock transport writeCb).run w = .ok false w') : w' = w := by
  rw [run_gdbSessionLock] at h
  split_ifs at h
  · cases h
    rfl
  · cases h

/-- What is known of the session, by the lease that is held. -/
def Holds {T : Type} (w : World) : Option (Lease T) → Prop
  | none => Vacant w
  | some lease => Held lease w

/-- The invariant of all interleavings, by induction on their steps. -/
theorem Interleaving.holds {build : Build} {T : Type} {w : World} {held : Option (Lease T)}
    (h : Interleaving build w held) : Reachable build w ∧ Holds w held := by
  induction h with
  | init writeResults h =>
    refine ⟨.init writeResults h, ?_⟩
    cases h
    exact ⟨rfl, rfl, rfl, rfl⟩
  | granted _ t transport writeCb h ih =>
    refine ⟨.lock ih.1 transport writeCb h, ?_⟩
    rw [run_gdbSessionLock] at h
    split_ifs at h
    · cases h
    · cases h
      exact held_lockBy _ t transport writeCb
  | refused _ t transport writeCb h ih =>
    obtain rfl := lock_refused h
    exact ih
  | handle _ t howner hactive input h ih =>
    refine ⟨.handle ih.1 hactive input h, ?_⟩
    obtain ⟨actions, -, hagrees, -⟩ := (ih.1.serving hactive).of_handle h
    exact (ih.2.performs hactive actions).agrees hagrees
  | release _ t howner h ih =>
    exact ⟨.release ih.1 ih.2.lock h, vacant_release h⟩

/-- The session is consistent with the lease that is held. -/
structure Consistent (build : Build) {T : Type} (w : World) (held : Option (Lease T)) : Prop where
  semaphore : w.gdbSession.lock = true ↔
    w.gdbSession.state = .active ∨ w.gdbSession.state = .aborted
  exclusive : w.gdbSession.lock = true ↔ held ≠ none
  idle : w.gdbSession.state = .idle →
    w.gdbSession.transport = .none ∧ w.gdbSession.properties = ⟨false, false, false⟩
  aborted : w.gdbSession.state = .aborted →
    w.gdbSession.transport = .tcpIp ∧ ∃ lease ∈ held, ∃ e ∈ lease.since w, Failed e
  failed : w.gdbSession.transport = .tcpIp → ∀ lease ∈ held, (∃ e ∈ lease.since w, Failed e) →
    w.gdbSession.state = .aborted
  refused : ∀ transport writeCb w', (gdbSessionLock transport writeCb).run w = .ok false w' → w' = w
  writes : ∀ lease ∈ held, WritesTo lease.writeCb (lease.since w)
  handled : ∀ lease ∈ held, w.gdbSession.state = .active → ∀ input,
    WritesTo lease.writeCb (lease.since (endOf ((gdbSessionHandle build input).run w)))

theorem not_calm_iff {events : List Event} : ¬Calm events ↔ ∃ e ∈ events, Failed e := by
  simp [Calm]

theorem Vacant.consistent {build : Build} {T : Type} {w : World} (h : Vacant w) :
    Consistent build (T := T) w none where
  semaphore := by simp [h.lock, h.state]
  exclusive := by simp [h.lock]
  idle _ := ⟨h.transport, h.properties⟩
  aborted ha := by
    rw [h.state] at ha
    cases ha
  failed _ _ hl := by cases hl
  refused _ _ _ := lock_refused
  writes _ hl := by cases hl
  handled _ hl := by cases hl

theorem Held.consistent {build : Build} {T : Type} {lease : Lease T} {w : World}
    (h : Held lease w) (hr : Reachable build w) : Consistent build w (some lease) where
  semaphore := by
    refine iff_of_true h.lock ?_
    rcases h.state with ⟨-, -, hs⟩ | ⟨-, hs⟩
    · exact Or.inr hs
    · exact Or.inl hs
  exclusive := iff_of_true h.lock (Option.some_ne_none lease)
  idle hidle := by
    rcases h.state with ⟨-, -, hs⟩ | ⟨-, hs⟩ <;> rw [hidle] at hs <;> cases hs
  aborted ha := by
    rcases h.state with ⟨htcp, hfailed, -⟩ | ⟨-, hs⟩
    · exact ⟨h.transport.trans htcp, lease, rfl, not_calm_iff.mp hfailed⟩
    · rw [ha] at hs
      cases hs
  failed htcp lease' hl hfailed := by
    obtain rfl : lease = lease' := Option.some.inj hl
    rcases h.state with ⟨-, -, hs⟩ | ⟨hcalm, -⟩
    · exact hs
    · exact absurd (hcalm (h.transport.symm.trans htcp)) (not_calm_iff.mpr hfailed)
  refused _ _ _ := lock_refused
  writes lease' hl := by
    obtain rfl : lease = lease' := Option.some.inj hl
    exact h.writes
  handled lease' hl hactive input := by
    obtain rfl : lease = lease' := Option.some.inj hl
    have htrace := handle_trace (hr.serving hactive) h.writeCb build input
    rw [since_append h.start_le htrace]
    exact writesTo_append h.writes fun cb data result hmem => writeCb_of_mem_eventsOf hmem

/-- However the transports interleave, the session is consistent. -/
theorem interleaving_consistent {build : Build} {T : Type} {w : World}
    {held : Option (Lease T)} (h : Interleaving build w held) : Consistent build w held := by
  obtain ⟨hr, hholds⟩ := h.holds
  cases held with
  | none => exact Vacant.consistent hholds
  | some lease => exact Held.consistent hholds hr

/-- A session whose write has failed, and which a second transport cannot lock. -/
theorem consistent_locked : ∃ w, Consistent .release w
    (some (⟨0, .tcpIp, .networkGdbWriteCb, 0⟩ : Lease ℕ)) ∧ w.gdbSession.state = .aborted ∧
      (gdbSessionLock .usbCdc (.other 0)).run w = .ok false w := by
  let w₀ : World := endOf (gdbSessionInit.run (.boot fun _ => .abrt))
  let w₁ : World := .locked fun _ => .abrt
  have hinit : Interleaving .release (T := ℕ) w₀ none := .init (fun _ => .abrt) rfl
  have hfirst : Interleaving .release w₁ (some (⟨0, .tcpIp, .networkGdbWriteCb, 0⟩ : Lease ℕ)) :=
    .granted hinit 0 .tcpIp .networkGdbWriteCb rfl
  have hserving : Serving w₁ := (reachable_locked .release _).serving rfl
  obtain ⟨w₂, hrun, hagrees, -⟩ := hserving.handle_ok answer_stopReason
  have hsecond := Interleaving.handle hfirst 0 rfl rfl _ hrun
  have hrefused : (gdbSessionLock .usbCdc (.other 0)).run w₂ = .ok false w₂ := by
    rw [run_gdbSessionLock, if_pos hsecond.holds.2.lock]
  have haborted : w₂.gdbSession.state = .aborted := by
    obtain ⟨i, o, rfl⟩ := hagrees
    rfl
  exact ⟨w₂, interleaving_consistent (.refused hsecond 1 .usbCdc (.other 0) hrefused), haborted,
    hrefused⟩

end Ownership
end NetBmp
