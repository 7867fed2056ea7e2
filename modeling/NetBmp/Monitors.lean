import NetBmp.Halting

/-!
# Monitors

A monitor reads the log that some code leaves behind and says which entry may come next. The rules
below follow the code, which may halt at any point: what it has logged by then has to be accepted
as well. Nothing in this file refers to a particular program.
-/

namespace NetBmp
namespace Monitors

open Halting

/-- The state after an entry that may come next. -/
structure Monitor (μ ι : Type) where
  start : μ
  next : μ → ι → Option μ

variable {μ ι σ ε α β : Type}

/-- The state after some entries, if all of them may come. -/
def Monitor.watch (M : Monitor μ ι) : μ → List ι → Option μ
  | m, [] => some m
  | m, i :: is => (M.next m i).bind fun n => M.watch n is

variable {M : Monitor μ ι} {log : σ → List ι}

theorem watch_append (m : μ) (is js : List ι) :
    M.watch m (is ++ js) = (M.watch m is).bind fun n => M.watch n js := by
  induction is generalizing m with
  | nil => rfl
  | cons i is ih =>
    cases h : M.next m i with
    | none => simp [Monitor.watch, h]
    | some n => simp [Monitor.watch, h, ih]

theorem watch_stays {m : μ} {is : List ι} (h : ∀ i ∈ is, M.next m i = some m) :
    M.watch m is = some m := by
  induction is with
  | nil => rfl
  | cons i is ih =>
    rw [Monitor.watch, h i (List.mem_cons_self ..)]
    exact ih fun j hj => h j (List.mem_cons_of_mem _ hj)

/-- The log so far has brought the monitor here. -/
def At (M : Monitor μ ι) (log : σ → List ι) (m : μ) (s : σ) : Prop :=
  M.watch M.start (log s) = some m

theorem At.append {m n : μ} {s t : σ} {is : List ι} (h : At M log m s) (hlog : log t = log s ++ is)
    (hwatch : M.watch m is = some n) : At M log n t := by
  rw [At, hlog, watch_append, h]
  exact hwatch

def Accepted (M : Monitor μ ι) (log : σ → List ι) (s : σ) : Prop := ∃ m, At M log m s

/-- Code that leaves an accepted log, with what holds if it comes to its end. -/
def Keeps (M : Monitor μ ι) (log : σ → List ι) (Q : α → μ → σ → Prop) :
    EStateM.Result ε σ α → Prop
  | .ok a s => ∃ m, At M log m s ∧ Q a m s
  | .error _ s => Accepted M log s

/-- Code that is started where `P` holds keeps the log accepted, and `Q` holds in the end. -/
def Guarded (M : Monitor μ ι) (log : σ → List ι) (P : μ → σ → Prop) (x : EStateM ε σ α)
    (Q : α → μ → σ → Prop) : Prop :=
  ∀ m s, At M log m s → P m s → Keeps M log Q (x.run s)

variable {P : μ → σ → Prop} {Q : α → μ → σ → Prop} {Q' : β → μ → σ → Prop}

theorem Guarded.pure {a : α} (h : ∀ m s, P m s → Q a m s) :
    Guarded M log P (Pure.pure a : EStateM ε σ α) Q := fun m s hm hP => ⟨m, hm, h m s hP⟩

theorem Guarded.bind {x : EStateM ε σ α} {f : α → EStateM ε σ β} (hx : Guarded M log P x Q)
    (hf : ∀ a, Guarded M log (Q a) (f a) Q') : Guarded M log P (x >>= f) Q' := by
  intro m s hm hP
  have hfirst := hx m s hm hP
  cases hrun : x.run s with
  | ok a t =>
    rw [hrun] at hfirst
    obtain ⟨n, hn, hQ⟩ := hfirst
    rw [run_bind_of_ok hrun]
    exact hf a n t hn hQ
  | error e t =>
    rw [hrun] at hfirst
    rw [run_bind_of_error hrun]
    exact hfirst

theorem Guarded.of_fact {φ : Prop} {x : EStateM ε σ α} (h : φ → Guarded M log P x Q) :
    Guarded M log (fun m s => φ ∧ P m s) x Q := fun m s hm hP => h hP.1 m s hm hP.2

theorem Guarded.step {x : EStateM ε σ α}
    (h : ∀ m s, P m s → ∃ a t is n, x.run s = .ok a t ∧ log t = log s ++ is ∧
      M.watch m is = some n ∧ Q a n t) : Guarded M log P x Q := by
  intro m s hm hP
  obtain ⟨a, t, is, n, hrun, hlog, hwatch, hQ⟩ := h m s hP
  rw [hrun]
  exact ⟨n, hm.append hlog hwatch, hQ⟩

end Monitors
end NetBmp
