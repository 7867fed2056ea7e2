import NetBmp.Halting

/-!
# Interleaved threads with critical sections

Threads access a shared state step by step, and after each step another thread may go on. If they
work on the state only while they hold a semaphore, then the state is always one that a single
thread reaches which makes the granted sections one after the other. Nothing in this file refers
to a particular program.
-/

namespace NetBmp
namespace Interleaving

open Halting

/-- Code that can be interrupted after each access to the shared state. -/
inductive Code (ε σ α : Type) : Type 1
  | done (a : α)
  | step {β : Type} (x : EStateM ε σ β) (next : β → Code ε σ α)

variable {ε σ α β κ : Type}

/-- The code leaves this part of the state as it is. -/
def Unchanged (part : σ → β) (x : EStateM ε σ α) : Prop := ∀ s, part (endOf (x.run s)) = part s

namespace Unchanged

variable {γ : Type} {part : σ → γ}

theorem pure (a : α) : Unchanged part (Pure.pure a : EStateM ε σ α) := fun _ => rfl

theorem throw (e : ε) : Unchanged part (MonadExcept.throw e : EStateM ε σ α) := fun _ => rfl

theorem get : Unchanged part (MonadState.get : EStateM ε σ σ) := fun _ => rfl

theorem modify {f : σ → σ} (h : ∀ s, part (f s) = part s) :
    Unchanged part (modify f : EStateM ε σ PUnit) := h

theorem bind {x : EStateM ε σ α} {f : α → EStateM ε σ β} (hx : Unchanged part x)
    (hf : ∀ a, Unchanged part (f a)) : Unchanged part (x >>= f) := by
  intro s
  have hfirst := hx s
  cases hrun : x.run s with
  | ok a t =>
    rw [hrun] at hfirst
    rw [run_bind_of_ok hrun]
    exact (hf a t).trans hfirst
  | error e t =>
    rw [hrun] at hfirst
    rw [run_bind_of_error hrun]
    exact hfirst

theorem lift (x : Except ε α) : Unchanged part (Halting.lift x : EStateM ε σ α) := by
  cases x with
  | ok a => exact pure a
  | error e => exact throw e

theorem ite {c : Prop} [Decidable c] {x y : EStateM ε σ α} (hx : Unchanged part x)
    (hy : Unchanged part y) : Unchanged part (if c then x else y) := by
  split_ifs
  · exact hx
  · exact hy

theorem forM {l : List β} {f : β → EStateM ε σ PUnit} (h : ∀ b ∈ l, Unchanged part (f b)) :
    Unchanged part (l.forM f) := by
  induction l with
  | nil => exact pure _
  | cons b l ih =>
    exact (h b (List.mem_cons_self ..)).bind fun _ => ih fun c hc => h c (List.mem_cons_of_mem b hc)

end Unchanged

namespace Code

/-- The code without interruption. -/
def run : Code ε σ α → EStateM ε σ α
  | .done a => return a
  | .step x next => do (next (← x)).run

def bind : Code ε σ α → (α → Code ε σ β) → Code ε σ β
  | .done a, f => f a
  | .step x next, f => .step x fun b => (next b).bind f

/-- The first accesses, what is left of the code after them, and the state. -/
def first : ℕ → Code ε σ α → σ → Except (ε × σ) (Code ε σ α × σ)
  | n + 1, .step x next, s =>
    match x.run s with
    | .ok b t => (next b).first n t
    | .error e t => .error (e, t)
  | _, c, s => .ok (c, s)

def Keeps (part : σ → β) : Code ε σ α → Prop
  | .done _ => True
  | .step x next => Unchanged part x ∧ ∀ a, (next a).Keeps part

theorem run_bind (c : Code ε σ α) (f : α → Code ε σ β) :
    (c.bind f).run = c.run >>= fun a => (f a).run := by
  induction c with
  | done a => rfl
  | step x next ih =>
    simp only [bind, run, bind_assoc, ih]

theorem Keeps.bind {γ : Type} {part : σ → γ} {c : Code ε σ α} {f : α → Code ε σ β}
    (hc : c.Keeps part) (hf : ∀ a, (f a).Keeps part) : (c.bind f).Keeps part := by
  induction c with
  | done a => exact hf a
  | step x next ih => exact ⟨hc.1, fun b => ih b (hc.2 b)⟩

theorem Keeps.ite {γ : Type} {part : σ → γ} {p : Prop} [Decidable p] {c d : Code ε σ α}
    (hc : c.Keeps part) (hd : d.Keeps part) : (if p then c else d).Keeps part := by
  split_ifs
  · exact hc
  · exact hd

@[simp] theorem first_zero (c : Code ε σ α) (s : σ) : c.first 0 s = .ok (c, s) := by
  cases c <;> rfl

theorem first_step_ok {x : EStateM ε σ β} {next : β → Code ε σ α} {s t : σ} {b : β}
    (h : x.run s = .ok b t) (n : ℕ) : (Code.step x next).first (n + 1) s = (next b).first n t := by
  rw [first, h]

theorem run_step_ok {x : EStateM ε σ β} {next : β → Code ε σ α} {s t : σ} {b : β}
    (h : x.run s = .ok b t) : (Code.step x next).run.run s = (next b).run.run t := by
  rw [run, run_bind_of_ok h]

theorem run_step_error {x : EStateM ε σ β} {next : β → Code ε σ α} {s t : σ} {e : ε}
    (h : x.run s = .error e t) : (Code.step x next).run.run s = .error e t := by
  rw [run, run_bind_of_error h]

end Code

/-- A binary semaphore in the shared state, for which nobody waits. -/
structure Semaphore (ε σ : Type) where
  taken : σ → Bool
  wait : EStateM ε σ Bool
  signal : EStateM ε σ Unit
  wait_taken : ∀ s, taken s = true → wait.run s = .ok false s
  wait_free : ∀ s, taken s = false → ∃ t, wait.run s = .ok true t ∧ taken t = true
  signal_free : ∀ s, ∃ t, signal.run s = .ok () t ∧ taken t = false

variable {ι : Type*}

namespace Semaphore

variable (S : Semaphore ε σ) (body : ι → Code ε σ Unit)

/-- A thread that tries to make some sections, one after the other. It goes on to the next one when
a section is not granted. -/
def attempts : List ι → Code ε σ Unit
  | [] => .done ()
  | i :: is => .step S.wait fun granted =>
    if granted then (body i).bind fun _ => .step S.signal fun _ => attempts is else attempts is

/-- What is left of a thread within a section. -/
def finish (c : Code ε σ Unit) (is : List ι) : Code ε σ Unit :=
  c.bind fun _ => .step S.signal fun _ => S.attempts body is

/-- The threads, of which one may be within a section. -/
def threads [DecidableEq κ] (holder : Option (κ × Code ε σ Unit)) (todo : κ → List ι) (k : κ) :
    Code ε σ Unit :=
  match holder with
  | none => S.attempts body (todo k)
  | some (h, c) => if k = h then S.finish body c (todo k) else S.attempts body (todo k)

/-- The single thread that finishes the section of the holder and makes some sections then. -/
def serial (holder : Option (κ × Code ε σ Unit)) (is : List ι) : Code ε σ Unit :=
  match holder with
  | none => S.attempts body is
  | some (_, c) => S.finish body c is

end Semaphore

/-- The threads take turns as the schedule says. -/
def interleave [DecidableEq κ] : List κ → (κ → Code ε σ Unit) → σ →
    Except (ε × σ) ((κ → Code ε σ Unit) × σ)
  | [], threads, s => .ok (threads, s)
  | k :: ks, threads, s =>
    match threads k with
    | .done _ => interleave ks threads s
    | .step x next =>
      match x.run s with
      | .ok b t => interleave ks (Function.update threads k (next b)) t
      | .error e t => .error (e, t)

variable [DecidableEq κ]

/-- The sections of each thread are granted in the order in which it tries them. -/
def Ordered (todo : κ → List ι) (granted : List (κ × ι)) : Prop :=
  ∀ k, ((granted.filter (·.1 = k)).map Prod.snd).Sublist (todo k)

theorem Ordered.nil (todo : κ → List ι) : Ordered todo [] := fun _ => List.nil_sublist _

theorem Ordered.skip {todo : κ → List ι} {granted : List (κ × ι)} {k : κ} {i : ι} {is : List ι}
    (htodo : todo k = i :: is) (h : Ordered (Function.update todo k is) granted) :
    Ordered todo granted := by
  intro j
  have hj := h j
  by_cases hjk : j = k
  · subst hjk
    rw [Function.update_self] at hj
    rw [htodo]
    exact hj.cons i
  · rwa [Function.update_of_ne hjk] at hj

theorem Ordered.grant {todo : κ → List ι} {granted : List (κ × ι)} {k : κ} {i : ι} {is : List ι}
    (htodo : todo k = i :: is) (h : Ordered (Function.update todo k is) granted) :
    Ordered todo ((k, i) :: granted) := by
  intro j
  have hj := h j
  by_cases hjk : j = k
  · subst hjk
    rw [Function.update_self] at hj
    rw [htodo, List.filter_cons_of_pos (by simp)]
    exact hj.cons_cons i
  · rw [Function.update_of_ne hjk] at hj
    rwa [List.filter_cons_of_neg (by simpa using Ne.symm hjk)]

variable {S : Semaphore ε σ} {body : ι → Code ε σ Unit}

/-- From this holder and these sections on, the schedule leads to a state of the single thread: one
that it reaches, with nothing left to do if no section is open, or the one in which it halts. -/
def Serializes (S : Semaphore ε σ) (body : ι → Code ε σ Unit) (holder : Option (κ × Code ε σ Unit))
    (todo : κ → List ι) (s : σ) : Except (ε × σ) ((κ → Code ε σ Unit) × σ) → Prop
  | .ok (_, t) => ∃ granted, Ordered todo granted ∧
      (∃ n c, (S.serial body holder (granted.map Prod.snd)).first n s = .ok (c, t)) ∧
      (S.taken t = false →
        (S.serial body holder (granted.map Prod.snd)).run.run s = .ok () t)
  | .error (e, t) => ∃ granted, Ordered todo granted ∧
      (S.serial body holder (granted.map Prod.snd)).run.run s = .error e t

theorem Serializes.skip {holder : Option (κ × Code ε σ Unit)} {todo : κ → List ι} {s : σ} {k : κ}
    {i : ι} {is : List ι} (htodo : todo k = i :: is)
    {r : Except (ε × σ) ((κ → Code ε σ Unit) × σ)}
    (h : Serializes S body holder (Function.update todo k is) s r) :
    Serializes S body holder todo s r := by
  rcases r with ⟨e, t⟩ | ⟨threads, t⟩
  · obtain ⟨granted, hordered, hrun⟩ := h
    exact ⟨granted, hordered.skip htodo, hrun⟩
  · obtain ⟨granted, hordered, hrun⟩ := h
    exact ⟨granted, hordered.skip htodo, hrun⟩

theorem Serializes.step {holder holder' : Option (κ × Code ε σ Unit)} {todo todo' : κ → List ι}
    {s t : σ} {x : EStateM ε σ β} {next : List ι → β → Code ε σ Unit} {b : β} (front : List (κ × ι))
    (hserial : ∀ is, S.serial body holder (front.map Prod.snd ++ is) = .step x (next is))
    (hnext : ∀ is, next is b = S.serial body holder' is) (hrun : x.run s = .ok b t)
    (hordered : ∀ granted, Ordered todo' granted → Ordered todo (front ++ granted))
    {r : Except (ε × σ) ((κ → Code ε σ Unit) × σ)} (h : Serializes S body holder' todo' t r) :
    Serializes S body holder todo s r := by
  rcases r with ⟨e, u⟩ | ⟨threads, u⟩
  · obtain ⟨granted, hgranted, hlast⟩ := h
    refine ⟨front ++ granted, hordered granted hgranted, ?_⟩
    rw [List.map_append, hserial, Code.run_step_ok hrun, hnext, hlast]
  · obtain ⟨granted, hgranted, ⟨n, c, hfirst⟩, hlast⟩ := h
    refine ⟨front ++ granted, hordered granted hgranted, ⟨n + 1, c, ?_⟩, fun hfree => ?_⟩
    · rw [List.map_append, hserial, Code.first_step_ok hrun, hnext, hfirst]
    · rw [List.map_append, hserial, Code.run_step_ok hrun, hnext, hlast hfree]

section Turns

variable {threads threads' : κ → Code ε σ Unit} {k : κ} {s t : σ} {x : EStateM ε σ β}
  {next : β → Code ε σ Unit}

theorem interleave_done (h : threads k = .done ()) (ks : List κ) :
    interleave (k :: ks) threads s = interleave ks threads s := by
  rw [interleave, h]

theorem interleave_ok {b : β} (h : threads k = .step x next) (hrun : x.run s = .ok b t)
    (hself : threads' k = next b) (hothers : ∀ j, j ≠ k → threads' j = threads j) (ks : List κ) :
    interleave (k :: ks) threads s = interleave ks threads' t := by
  have hthreads : Function.update threads k (next b) = threads' := by
    funext j
    by_cases hjk : j = k
    · rw [hjk, Function.update_self, hself]
    · rw [Function.update_of_ne hjk, hothers j hjk]
  rw [interleave, h, ← hthreads]
  simp only [hrun]

theorem interleave_error {e : ε} (h : threads k = .step x next) (hrun : x.run s = .error e t)
    (ks : List κ) : interleave (k :: ks) threads s = .error (e, t) := by
  rw [interleave, h]
  simp only [hrun]

end Turns

section Threads

variable {holder : Option (κ × Code ε σ Unit)} {todo : κ → List ι} {k : κ} {c : Code ε σ Unit}

theorem threads_inside : S.threads body (some (k, c)) todo k = S.finish body c (todo k) :=
  if_pos rfl

theorem threads_outside (h : ∀ held ∈ holder, k ≠ held.1) :
    S.threads body holder todo k = S.attempts body (todo k) := by
  cases holder with
  | none => rfl
  | some held => exact if_neg (h held rfl)

theorem threads_other {j : κ} (h : j ≠ k) :
    S.threads body (some (k, c)) todo j = S.attempts body (todo j) := if_neg h

/-- What the others have left to do does not depend on what one thread has. -/
theorem threads_update {is : List ι} {j : κ} (h : j ≠ k) :
    S.threads body holder (Function.update todo k is) j = S.threads body holder todo j := by
  simp only [Semaphore.threads, Function.update_of_ne h]

end Threads

/-- The turn of a thread outside of all sections: it has nothing left to do, it is refused, or it
enters its next section. -/
theorem serializes_outside {ks : List κ} {holder : Option (κ × Code ε σ Unit)} {todo : κ → List ι}
    {s : σ} {k : κ} (htaken : S.taken s = holder.isSome) (hk : ∀ held ∈ holder, k ≠ held.1)
    (hstays : ∀ todo', Serializes S body holder todo' s
      (interleave ks (S.threads body holder todo') s))
    (henters : ∀ i is t, S.taken t = true →
      Serializes S body (some (k, body i)) (Function.update todo k is) t
        (interleave ks (S.threads body (some (k, body i)) (Function.update todo k is)) t)) :
    Serializes S body holder todo s (interleave (k :: ks) (S.threads body holder todo) s) := by
  have hattempts : S.threads body holder todo k = S.attempts body (todo k) := threads_outside hk
  cases htodo : todo k with
  | nil =>
    rw [htodo] at hattempts
    rw [interleave_done hattempts]
    exact hstays todo
  | cons i is =>
    rw [htodo] at hattempts
    cases holder with
    | some held =>
      have hself :
          S.threads body (some held) (Function.update todo k is) k = S.attempts body is := by
        rw [threads_outside hk, Function.update_self]
      rw [interleave_ok hattempts (S.wait_taken s htaken) hself fun j hj => threads_update hj]
      exact (hstays _).skip htodo
    | none =>
      obtain ⟨t, hwait, ht⟩ := S.wait_free s htaken
      have hself : S.threads body (some (k, body i)) (Function.update todo k is) k =
          S.finish body (body i) is := by
        rw [threads_inside, Function.update_self]
      rw [interleave_ok hattempts hwait hself fun j hj =>
        (threads_update hj).trans (threads_other hj)]
      exact .step [(k, i)] (fun _ => rfl) (fun _ => rfl) hwait (fun _ => .grant htodo)
        (henters i is t ht)

/-- The turn of the thread within a section: it goes on, halts, or leaves the section. -/
theorem serializes_inside {ks : List κ} {todo : κ → List ι} {s : σ} {k : κ} {c : Code ε σ Unit}
    (htaken : S.taken s = true) (hc : c.Keeps S.taken)
    (hgoes : ∀ c' t, c'.Keeps S.taken → S.taken t = true → Serializes S body (some (k, c')) todo t
      (interleave ks (S.threads body (some (k, c')) todo) t))
    (hleaves : ∀ t, S.taken t = false → Serializes S body none todo t
      (interleave ks (S.threads body none todo) t)) :
    Serializes S body (some (k, c)) todo s
      (interleave (k :: ks) (S.threads body (some (k, c)) todo) s) := by
  have hinside : S.threads body (some (k, c)) todo k = S.finish body c (todo k) := threads_inside
  cases c with
  | done =>
    obtain ⟨t, hsignal, ht⟩ := S.signal_free s
    rw [interleave_ok hinside hsignal rfl fun j hj => (threads_other hj).symm]
    exact .step [] (fun _ => rfl) (fun _ => rfl) hsignal (fun _ h => h) (hleaves t ht)
  | step x next =>
    have hx := hc.1 s
    cases hrun : x.run s with
    | ok b t =>
      rw [hrun] at hx
      rw [interleave_ok hinside hrun threads_inside fun j hj =>
        (threads_other hj).trans (threads_other hj).symm]
      exact .step [] (fun _ => rfl) (fun _ => rfl) hrun (fun _ h => h)
        (hgoes (next b) t (hc.2 b) (hx.trans htaken))
    | error e t =>
      rw [interleave_error hinside hrun]
      exact ⟨[], .nil todo, Code.run_step_error hrun⟩

/-- However the threads take turns, their sections are serialized: whoever is within a section holds
the semaphore, by induction on the schedule. -/
theorem serializes_interleave (hbody : ∀ i, (body i).Keeps S.taken) (ks : List κ)
    {holder : Option (κ × Code ε σ Unit)} (hholder : ∀ h ∈ holder, h.2.Keeps S.taken)
    (todo : κ → List ι) {s : σ} (htaken : S.taken s = holder.isSome) :
    Serializes S body holder todo s (interleave ks (S.threads body holder todo) s) := by
  induction ks generalizing holder todo s with
  | nil =>
    refine ⟨[], .nil todo, ⟨0, _, Code.first_zero ..⟩, fun hfree => ?_⟩
    cases holder with
    | none => rfl
    | some held =>
      rw [hfree] at htaken
      cases htaken
  | cons k ks ih =>
    by_cases hk : ∀ held ∈ holder, k ≠ held.1
    · refine serializes_outside htaken hk (fun todo' => ih hholder todo' htaken) ?_
      intro i is t ht
      exact ih (by simpa using hbody i) _ ht
    · obtain ⟨⟨k, c⟩, rfl, rfl⟩ : ∃ held, holder = some held ∧ k = held.1 := by
        simpa using hk
      have hc : c.Keeps S.taken := hholder _ rfl
      refine serializes_inside htaken hc ?_ fun t ht => ih (by simp) todo ht
      intro c' t hc' ht
      exact ih (by simpa using hc') todo ht

end Interleaving
end NetBmp
