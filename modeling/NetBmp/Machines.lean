import Mathlib

/-!
# Machines

A machine reacts to every input with outputs until it halts. Two machines are compared by a
relation between their states that all inputs keep: they give the same outputs, or the first one
halts while the second goes on. Nothing in this file refers to a particular program.
-/

namespace NetBmp
namespace Machines

/-- The outputs for an input, and the next state or the error with which the machine halts. -/
structure Machine (σ ι ω ε : Type) where
  step : σ → ι → List ω × Except ε σ

variable {σ τ ι ω ω' ε β : Type}

/-- All outputs, up to the input that halts the machine. -/
def Machine.run (m : Machine σ ι ω ε) : σ → List ι → List ω × Except ε σ
  | s, [] => ([], .ok s)
  | s, i :: is =>
    match m.step s i with
    | (outputs, .ok t) => (outputs ++ (m.run t is).1, (m.run t is).2)
    | (outputs, .error e) => (outputs, .error e)

variable {m : Machine σ ι ω ε} {m' : Machine τ ι ω' ε} {R : σ → τ → Prop}

theorem run_cons_ok {s t : σ} {i : ι} {outputs : List ω} (h : m.step s i = (outputs, .ok t))
    (is : List ι) : m.run s (i :: is) = (outputs ++ (m.run t is).1, (m.run t is).2) := by
  rw [Machine.run, h]

theorem run_cons_error {s : σ} {i : ι} {outputs : List ω} {e : ε}
    (h : m.step s i = (outputs, .error e)) (is : List ι) :
    m.run s (i :: is) = (outputs, .error e) := by
  rw [Machine.run, h]

/-- A machine that is given its inputs in another form. -/
def Machine.contramap {κ : Type} (f : κ → ι) (m : Machine σ ι ω ε) : Machine σ κ ω ε where
  step s k := m.step s (f k)

theorem run_contramap {κ : Type} (f : κ → ι) (m : Machine σ ι ω ε) (s : σ) (ks : List κ) :
    (m.contramap f).run s ks = m.run s (ks.map f) := by
  induction ks generalizing s with
  | nil => rfl
  | cons k ks ih =>
    rcases hm : m.step s (f k) with ⟨outputs, e | t⟩
    · have hk : (m.contramap f).step s k = (outputs, .error e) := hm
      rw [List.map_cons, run_cons_error hm, run_cons_error hk]
    · have hk : (m.contramap f).step s k = (outputs, .ok t) := hm
      rw [List.map_cons, run_cons_ok hm, run_cons_ok hk, ih]

/-- Both machines go on, in related states, or both halt with the same error. -/
inductive SameEnd (R : σ → τ → Prop) : Except ε σ → Except ε τ → Prop
  | ok {s : σ} {t : τ} (h : R s t) : SameEnd R (.ok s) (.ok t)
  | error (e : ε) : SameEnd R (.error e) (.error e)

theorem SameEnd.symm {r : Except ε σ} {r' : Except ε τ} (h : SameEnd R r r') :
    SameEnd (fun t s => R s t) r' r := by
  cases h with
  | ok h => exact .ok h
  | error e => exact .error e

theorem SameEnd.trans {υ : Type} {S : τ → υ → Prop} {r : Except ε σ} {r' : Except ε τ}
    {r'' : Except ε υ} (h : SameEnd R r r') (h' : SameEnd S r' r'') :
    SameEnd (fun s u => ∃ t, R s t ∧ S t u) r r'' := by
  cases h with
  | ok hR =>
    cases h' with
    | ok hS => exact .ok ⟨_, hR, hS⟩
  | error e =>
    cases h' with
    | error e => exact .error e

theorem SameEnd.mono {S : σ → τ → Prop} {r : Except ε σ} {r' : Except ε τ} (h : SameEnd R r r')
    (hS : ∀ s t, R s t → S s t) : SameEnd S r r' := by
  cases h with
  | ok h => exact .ok (hS _ _ h)
  | error e => exact .error e

/-- From related states, every input has the same outputs, seen through a view of each. -/
def Simulates (m : Machine σ ι ω ε) (m' : Machine τ ι ω' ε) (view : ω → β) (view' : ω' → β)
    (R : σ → τ → Prop) : Prop :=
  ∀ s t i, R s t → (m.step s i).1.map view = (m'.step t i).1.map view' ∧
    SameEnd R (m.step s i).2 (m'.step t i).2

/-- From related states, every input has the same outputs, or the first machine halts with an error
of its own and fewer of them. -/
def Lags (m : Machine σ ι ω ε) (m' : Machine τ ι ω' ε) (view : ω → β) (view' : ω' → β)
    (R : σ → τ → Prop) (e : ε) : Prop :=
  ∀ s t i, R s t →
    ((m.step s i).1.map view = (m'.step t i).1.map view' ∧
      SameEnd R (m.step s i).2 (m'.step t i).2) ∨
    ((m.step s i).1.map view <+: (m'.step t i).1.map view' ∧ (m.step s i).2 = .error e)

/-- The outputs of a run are a front part of those of the other, and all of them unless the first
machine halts with its own error. -/
theorem Lags.run {view : ω → β} {view' : ω' → β} {e : ε} (h : Lags m m' view view' R e) {s : σ}
    {t : τ} (hR : R s t) (is : List ι) :
    ((m.run s is).1.map view = (m'.run t is).1.map view' ∧
      SameEnd R (m.run s is).2 (m'.run t is).2) ∨
    ((m.run s is).1.map view <+: (m'.run t is).1.map view' ∧ (m.run s is).2 = .error e) := by
  induction is generalizing s t with
  | nil => exact Or.inl ⟨rfl, .ok hR⟩
  | cons i is ih =>
    have hstep := h s t i hR
    rcases hm : m.step s i with ⟨outputs, result⟩
    rcases hm' : m'.step t i with ⟨outputs', result'⟩
    rw [hm, hm'] at hstep
    rcases hstep with ⟨hsame, hend⟩ | ⟨hfewer, he⟩
    · cases hend with
      | ok hnext =>
        rw [run_cons_ok hm, run_cons_ok hm', List.map_append, List.map_append, hsame]
        rcases ih hnext with ⟨hrest, hlast⟩ | ⟨hrest, hhalt⟩
        · exact Or.inl ⟨by rw [hrest], hlast⟩
        · exact Or.inr ⟨(List.prefix_append_right_inj _).mpr hrest, hhalt⟩
      | error e' =>
        rw [run_cons_error hm, run_cons_error hm']
        exact Or.inl ⟨hsame, .error e'⟩
    · -- the second machine may go on, which only adds outputs
      obtain rfl : result = .error e := he
      rw [run_cons_error hm]
      refine Or.inr ⟨hfewer.trans ?_, rfl⟩
      cases result' with
      | ok t' =>
        rw [run_cons_ok hm', List.map_append]
        exact List.prefix_append _ _
      | error e' =>
        rw [run_cons_error hm']

/-- Simulated machines cannot be told apart in a run. -/
theorem Simulates.run {view : ω → β} {view' : ω' → β} (h : Simulates m m' view view' R) {s : σ}
    {t : τ} (hR : R s t) (is : List ι) :
    (m.run s is).1.map view = (m'.run t is).1.map view' ∧
      SameEnd R (m.run s is).2 (m'.run t is).2 := by
  induction is generalizing s t with
  | nil => exact ⟨rfl, .ok hR⟩
  | cons i is ih =>
    have hstep := h s t i hR
    rcases hm : m.step s i with ⟨outputs, result⟩
    rcases hm' : m'.step t i with ⟨outputs', result'⟩
    rw [hm, hm'] at hstep
    obtain ⟨hsame, hend⟩ := hstep
    cases hend with
    | ok hnext =>
      obtain ⟨hrest, hlast⟩ := ih hnext
      rw [run_cons_ok hm, run_cons_ok hm', List.map_append, List.map_append, hsame, hrest]
      exact ⟨rfl, hlast⟩
    | error e =>
      rw [run_cons_error hm, run_cons_error hm']
      exact ⟨hsame, .error e⟩

theorem Simulates.run_id {m' : Machine τ ι ω ε} (h : Simulates m m' id id R) {s : σ} {t : τ}
    (hR : R s t) (is : List ι) :
    (m.run s is).1 = (m'.run t is).1 ∧ SameEnd R (m.run s is).2 (m'.run t is).2 := by
  have hrun := h.run hR is
  rwa [List.map_id, List.map_id] at hrun

/-- Outputs in which each may follow the one before, where a sequence may begin. -/
structure Orderly (follows : ω → ω → Prop) (first : ω → Prop) (outputs : List ω) : Prop where
  chain : outputs.IsChain follows
  head : ∀ a ∈ outputs.head?, first a

theorem Orderly.nil {follows : ω → ω → Prop} {first : ω → Prop} : Orderly follows first [] :=
  ⟨.nil, fun _ h => (by cases h)⟩

theorem Orderly.append {follows : ω → ω → Prop} {first last : ω → Prop}
    (hjoin : ∀ a b, last a → first b → follows a b) {xs ys : List ω} (hx : Orderly follows first xs)
    (hlast : ∀ a ∈ xs.getLast?, last a) (hy : Orderly follows first ys) :
    Orderly follows first (xs ++ ys) where
  chain := List.isChain_append.mpr ⟨hx.chain, hy.chain, fun a ha b hb =>
    hjoin a b (hlast a ha) (hy.head b hb)⟩
  head a ha := by
    cases xs with
    | nil => exact hy.head a ha
    | cons x xs => exact hx.head a ha

/-- Outputs that are orderly, and that end as the machine has ended. -/
structure Proper (follows : β → β → Prop) (first last final : β → Prop) (outputs : List β)
    (result : Except ε σ) : Prop extends Orderly follows first outputs where
  ends : (∃ s, result = .ok s) → ∀ a ∈ outputs.getLast?, last a
  halts : (∃ e, result = .error e) → ∃ a ∈ outputs.getLast?, final a

theorem Proper.of_sameEnd {follows : β → β → Prop} {first last final : β → Prop} {outputs : List β}
    {r : Except ε σ} {r' : Except ε τ} (h : SameEnd R r r')
    (hp : Proper follows first last final outputs r') :
    Proper follows first last final outputs r := by
  cases h with
  | ok _ => exact ⟨hp.toOrderly, fun _ => hp.ends ⟨_, rfl⟩, by rintro ⟨e, ⟨⟩⟩⟩
  | error e => exact ⟨hp.toOrderly, by rintro ⟨s, ⟨⟩⟩, fun _ => hp.halts ⟨e, rfl⟩⟩

theorem run_proper {view : ω → List β} {follows : β → β → Prop} {first last final : β → Prop}
    (hjoin : ∀ a b, last a → first b → follows a b)
    (hstep : ∀ s i, Proper follows first last final ((m.step s i).1.flatMap view) (m.step s i).2)
    (s : σ) (is : List ι) :
    Proper follows first last final ((m.run s is).1.flatMap view) (m.run s is).2 := by
  induction is generalizing s with
  | nil => exact ⟨.nil, fun _ _ h => (by cases h), by rintro ⟨e, ⟨⟩⟩⟩
  | cons i is ih =>
    have hfirst := hstep s i
    rcases hm : m.step s i with ⟨outputs, result⟩
    rw [hm] at hfirst
    cases result with
    | error e =>
      rw [run_cons_error hm]
      exact hfirst
    | ok t =>
      have hrest := ih t
      have hend := hfirst.ends ⟨t, rfl⟩
      rw [run_cons_ok hm, List.flatMap_append]
      refine ⟨hfirst.toOrderly.append hjoin hend hrest.toOrderly, fun hok a ha => ?_, fun he => ?_⟩
      · rw [List.getLast?_append] at ha
        rcases Option.or_eq_some_iff.mp ha with h | ⟨-, h⟩
        · exact hrest.ends hok a h
        · exact hend a h
      · obtain ⟨a, ha, hfinal⟩ := hrest.halts he
        exact ⟨a, List.mem_getLast?_append_of_mem_getLast? ha, hfinal⟩

/-- A property of outputs that is kept when they are joined holds of all runs if it does for every
input, unless the machine halts with an error for which it may fail. -/
theorem run_joins {view : ω → List β} {P : List β → Prop} {e : ε} (hnil : P [])
    (hjoin : ∀ xs ys, P xs → P ys → P (xs ++ ys))
    (h : ∀ s i, (m.step s i).2 = .error e ∨ P ((m.step s i).1.flatMap view)) {s : σ} {is : List ι}
    (hrun : (m.run s is).2 ≠ .error e) : P ((m.run s is).1.flatMap view) := by
  induction is generalizing s with
  | nil => exact hnil
  | cons i is ih =>
    have hstep := h s i
    rcases hm : m.step s i with ⟨outputs, result⟩
    rw [hm] at hstep
    cases result with
    | error e' =>
      rw [run_cons_error hm] at hrun ⊢
      exact hstep.resolve_left hrun
    | ok t =>
      rw [run_cons_ok hm] at hrun ⊢
      rw [List.flatMap_append]
      exact hjoin _ _ (hstep.resolve_left (by simp)) (ih hrun)

end Machines
end NetBmp
