import Mathlib

/-!
# Frames in a stream of symbols

A framer is an automaton that reads one symbol at a time and announces when a
frame is complete. The end of the first frame depends only on the symbols up to
it, so a stream cut between two frames falls into the same frames as the whole
stream. Nothing in this file refers to a particular protocol.
-/

namespace NetBmp
namespace Framing

/-- `next` returns `none` on the symbol that completes a frame. -/
structure Framer (α σ : Type) where
  start : σ
  next : σ → α → Option σ

variable {α σ : Type}

namespace Framer

variable (F : Framer α σ)

/-- The state after reading symbols none of which completes a frame. -/
def after : σ → List α → Option σ
  | s, [] => some s
  | s, a :: as => (F.next s a).bind fun t => after t as

/-- The number of symbols up to and including the one that completes a frame. -/
def frameEnd : σ → List α → Option ℕ
  | _, [] => none
  | s, a :: as =>
    match F.next s a with
    | none => some 1
    | some t => (frameEnd t as).map (· + 1)

@[simp] theorem after_nil (s : σ) : F.after s [] = some s := rfl

@[simp] theorem after_cons (s : σ) (a : α) (as : List α) :
    F.after s (a :: as) = (F.next s a).bind fun t => F.after t as := rfl

@[simp] theorem frameEnd_nil (s : σ) : F.frameEnd s [] = none := rfl

theorem frameEnd_cons_none {s : σ} {a : α} (as : List α) (h : F.next s a = none) :
    F.frameEnd s (a :: as) = some 1 := by
  simp [frameEnd, h]

theorem frameEnd_cons_some {s t : σ} {a : α} (as : List α) (h : F.next s a = some t) :
    F.frameEnd s (a :: as) = (F.frameEnd t as).map (· + 1) := by
  simp [frameEnd, h]

theorem after_append (s : σ) (xs ys : List α) :
    F.after s (xs ++ ys) = (F.after s xs).bind fun t => F.after t ys := by
  induction xs generalizing s with
  | nil => rfl
  | cons x xs ih =>
    cases h : F.next s x with
    | none => simp [h]
    | some t => simp [h, ih]

theorem frameEnd_append_of_after {s t : σ} {xs : List α} (ys : List α)
    (h : F.after s xs = some t) :
    F.frameEnd s (xs ++ ys) = (F.frameEnd t ys).map (· + xs.length) := by
  induction xs generalizing s with
  | nil =>
    have hs : s = t := by simpa using h
    subst hs
    simp
  | cons x xs ih =>
    cases hx : F.next s x with
    | none => simp [hx] at h
    | some u =>
      have hu : F.after u xs = some t := by simpa [hx] using h
      rw [List.cons_append, F.frameEnd_cons_some _ hx, ih hu, Option.map_map]
      rfl

theorem frameEnd_append_of_some {s : σ} {xs : List α} {n : ℕ} (ys : List α)
    (h : F.frameEnd s xs = some n) : F.frameEnd s (xs ++ ys) = some n := by
  induction xs generalizing s n with
  | nil => simp at h
  | cons x xs ih =>
    cases hx : F.next s x with
    | none =>
      rw [F.frameEnd_cons_none _ hx] at h
      rw [List.cons_append, F.frameEnd_cons_none _ hx, h]
    | some u =>
      rw [F.frameEnd_cons_some _ hx] at h
      obtain ⟨m, hm, rfl⟩ := Option.map_eq_some_iff.mp h
      rw [List.cons_append, F.frameEnd_cons_some _ hx, ih hm]
      rfl

theorem frameEnd_pos {s : σ} {xs : List α} {n : ℕ} (h : F.frameEnd s xs = some n) : 0 < n := by
  cases xs with
  | nil => simp at h
  | cons x xs =>
    cases hx : F.next s x with
    | none =>
      rw [F.frameEnd_cons_none _ hx] at h
      simp at h
      omega
    | some u =>
      rw [F.frameEnd_cons_some _ hx] at h
      obtain ⟨m, -, rfl⟩ := Option.map_eq_some_iff.mp h
      omega

theorem frameEnd_le {s : σ} {xs : List α} {n : ℕ} (h : F.frameEnd s xs = some n) :
    n ≤ xs.length := by
  induction xs generalizing s n with
  | nil => simp at h
  | cons x xs ih =>
    cases hx : F.next s x with
    | none =>
      rw [F.frameEnd_cons_none _ hx] at h
      simp at h
      simp
      omega
    | some u =>
      rw [F.frameEnd_cons_some _ hx] at h
      obtain ⟨m, hm, rfl⟩ := Option.map_eq_some_iff.mp h
      simpa using ih hm

theorem frameEnd_take {s : σ} {xs : List α} {n : ℕ} (h : F.frameEnd s xs = some n) :
    F.frameEnd s (xs.take n) = some n := by
  induction xs generalizing s n with
  | nil => simp at h
  | cons x xs ih =>
    cases hx : F.next s x with
    | none =>
      rw [F.frameEnd_cons_none _ hx] at h
      obtain rfl : 1 = n := by simpa using h
      simp [F.frameEnd_cons_none _ hx]
    | some u =>
      rw [F.frameEnd_cons_some _ hx] at h
      obtain ⟨m, hm, rfl⟩ := Option.map_eq_some_iff.mp h
      rw [List.take_succ_cons, F.frameEnd_cons_some _ hx, ih hm]
      rfl

theorem frameEnd_split {s : σ} {xs : List α} {n : ℕ} (h : F.frameEnd s xs = some n) :
    ∃ pre a t, xs.take n = pre ++ [a] ∧ F.after s pre = some t ∧ F.next t a = none := by
  induction xs generalizing s n with
  | nil => simp at h
  | cons x xs ih =>
    cases hx : F.next s x with
    | none =>
      rw [F.frameEnd_cons_none _ hx] at h
      obtain rfl : 1 = n := by simpa using h
      exact ⟨[], x, s, by simp, rfl, hx⟩
    | some u =>
      rw [F.frameEnd_cons_some _ hx] at h
      obtain ⟨m, hm, rfl⟩ := Option.map_eq_some_iff.mp h
      obtain ⟨pre, a, t, htake, hafter, hnext⟩ := ih hm
      exact ⟨x :: pre, a, t, by simp [htake], by simp [hx, hafter], hnext⟩

/-- A list of symbols that is one frame, complete with its last symbol. -/
def IsFrame (f : List α) : Prop := F.frameEnd F.start f = some f.length

instance (f : List α) : Decidable (F.IsFrame f) :=
  inferInstanceAs (Decidable (F.frameEnd F.start f = some f.length))

theorem isFrame_take {xs : List α} {n : ℕ} (h : F.frameEnd F.start xs = some n) :
    F.IsFrame (xs.take n) := by
  rw [IsFrame, F.frameEnd_take h, List.length_take, Nat.min_eq_left (F.frameEnd_le h)]

/-- All frames of a stream, one after the other, and the open rest. -/
def frames (xs : List α) : List (List α) × List α :=
  match _h : F.frameEnd F.start xs with
  | none => ([], xs)
  | some n =>
    let r := frames (xs.drop n)
    (xs.take n :: r.1, r.2)
termination_by xs.length
decreasing_by
  have hp := F.frameEnd_pos _h
  have hl := F.frameEnd_le _h
  simp only [List.length_drop]
  omega

theorem frames_of_none {xs : List α} (h : F.frameEnd F.start xs = none) :
    F.frames xs = ([], xs) := by
  rw [frames]
  split <;> simp_all

theorem frames_of_some {xs : List α} {n : ℕ} (h : F.frameEnd F.start xs = some n) :
    F.frames xs = (xs.take n :: (F.frames (xs.drop n)).1, (F.frames (xs.drop n)).2) := by
  rw [frames]
  split <;> simp_all

@[simp] theorem frames_nil : F.frames ([] : List α) = ([], []) := F.frames_of_none rfl

theorem frames_append_of_isFrame {f : List α} (ys : List α) (h : F.IsFrame f) :
    F.frames (f ++ ys) = (f :: (F.frames ys).1, (F.frames ys).2) := by
  rw [F.frames_of_some (F.frameEnd_append_of_some ys h)]
  simp

theorem frames_of_isFrame {f : List α} (h : F.IsFrame f) : F.frames f = ([f], []) := by
  simpa using F.frames_append_of_isFrame [] h

theorem isFrame_of_mem_frames {xs f : List α} (hf : f ∈ (F.frames xs).1) : F.IsFrame f := by
  induction xs using frames.induct F with
  | case1 xs h => simp [F.frames_of_none h] at hf
  | case2 xs n h ih =>
    rw [F.frames_of_some h] at hf
    rcases List.mem_cons.mp hf with rfl | hf
    · exact F.isFrame_take h
    · exact ih hf

theorem frameEnd_frames_snd (xs : List α) : F.frameEnd F.start (F.frames xs).2 = none := by
  induction xs using frames.induct F with
  | case1 xs h => simpa [F.frames_of_none h] using h
  | case2 xs n h ih => rw [F.frames_of_some h]; exact ih

theorem frames_flatten (xs : List α) : (F.frames xs).1.flatten ++ (F.frames xs).2 = xs := by
  induction xs using frames.induct F with
  | case1 xs h => simp [F.frames_of_none h]
  | case2 xs n h ih =>
    rw [F.frames_of_some h]
    simp only [List.flatten_cons, List.append_assoc, ih, List.take_append_drop]

theorem frames_flatten_append {fs : List (List α)} (ys : List α) (h : ∀ f ∈ fs, F.IsFrame f) :
    F.frames (fs.flatten ++ ys) = (fs ++ (F.frames ys).1, (F.frames ys).2) := by
  induction fs with
  | nil => simp
  | cons f fs ih =>
    have hrest := ih fun g hg => h g (by simp [hg])
    rw [List.flatten_cons, List.append_assoc, F.frames_append_of_isFrame _ (h f (by simp)), hrest]
    rfl

/-- Reading on after a cut: the frames before it are kept, the open rest is read again
together with what follows. -/
theorem frames_append (xs ys : List α) :
    F.frames (xs ++ ys) =
      ((F.frames xs).1 ++ (F.frames ((F.frames xs).2 ++ ys)).1,
        (F.frames ((F.frames xs).2 ++ ys)).2) := by
  conv_lhs => rw [← F.frames_flatten xs]
  rw [List.append_assoc]
  exact F.frames_flatten_append _ fun f hf => F.isFrame_of_mem_frames hf

/-- Symbols that leave the start state where it is. -/
def Idle (xs : List α) : Prop := ∀ a ∈ xs, F.next F.start a = some F.start

theorem after_of_idle {xs : List α} (h : F.Idle xs) : F.after F.start xs = some F.start := by
  induction xs with
  | nil => rfl
  | cons x xs ih =>
    have hx := h x (by simp)
    have hxs : F.Idle xs := fun a ha => h a (by simp [ha])
    simp [hx, ih hxs]

end Framer
end Framing
end NetBmp
