import Mathlib

/-!
# Tokens of a list

The tokens of a list are its maximal runs of elements that are no delimiters. A list consists of
delimiters only, or it starts with a first token behind a gap, and what holds of such lists when it
holds of what follows the token holds of all lists. Nothing in this file refers to a particular
program.
-/

namespace NetBmp
namespace Tokens

variable {α : Type} {p : α → Bool}

/-- The maximal runs of elements that are no delimiters. -/
def tokens (p : α → Bool) (xs : List α) : List (List α) := (xs.splitOnP p).filter (!·.isEmpty)

/-- A first token with the gap in front of it and what follows it. -/
structure FirstToken (p : α → Bool) (gap token tail : List α) : Prop where
  blank : ∀ x ∈ gap, p x = true
  plain : ∀ x ∈ token, p x = false
  ne_nil : token ≠ []
  stop : ∀ d ∈ tail.head?, p d = true

theorem takeWhile_append_stop {xs ys : List α} (hxs : ∀ x ∈ xs, p x = true)
    (hys : ∀ y ∈ ys.head?, p y = false) : (xs ++ ys).takeWhile p = xs := by
  rw [List.takeWhile_append_of_pos hxs]
  cases ys with
  | nil => simp
  | cons y ys => simp [hys y rfl]

theorem dropWhile_append_stop {xs ys : List α} (hxs : ∀ x ∈ xs, p x = true)
    (hys : ∀ y ∈ ys.head?, p y = false) : (xs ++ ys).dropWhile p = ys := by
  rw [List.dropWhile_append_of_pos hxs]
  cases ys with
  | nil => rfl
  | cons y ys => simp [hys y rfl]

theorem blank_or_firstToken (p : α → Bool) (xs : List α) : (∀ x ∈ xs, p x = true) ∨
    ∃ gap token tail, FirstToken p gap token tail ∧ xs = gap ++ token ++ tail := by
  cases hrest : xs.dropWhile p with
  | nil => exact Or.inl (List.dropWhile_eq_nil_iff.mp hrest)
  | cons c cs =>
    refine Or.inr ⟨xs.takeWhile p, (c :: cs).takeWhile (!p ·), (c :: cs).dropWhile (!p ·),
      ⟨fun x hx => List.mem_takeWhile_imp hx, fun x hx => ?_, ?_, fun d hd => ?_⟩, ?_⟩
    · simpa using List.mem_takeWhile_imp hx
    · have hc : p c = false := by
        have hhead := List.head?_dropWhile_not p xs
        rw [hrest] at hhead
        simpa using hhead
      simp [hc]
    · have hhead := List.head?_dropWhile_not (!p ·) (c :: cs)
      rw [Option.mem_def.mp hd] at hhead
      simpa using hhead
    · rw [List.append_assoc, List.takeWhile_append_dropWhile, ← hrest,
        List.takeWhile_append_dropWhile]

/-- What follows a first token is shorter, so tokens can be taken off one after the other. -/
theorem tokens_induction (p : α → Bool) {motive : List α → Prop}
    (blank : ∀ xs, (∀ x ∈ xs, p x = true) → motive xs)
    (token : ∀ gap token tail, FirstToken p gap token tail → motive tail.tail →
      motive (gap ++ token ++ tail)) (xs : List α) : motive xs := by
  induction hn : xs.length using Nat.strongRecOn generalizing xs with
  | ind n ih =>
    rcases blank_or_firstToken p xs with hblank | ⟨gap, first, tail, hfirst, rfl⟩
    · exact blank xs hblank
    · refine token gap first tail hfirst (ih _ ?_ tail.tail rfl)
      have hpos := List.length_pos_of_ne_nil hfirst.ne_nil
      simp only [List.length_append] at hn
      rw [List.length_tail]
      omega

theorem tokens_of_blank {xs : List α} (h : ∀ x ∈ xs, p x = true) : tokens p xs = [] := by
  induction xs with
  | nil => rfl
  | cons x xs ih =>
    have hx := h x (by simp)
    have hxs := ih fun y hy => h y (by simp [hy])
    simpa [tokens, List.splitOnP_cons_eq_if_modifyHead, hx] using hxs

theorem tokens_gap_append {gap : List α} (h : ∀ x ∈ gap, p x = true) (xs : List α) :
    tokens p (gap ++ xs) = tokens p xs := by
  induction gap with
  | nil => rfl
  | cons x gap ih =>
    have hx := h x (by simp)
    have hgap := ih fun y hy => h y (by simp [hy])
    simpa [tokens, List.splitOnP_cons_eq_if_modifyHead, hx] using hgap

namespace FirstToken

variable {gap token tail : List α} (h : FirstToken p gap token tail)
include h

theorem head_token (rest : List α) : ∀ x ∈ (token ++ rest).head?, p x = false := by
  intro x hx
  rw [List.head?_append_of_ne_nil _ h.ne_nil] at hx
  exact h.plain x (List.mem_of_mem_head? hx)

theorem tokens_eq : tokens p (gap ++ token ++ tail) = token :: tokens p tail.tail := by
  have htoken : (!token.isEmpty) = true := by simpa using h.ne_nil
  rw [List.append_assoc, tokens_gap_append h.blank]
  cases tail with
  | nil =>
    rw [List.append_nil, tokens, List.splitOnP_eq_singleton h.plain]
    simp [htoken]
    rfl
  | cons d rest =>
    rw [tokens, List.splitOnP_append_cons_of_forall_mem h.plain d (h.stop d rfl)]
    simp [htoken]
    rfl

end FirstToken

theorem mem_of_mem_tokens {xs token : List α} (h : token ∈ tokens p xs) {x : α} (hx : x ∈ token) :
    x ∈ xs := by
  induction xs using tokens_induction p with
  | blank xs hblank => simp [tokens_of_blank hblank] at h
  | token gap first tail hfirst ih =>
    rw [hfirst.tokens_eq] at h
    rcases List.mem_cons.mp h with rfl | hrest
    · simp [hx]
    · exact List.mem_append_right _ (List.mem_of_mem_tail (ih hrest))

end Tokens
end NetBmp
