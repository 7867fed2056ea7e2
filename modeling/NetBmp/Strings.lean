import NetBmp.Commands

/-!
# What the string functions compute

`strncmp` with the length of a name tests for a prefix, `str_from_hex` writes the value of
each pair of digits, and the first argument is the first run of characters other than space
and tab.
-/

namespace NetBmp

open Hex Halting

/-- Comparing as many bytes as a name has tests whether the string starts with the name. -/
theorem strncmp_eq_zero_iff {name : List UInt8} (h : 0 ∉ name) (xs : List UInt8) :
    strncmp xs name name.length = 0 ↔ name <+: xs := by
  induction name generalizing xs with
  | nil => simp [strncmp]
  | cons c cs ih =>
    have hc : c ≠ 0 := fun he => h (by simp [he])
    have hcs : 0 ∉ cs := fun hm => h (by simp [hm])
    cases xs with
    | nil =>
      have hnat : c.toNat ≠ 0 := fun he => hc (UInt8.toNat_inj.mp he)
      simp [strncmp, hc.symm, hnat]
    | cons x xs =>
      by_cases hx : x = c
      · subst hx
        simp [strncmp, hc, ih hcs]
      · have hnat : (x.toNat : ℤ) - c.toNat ≠ 0 := by
          have : x.toNat ≠ c.toNat := fun he => hx (UInt8.toNat_inj.mp he)
          omega
        simp [strncmp, hx, hnat, List.cons_prefix_cons, Ne.symm hx]

theorem matches_eq (text : List UInt8) (s : GdbSubcommand) :
    s.matches text = decide (s.pSubcommand.chars <+: text) := by
  rw [GdbSubcommand.matches, decide_eq_decide]
  exact strncmp_eq_zero_iff s.pSubcommand.no_nul text

theorem prefix_append_cons_iff {name xs : List UInt8} {c : UInt8} (h : c ∉ name)
    (ys : List UInt8) : name <+: xs ++ c :: ys ↔ name <+: xs := by
  refine ⟨fun hp => ?_, fun hp => hp.trans (List.prefix_append _ _)⟩
  rcases Nat.lt_or_ge xs.length name.length with hlt | hle
  · have hc : xs ++ [c] <+: name := by
      have hfront : xs ++ [c] <+: xs ++ c :: ys := ⟨ys, by simp⟩
      exact List.prefix_of_prefix_length_le hfront hp (by simpa using hlt)
    exact absurd (hc.subset (by simp)) h
  · exact List.prefix_of_prefix_length_le hp (List.prefix_append _ _) hle

/-- Of two names that differ within both, at most one starts a text. -/
theorem not_prefix_of_other {xs ys text : List UInt8} (hx : xs <+: text) (hxy : ¬xs <+: ys)
    (hyx : ¬ys <+: xs) : ¬ys <+: text := by
  intro hy
  rcases List.prefix_or_prefix_of_prefix hx hy with h | h
  · exact hxy h
  · exact hyx h

/-- The values of pairs of digits. -/
def decoded : List UInt8 → List UInt8
  | h₁ :: h₂ :: hs => ((hexNibbleValue h₁ <<< 4) ||| hexNibbleValue h₂) :: decoded hs
  | _ => []

theorem length_decoded {n : ℕ} {hs : List UInt8} (h : hs.length = 2 * n) :
    (decoded hs).length = n := by
  induction n generalizing hs with
  | zero =>
    rw [List.length_eq_zero_iff.mp h]
    rfl
  | succ n ih =>
    match hs, h with
    | h₁ :: h₂ :: hs, h =>
      simp only [List.length_cons] at h
      have hrest : hs.length = 2 * n := by omega
      simp [decoded, ih hrest]

theorem strFromHexLoop_append {xs : List UInt8} (ys : List UInt8) (remaining index : ℕ)
    (string : List UInt8) (h : 2 * (index + remaining) ≤ xs.length) :
    strFromHexLoop (xs ++ ys) remaining index string = strFromHexLoop xs remaining index string := by
  induction remaining generalizing index string with
  | zero => rfl
  | succ remaining ih =>
    have hget : ∀ i < xs.length, (xs ++ ys).getD i 0 = xs.getD i 0 := by
      intro i hi
      simp [List.getD_eq_getElem?_getD, List.getElem?_append_left hi]
    rw [strFromHexLoop, strFromHexLoop, hget _ (by omega), hget _ (by omega)]
    refine bind_congr fun upper => bind_congr fun lower => ?_
    exact ih (index + 1) _ (by omega)

theorem strFromHex_append {xs : List UInt8} (ys : List UInt8) {hexLength : ℕ}
    (h : hexLength ≤ xs.length) (string : List UInt8) :
    strFromHex (xs ++ ys) hexLength string = strFromHex xs hexLength string := by
  rw [strFromHex, strFromHex, strFromHexLoop_append ys _ _ _ (by omega)]

theorem strFromHexLoop_decodes {hex : List UInt8} {remaining index : ℕ} {hs rest : List UInt8}
    (hdrop : hex.drop (2 * index) = hs ++ rest) (hlen : hs.length = 2 * remaining)
    (haccepted : ∀ h ∈ hs, Accepted h) (string : List UInt8)
    (hroom : index + remaining ≤ string.length) :
    strFromHexLoop hex remaining index string =
      .ok (string.take index ++ decoded hs ++ string.drop (index + remaining)) := by
  induction remaining generalizing index hs string with
  | zero =>
    rw [List.length_eq_zero_iff.mp hlen]
    simp [strFromHexLoop, decoded]
  | succ remaining ih =>
    match hs, hlen with
    | h₁ :: h₂ :: hs, hlen =>
      simp only [List.length_cons] at hlen
      have hget : ∀ i, hex.getD (2 * index + i) 0 = (h₁ :: h₂ :: hs ++ rest).getD i 0 := by
        intro i
        rw [← hdrop, List.getD_eq_getElem?_getD, List.getD_eq_getElem?_getD, List.getElem?_drop]
      have hget₁ : hex.getD (2 * index) 0 = h₁ := by simpa using hget 0
      have hget₂ : hex.getD (2 * index + 1) 0 = h₂ := by simpa using hget 1
      let value := (hexNibbleValue h₁ <<< 4) ||| hexNibbleValue h₂
      have hnext : hex.drop (2 * (index + 1)) = hs ++ rest := by
        rw [Nat.mul_succ, ← List.drop_drop, hdrop]
        rfl
      have hstep := ih hnext (by omega) (fun h hm => haccepted h (by simp [hm]))
        (string.set index value) (by rw [List.length_set]; omega)
      rw [strFromHexLoop, hget₁, hget₂, charFromHexNibble_accepted (haccepted h₁ (by simp)),
        charFromHexNibble_accepted (haccepted h₂ (by simp))]
      simp only [ok_bind]
      rw [hstep]
      have htake := take_succ_set (a := value) (show index < string.length by omega)
      have hrest : (string.set index value).drop (index + 1 + remaining) =
          string.drop (index + (remaining + 1)) := by
        rw [List.drop_set_of_lt (by omega)]
        congr 1
        omega
      rw [htake, hrest]
      simp [decoded, value]

theorem strFromHexLoop_eq_error {hex string : List UInt8} {remaining index : ℕ} {e : String}
    (h : strFromHexLoop hex remaining index string = .error e) : e = "Invalid hex nibble." := by
  induction remaining generalizing index string with
  | zero => cases h
  | succ remaining ih =>
    rcases bind_eq_error h with hupper | ⟨upper, _, hrest⟩
    · exact charFromHexNibble_eq_error hupper
    rcases bind_eq_error hrest with hlower | ⟨lower, _, hrest⟩
    · exact charFromHexNibble_eq_error hlower
    · exact ih hrest

theorem strFromHex_eq_error {hex string : List UInt8} {hexLength : ℕ} {e : String}
    (h : strFromHex hex hexLength string = .error e) :
    e ∈ ["Target buffer length exceeded.", "Invalid input length.", "Invalid hex nibble."] := by
  rcases bind_eq_error h with hfits | ⟨_, _, h⟩
  · simp [assertVerbose_eq_error hfits]
  rcases bind_eq_error h with hpos | ⟨_, _, h⟩
  · simp [assertVerbose_eq_error hpos]
  rcases bind_eq_error h with hloop | ⟨_, _, h⟩
  · simp [strFromHexLoop_eq_error hloop]
  · cases h

theorem strFromHex_decodes {n hexLength : ℕ} {hs : List UInt8} (rest string : List UInt8)
    (hlen : hs.length = 2 * n) (hhalf : hexLength / 2 = n) (hpos : 0 < hexLength)
    (haccepted : ∀ h ∈ hs, Accepted h) (hroom : n + 1 ≤ string.length) :
    strFromHex (hs ++ rest) hexLength string = .ok (decoded hs ++ 0 :: string.drop (n + 1)) := by
  have hdrop : (hs ++ rest).drop (2 * 0) = hs ++ rest := rfl
  have hloop := strFromHexLoop_decodes hdrop hlen haccepted string (by omega)
  subst hhalf
  simp only [strFromHex, assertVerbose_true _ hroom, assertVerbose_true _ hpos, ok_bind, hloop,
    pure_eq_ok, List.take_zero, List.nil_append, Nat.zero_add]
  have hlength := length_decoded hlen
  rw [List.set_append_right _ _ (by omega), hlength, Nat.sub_self]
  rw [List.drop_eq_getElem_cons (by omega), List.set_cons_zero]

theorem accepted_of_strFromHexLoop {hex string out : List UInt8} {remaining index : ℕ}
    (h : strFromHexLoop hex remaining index string = .ok out) :
    ∀ i < 2 * remaining, Accepted (hex.getD (2 * index + i) 0) := by
  induction remaining generalizing index string with
  | zero => exact fun i hi => absurd hi (Nat.not_lt_zero i)
  | succ remaining ih =>
    obtain ⟨upper, hupper, h⟩ := bind_eq_ok h
    obtain ⟨lower, hlower, h⟩ := bind_eq_ok h
    intro i hi
    rcases i with _ | _ | i
    · exact accepted_of_charFromHexNibble hupper
    · exact accepted_of_charFromHexNibble hlower
    · have hnext := ih h i (by omega)
      rwa [show 2 * (index + 1) + i = 2 * index + (i + 1 + 1) by omega] at hnext

theorem accepted_of_strFromHex {hex string out : List UInt8} {hexLength : ℕ}
    (h : strFromHex hex hexLength string = .ok out) :
    hexLength / 2 + 1 ≤ string.length ∧ ∀ i < 2 * (hexLength / 2), Accepted (hex.getD i 0) := by
  obtain ⟨_, hroom, h⟩ := bind_eq_ok h
  obtain ⟨_, _, h⟩ := bind_eq_ok h
  obtain ⟨values, hloop, -⟩ := bind_eq_ok h
  refine ⟨of_assertVerbose hroom, fun i hi => ?_⟩
  have hdigit := accepted_of_strFromHexLoop hloop i hi
  rwa [Nat.mul_zero, Nat.zero_add] at hdigit

theorem cString_append_zero (xs ys : List UInt8) : cString (xs ++ 0 :: ys) = cString xs := by
  induction xs with
  | nil => rfl
  | cons x xs ih =>
    simp only [cString, List.cons_append, List.takeWhile_cons] at ih ⊢
    rw [ih]

theorem cString_of_no_nul {xs : List UInt8} (h : 0 ∉ xs) : cString xs = xs := by
  refine List.takeWhile_eq_self_iff.mpr fun c hc => ?_
  simpa using fun he : c = 0 => h (he ▸ hc)

/-- The first run of characters other than the delimiters. -/
def firstToken (text : List UInt8) : Option (List UInt8) :=
  match text.dropWhile isDelimiter with
  | [] => none
  | c :: cs => some ((c :: cs).takeWhile (!isDelimiter ·))

/-- The arguments start with the first token, however many there are. -/
theorem gdbGetArgs_head? (string : List UInt8) :
    (gdbGetArgs string).2.head? = firstToken (cString string) := by
  rw [gdbGetArgs, gdbMaxArgCount, gdbGetArgsLoop, firstToken, strtokR]
  cases (cString string).dropWhile isDelimiter <;> rfl

end NetBmp
