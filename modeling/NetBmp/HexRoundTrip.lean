import NetBmp.FrameGrammar
import NetBmp.Strings

/-!
# Round trips between bytes and hex digits

What `hex_from_str` writes is read back by `str_from_hex`, for every byte string. The other way
round, `str_from_hex` lets 17 bytes pass that are no digits, and these do not come back.
-/

namespace NetBmp
namespace HexRoundTrip

open Hex Halting FrameGrammar

theorem hexFromStrLoop_writes (index : ℕ) (cs hex : List UInt8)
    (h : hex.length = 2 * (index + cs.length)) :
    hexFromStrLoop index cs hex = .ok (hex.take (2 * index) ++ hexOf cs) := by
  induction cs generalizing index hex with
  | nil =>
    rw [hexFromStrLoop, List.take_of_length_le (by simp [h])]
    simp [hexOf]
  | cons c cs ih =>
    let upper := hexDigit (getUpperNibble c)
    let lower := hexDigit (getLowerNibble c)
    let next := (hex.set (index * 2) upper).set (index * 2 + 1) lower
    rw [List.length_cons] at h
    have hnext : next.take (2 * (index + 1)) = hex.take (2 * index) ++ [upper, lower] := by
      have hupper : index * 2 < hex.length := by omega
      have hlower : index * 2 + 1 < (hex.set (index * 2) upper).length := by
        rw [List.length_set]
        omega
      rw [Nat.mul_comm 2, Nat.mul_comm 2, show (index + 1) * 2 = index * 2 + 1 + 1 by omega,
        take_succ_set hlower, take_succ_set hupper, List.append_assoc]
      rfl
    have hlength : next.length = 2 * (index + 1 + cs.length) := by
      rw [List.length_set, List.length_set]
      omega
    simp only [hexFromStrLoop, hexNibbleFromChar_upper, hexNibbleFromChar_lower, ok_bind]
    rw [ih _ _ hlength, hnext, hexOf_cons, List.append_assoc]
    rfl

theorem hexFromStr_writes {s hex : List UInt8} (hs : s ≠ []) (hlen : hex.length = 2 * s.length) :
    hexFromStr s hex = .ok (hexOf s) := by
  have hpos := List.length_pos_of_ne_nil hs
  have hmatch : s.length * 2 = hex.length := by omega
  have hroom : hex.length > 0 := by omega
  have hloop := hexFromStrLoop_writes 0 s hex (by omega)
  simp only [hexFromStr, assertVerbose_true _ hmatch, assertVerbose_true _ hroom, ok_bind, hloop]
  rfl

theorem digits_hexOf (cs : List UInt8) : ∀ d ∈ hexOf cs, IsHexDigit d := by
  intro d hd
  obtain ⟨c, -, hc⟩ := List.mem_flatMap.mp hd
  rcases List.mem_pair.mp hc with rfl | rfl
  · exact isHexDigit_hexDigit_upper c
  · exact isHexDigit_hexDigit_lower c

theorem decoded_hexOf (cs : List UInt8) : decoded (hexOf cs) = cs := by
  induction cs with
  | nil => rfl
  | cons c cs ih => rw [hexOf_cons, decoded, ih, reference_hexDigit]

/-- Decoding undoes encoding: the bytes come back, with a NUL behind them, and the rest of the
destination stays as it was. -/
theorem strFromHex_hexFromStr {s hex string : List UInt8} (hs : s ≠ [])
    (hhex : hex.length = 2 * s.length) (hroom : s.length + 1 ≤ string.length) :
    ∃ digits, hexFromStr s hex = .ok digits ∧ digits.length = 2 * s.length ∧
      strFromHex digits (2 * s.length) string = .ok (s ++ 0 :: string.drop (s.length + 1)) := by
  refine ⟨hexOf s, hexFromStr_writes hs hhex, length_hexOf s, ?_⟩
  have hpos := List.length_pos_of_ne_nil hs
  have hdecode := strFromHex_decodes [] string (length_hexOf s)
    (by omega : 2 * s.length / 2 = s.length) (by omega) (fun d hd => (digits_hexOf s d hd).accepted)
    hroom
  rwa [List.append_nil, decoded_hexOf] at hdecode

theorem strFromHex_hexFromStr_bytes : ∃ digits,
    hexFromStr [0x00, 0x7F, 0xFF] (List.replicate 6 0) = .ok digits ∧ digits.length = 2 * 3 ∧
      strFromHex digits (2 * 3) (List.replicate 5 0xAA) = .ok [0x00, 0x7F, 0xFF, 0x00, 0xAA] :=
  strFromHex_hexFromStr (s := [0x00, 0x7F, 0xFF]) (by decide) (by decide) (by decide)

def upperCase (d : UInt8) : UInt8 :=
  if 'a'.toUInt8 ≤ d ∧ d ≤ 'f'.toUInt8 then d - ('a'.toUInt8 - 'A'.toUInt8) else d

/-- Encoding undoes decoding: if `str_from_hex` trips no assertion on `h`, then the encoding of
what it decoded is `h` in upper case, and `h` consists of digits. -/
def EncodesBack (h string : List UInt8) : Prop :=
  ∀ out, strFromHex h h.length string = .ok out →
    (∀ hex : List UInt8, hex.length = h.length →
      hexFromStr (out.take (h.length / 2)) hex = .ok (h.map upperCase)) ∧ ∀ d ∈ h, IsHexDigit d

/-- The bytes that `str_from_hex` takes for a digit without their being one. -/
def PassesForDigit (d : UInt8) : Prop := (0x3A ≤ d ∧ d ≤ 0x40) ∨ (0x57 ≤ d ∧ d ≤ 0x60)

/-- The bytes on which `str_from_hex` trips its assertion. -/
def TripsAssertion (d : UInt8) : Prop := ¬((0x30 ≤ d ∧ d ≤ 0x46) ∨ (0x57 ≤ d ∧ d ≤ 0x66))

instance (d : UInt8) : Decidable (PassesForDigit d) := by unfold PassesForDigit; infer_instance

instance (d : UInt8) : Decidable (TripsAssertion d) := by unfold TripsAssertion; infer_instance

theorem tripsAssertion_iff (d : UInt8) : TripsAssertion d ↔ ¬Accepted d :=
  not_congr (accepted_iff d).symm

theorem isHexDigit_iff (d : UInt8) : IsHexDigit d ↔ ¬PassesForDigit d ∧ ¬TripsAssertion d := by
  revert d
  exact forall_uint8 (by decide +kernel)

theorem hexDigit_nibbleValue {d : UInt8} (h : IsHexDigit d) :
    hexDigit (hexNibbleValue d) = upperCase d :=
  forall_uint8 (P := fun d => IsHexDigit d → hexDigit (hexNibbleValue d) = upperCase d)
    (by decide +kernel) d h

theorem nibbles_reference {h₁ h₂ : UInt8} (a₁ : Accepted h₁) (a₂ : Accepted h₂) :
    getUpperNibble ((hexNibbleValue h₁ <<< 4) ||| hexNibbleValue h₂) = hexNibbleValue h₁ ∧
      getLowerNibble ((hexNibbleValue h₁ <<< 4) ||| hexNibbleValue h₂) = hexNibbleValue h₂ := by
  have hnibbles : ∀ a < 16, ∀ b < 16,
      getUpperNibble ((UInt8.ofNat a <<< 4) ||| UInt8.ofNat b) = UInt8.ofNat a ∧
        getLowerNibble ((UInt8.ofNat a <<< 4) ||| UInt8.ofNat b) = UInt8.ofNat b := by
    decide +kernel
  have hlt : ∀ {d : UInt8}, Accepted d → (hexNibbleValue d).toNat < 16 := fun h =>
    Nat.lt_succ_of_le (UInt8.le_iff_toNat_le.mp h)
  simpa using hnibbles _ (hlt a₁) _ (hlt a₂)

theorem hexOf_decoded {h : List UInt8} {n : ℕ} (hlen : h.length = 2 * n)
    (hdigits : ∀ d ∈ h, IsHexDigit d) : hexOf (decoded h) = h.map upperCase := by
  induction n generalizing h with
  | zero =>
    rw [List.length_eq_zero_iff.mp hlen]
    rfl
  | succ n ih =>
    match h, hlen, hdigits with
    | h₁ :: h₂ :: h, hlen, hdigits =>
      simp only [List.length_cons] at hlen
      have d₁ : IsHexDigit h₁ := hdigits h₁ (by simp)
      have d₂ : IsHexDigit h₂ := hdigits h₂ (by simp)
      have hrest := ih (h := h) (by omega) fun d hd => hdigits d (by simp [hd])
      obtain ⟨hupper, hlower⟩ := nibbles_reference d₁.accepted d₂.accepted
      rw [decoded, hexOf_cons, hupper, hlower, hrest, hexDigit_nibbleValue d₁,
        hexDigit_nibbleValue d₂]
      rfl

/-- Encoding undoes decoding exactly where no other byte is taken for a digit. -/
theorem encodesBack_iff {n : ℕ} (hn : 0 < n) {h string : List UInt8} (hlen : h.length = 2 * n)
    (hroom : n + 1 ≤ string.length) :
    EncodesBack h string ↔ (∃ d ∈ h, TripsAssertion d) ∨ ∀ d ∈ h, ¬PassesForDigit d := by
  have hhalf : h.length / 2 = n := by omega
  have hdecode (haccepted : ∀ d ∈ h, Accepted d) :
      strFromHex h h.length string = .ok (decoded h ++ 0 :: string.drop (n + 1)) := by
    have hdecode := strFromHex_decodes [] string hlen hhalf (by omega) haccepted hroom
    rwa [List.append_nil] at hdecode
  constructor
  · intro hback
    by_contra hcontra
    push Not at hcontra
    obtain ⟨hnone, d, hd, halias⟩ := hcontra
    have haccepted : ∀ d ∈ h, Accepted d := fun d hd =>
      not_not.mp (mt (tripsAssertion_iff d).mpr (hnone d hd))
    obtain ⟨-, hdigits⟩ := hback _ (hdecode haccepted)
    exact ((isHexDigit_iff d).mp (hdigits d hd)).1 halias
  · intro hcond out hout
    have haccepted : ∀ d ∈ h, Accepted d := by
      intro d hd
      obtain ⟨i, hi, rfl⟩ := List.getElem_of_mem hd
      have hdigit := (accepted_of_strFromHex hout).2 i (by omega)
      rwa [List.getD_eq_getElem _ _ hi] at hdigit
    have hnone : ∀ d ∈ h, ¬PassesForDigit d := by
      refine hcond.resolve_left ?_
      rintro ⟨d, hd, htrips⟩
      exact (tripsAssertion_iff d).mp htrips (haccepted d hd)
    have hdigits : ∀ d ∈ h, IsHexDigit d := fun d hd => (isHexDigit_iff d).mpr
      ⟨hnone d hd, fun htrips => (tripsAssertion_iff d).mp htrips (haccepted d hd)⟩
    rw [hdecode haccepted] at hout
    cases hout
    refine ⟨fun hex hhex => ?_, hdigits⟩
    have hlength := length_decoded hlen
    have hne : decoded h ≠ [] := List.ne_nil_of_length_pos (by omega)
    rw [hhalf, List.take_append_of_le_length hlength.ge, List.take_of_length_le hlength.le,
      hexFromStr_writes hne (by omega), hexOf_decoded hlen hdigits]

theorem encodesBack_digits : EncodesBack (bytes "4fA0") [0, 0, 0] :=
  (encodesBack_iff (n := 2) (by decide) (by decide) (by decide)).mpr (Or.inr (by decide +kernel))

theorem colon_not_encoded_back : strFromHex (bytes ":0") 2 [0, 0] = .ok [0x30, 0] ∧
    hexFromStr [0x30] [0, 0] = .ok (bytes "30") ∧ ¬EncodesBack (bytes ":0") [0, 0] := by
  have hdecode : strFromHex (bytes ":0") 2 [0, 0] = .ok [0x30, 0] := by decide
  refine ⟨hdecode, by decide, fun hback => ?_⟩
  obtain ⟨-, hdigits⟩ := hback _ hdecode
  exact absurd (hdigits 0x3A (by decide)) (by decide)

end HexRoundTrip
end NetBmp
