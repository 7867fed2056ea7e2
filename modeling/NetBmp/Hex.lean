import NetBmp.Halting

/-!
# `common.h` and `hex.c`

`char` is an unsigned 8-bit type on the target, so characters and bytes are both
`UInt8` and every conversion wraps. Assertions are enabled in the configuration:
a false condition halts the firmware, which is modelled by `Except.error` with
the message of the assertion.
-/

namespace NetBmp

def bytes (s : String) : List UInt8 := s.toList.map Char.toUInt8

namespace Hex

/-- `ASSERT_VERBOSE` -/
def assertVerbose (cond : Prop) [Decidable cond] (msg : String) : Except String Unit :=
  if cond then .ok () else .error msg

@[simp] theorem assertVerbose_true {cond : Prop} [Decidable cond] (msg : String) (h : cond) :
    assertVerbose cond msg = .ok () := by simp [assertVerbose, h]

@[simp] theorem assertVerbose_false {cond : Prop} [Decidable cond] (msg : String) (h : ¬cond) :
    assertVerbose cond msg = .error msg := by simp [assertVerbose, h]

/-- `GET_LOWER_NIBBLE` -/
def getLowerNibble (val : UInt8) : UInt8 := val &&& 0xF

/-- `GET_UPPER_NIBBLE` -/
def getUpperNibble (val : UInt8) : UInt8 := (val >>> 4) &&& 0xF

/-- The value `hex_nibble_from_char` returns once its assertion has passed. -/
def hexDigit (character : UInt8) : UInt8 :=
  let nibble := if character > 9 then character + ('A'.toUInt8 - '0'.toUInt8 - 10) else character
  nibble + '0'.toUInt8

/-- Convert a character to a hex nibble. -/
def hexNibbleFromChar (character : UInt8) : Except String UInt8 := do
  assertVerbose (character ≤ 15) "Invalid character."
  return hexDigit character

/-- The two cascaded subtractions of `char_from_hex_nibble`, before its assertion. -/
def hexNibbleValue (hex : UInt8) : UInt8 :=
  let nibble := hex - '0'.toUInt8
  let nibble := if nibble > 9 then nibble - ('A'.toUInt8 - '0'.toUInt8 - 10) else nibble
  if nibble > 16 then nibble - ('a'.toUInt8 - 'A'.toUInt8) else nibble

/-- Convert a single hex nibble to a character. -/
def charFromHexNibble (hex : UInt8) : Except String UInt8 := do
  assertVerbose (hexNibbleValue hex ≤ 15) "Invalid hex nibble."
  return hexNibbleValue hex

/-- The loop of `hex_from_str`, `index` characters done. -/
def hexFromStrLoop : ℕ → List UInt8 → List UInt8 → Except String (List UInt8)
  | _, [], hex => .ok hex
  | index, c :: cs, hex => do
    let upper ← hexNibbleFromChar (getUpperNibble c)
    let hex := hex.set (index * 2) upper
    let lower ← hexNibbleFromChar (getLowerNibble c)
    hexFromStrLoop (index + 1) cs (hex.set (index * 2 + 1) lower)

/-- Convert characters to a hex string, into the buffer `hex`. -/
def hexFromStr (string hex : List UInt8) : Except String (List UInt8) := do
  assertVerbose (string.length * 2 = hex.length) "Buffer length mismatch."
  assertVerbose (hex.length > 0) "Invalid input length."
  hexFromStrLoop 0 string hex

/-- The loop of `str_from_hex`: `remaining` values are still to be written from `index` on. -/
def strFromHexLoop (hex : List UInt8) : ℕ → ℕ → List UInt8 → Except String (List UInt8)
  | 0, _, string => .ok string
  | remaining + 1, index, string => do
    let upper ← charFromHexNibble (hex.getD (2 * index) 0)
    let lower ← charFromHexNibble (hex.getD (2 * index + 1) 0)
    strFromHexLoop hex remaining (index + 1) (string.set index ((upper <<< 4) ||| lower))

/-- Convert the first `hexLength` digits of `hex` into the buffer `string`, and write a
terminating NUL. -/
def strFromHex (hex : List UInt8) (hexLength : ℕ) (string : List UInt8) :
    Except String (List UInt8) := do
  assertVerbose (string.length ≥ hexLength / 2 + 1) "Target buffer length exceeded."
  assertVerbose (hexLength > 0) "Invalid input length."
  let string ← strFromHexLoop hex (hexLength / 2) 0 string
  return string.set (hexLength / 2) 0

theorem forall_uint8 {P : UInt8 → Prop} (h : ∀ n < 256, P (UInt8.ofNat n)) (c : UInt8) : P c := by
  simpa using h c.toNat c.toNat_lt

/-- The digits of the grammar: `0-9`, `A-F`, `a-f`. -/
def IsHexDigit (c : UInt8) : Prop :=
  ('0'.toUInt8 ≤ c ∧ c ≤ '9'.toUInt8) ∨ ('A'.toUInt8 ≤ c ∧ c ≤ 'F'.toUInt8) ∨
    ('a'.toUInt8 ≤ c ∧ c ≤ 'f'.toUInt8)

instance (c : UInt8) : Decidable (IsHexDigit c) := by unfold IsHexDigit; infer_instance

/-- The value of a hex digit of either case. -/
def hexDigitValue (c : UInt8) : ℕ :=
  if c ≤ '9'.toUInt8 then c.toNat - '0'.toNat
  else if c ≤ 'F'.toUInt8 then c.toNat - 'A'.toNat + 10
  else c.toNat - 'a'.toNat + 10

/-- The bytes that `char_from_hex_nibble` takes without tripping its assertion. -/
def Accepted (c : UInt8) : Prop := hexNibbleValue c ≤ 15

instance (c : UInt8) : Decidable (Accepted c) := by unfold Accepted; infer_instance

theorem charFromHexNibble_accepted {c : UInt8} (h : Accepted c) :
    charFromHexNibble c = .ok (hexNibbleValue c) := by
  unfold Accepted at h
  simp [charFromHexNibble, h]

theorem charFromHexNibble_rejected {c : UInt8} (h : ¬Accepted c) :
    charFromHexNibble c = .error "Invalid hex nibble." := by
  unfold Accepted at h
  simp [charFromHexNibble, h]

theorem accepted_of_charFromHexNibble {c value : UInt8} (h : charFromHexNibble c = .ok value) :
    Accepted c := by
  by_contra hn
  rw [charFromHexNibble_rejected hn] at h
  cases h

theorem of_assertVerbose {cond : Prop} [Decidable cond] {msg : String}
    (h : assertVerbose cond msg = .ok ()) : cond := by
  by_contra hn
  rw [assertVerbose_false msg hn] at h
  cases h

theorem assertVerbose_eq_error {cond : Prop} [Decidable cond] {msg e : String}
    (h : assertVerbose cond msg = .error e) : e = msg := by
  unfold assertVerbose at h
  split_ifs at h
  exact (Except.error.inj h).symm

theorem charFromHexNibble_eq_error {c : UInt8} {e : String} (h : charFromHexNibble c = .error e) :
    e = "Invalid hex nibble." := by
  rcases Halting.bind_eq_error h with hassert | ⟨_, _, hreturn⟩
  · exact assertVerbose_eq_error hassert
  · cases hreturn

@[simp] theorem hexNibbleFromChar_upper (c : UInt8) :
    hexNibbleFromChar (getUpperNibble c) = .ok (hexDigit (getUpperNibble c)) := by
  have h : getUpperNibble c ≤ 15 := by
    revert c
    exact forall_uint8 (by decide +kernel)
  simp [hexNibbleFromChar, h]

@[simp] theorem hexNibbleFromChar_lower (c : UInt8) :
    hexNibbleFromChar (getLowerNibble c) = .ok (hexDigit (getLowerNibble c)) := by
  have h : getLowerNibble c ≤ 15 := by
    revert c
    exact forall_uint8 (by decide +kernel)
  simp [hexNibbleFromChar, h]

theorem IsHexDigit.accepted {c : UInt8} (h : IsHexDigit c) : Accepted c :=
  forall_uint8 (P := fun c => IsHexDigit c → Accepted c) (by decide +kernel) c h

theorem IsHexDigit.nibbleValue {c : UInt8} (h : IsHexDigit c) :
    hexNibbleValue c = UInt8.ofNat (hexDigitValue c) ∧ hexDigitValue c < 16 :=
  forall_uint8 (P := fun c => IsHexDigit c →
    hexNibbleValue c = UInt8.ofNat (hexDigitValue c) ∧ hexDigitValue c < 16)
    (by decide +kernel) c h

theorem IsHexDigit.reference_eq_iff {h₁ h₂ : UInt8} (d₁ : IsHexDigit h₁) (d₂ : IsHexDigit h₂)
    (s : UInt8) :
    (hexNibbleValue h₁ <<< 4) ||| hexNibbleValue h₂ = s ↔
      16 * hexDigitValue h₁ + hexDigitValue h₂ = s.toNat := by
  obtain ⟨e₁, l₁⟩ := d₁.nibbleValue
  obtain ⟨e₂, l₂⟩ := d₂.nibbleValue
  have hor : ∀ a < 16, ∀ b < 16,
      (UInt8.ofNat a <<< 4) ||| UInt8.ofNat b = UInt8.ofNat (16 * a + b) := by decide +kernel
  have hlt : 16 * hexDigitValue h₁ + hexDigitValue h₂ < 256 := by omega
  rw [e₁, e₂, hor _ l₁ _ l₂, ← UInt8.toNat_inj, UInt8.toNat_ofNat_of_lt' hlt]

theorem isHexDigit_hexDigit_upper (c : UInt8) : IsHexDigit (hexDigit (getUpperNibble c)) := by
  revert c
  exact forall_uint8 (by decide +kernel)

theorem isHexDigit_hexDigit_lower (c : UInt8) : IsHexDigit (hexDigit (getLowerNibble c)) := by
  revert c
  exact forall_uint8 (by decide +kernel)

/-- The two digits of a byte, read back, give the byte. -/
theorem reference_hexDigit (c : UInt8) :
    (hexNibbleValue (hexDigit (getUpperNibble c)) <<< 4) |||
      hexNibbleValue (hexDigit (getLowerNibble c)) = c := by
  revert c
  exact forall_uint8 (by decide +kernel)

end Hex
end NetBmp
