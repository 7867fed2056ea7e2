import NetBmp.PacketReader

/-!
# What the packet writer does

Between start and stop a packet collects a payload: it stores the start character and the
payload as far as the buffer reaches, however the payload is split into writes. All writes
report success; only the state tells whether the packet was completed.
-/

namespace NetBmp

open Hex Halting

/-- The frame that carries a payload, with upper-case digits. -/
def wire (payload : List UInt8) : List UInt8 :=
  GdbPacketChar.start :: (payload ++ [GdbPacketChar.stop, hexDigit (getUpperNibble payload.sum),
    hexDigit (getLowerNibble payload.sum)])

@[simp] theorem length_wire (payload : List UInt8) : (wire payload).length = payload.length + 4 := by
  simp [wire]

/-- The two digits that `gdb_packet_write_payload_as_hex` writes for each character. -/
def hexOf (cs : List UInt8) : List UInt8 :=
  cs.flatMap fun c => [hexDigit (getUpperNibble c), hexDigit (getLowerNibble c)]

theorem hexOf_cons (c : UInt8) (cs : List UInt8) :
    hexOf (c :: cs) = hexDigit (getUpperNibble c) :: hexDigit (getLowerNibble c) :: hexOf cs := rfl

theorem hexOf_append (xs ys : List UInt8) : hexOf (xs ++ ys) = hexOf xs ++ hexOf ys :=
  List.flatMap_append

theorem length_hexOf (xs : List UInt8) : (hexOf xs).length = 2 * xs.length := by
  induction xs with
  | nil => rfl
  | cons x xs ih =>
    rw [hexOf_cons, List.length_cons, List.length_cons, List.length_cons, ih]
    omega

theorem addChar_result_ne {p : GdbPacket} {c : UInt8} {b : Bool}
    (h : (gdbPacketAddChar p c b).1 ≠ .ok) :
    p.length = gdbPacketMaxBufferLength ∧ (gdbPacketAddChar p c b).2 = p := by
  by_cases hl : p.length < gdbPacketMaxBufferLength
  · exact absurd (gdbPacketAddChar_result hl c b) h
  · have hfull : p.length = gdbPacketMaxBufferLength := le_antisymm p.length_le (not_lt.mp hl)
    exact ⟨hfull, by rw [gdbPacketAddChar_full hfull]⟩

/-- To return early from a full packet is as good as to go on, if what follows does nothing
then. -/
theorem addChar_or_return {γ : Type} (p : GdbPacket) (c : UInt8) (b : Bool)
    (done next : GdbPacket → γ)
    (hfull : ∀ q : GdbPacket, q.length = gdbPacketMaxBufferLength → next q = done q) :
    (if (gdbPacketAddChar p c b).1 ≠ .ok then done (gdbPacketAddChar p c b).2
      else next (gdbPacketAddChar p c b).2) = next (gdbPacketAddChar p c b).2 := by
  split_ifs with hr
  · obtain ⟨hlength, hsame⟩ := addChar_result_ne hr
    rw [hsame, hfull p hlength]
  · rfl

/-- Characters that are added one after the other, as far as there is room. -/
def addChars (p : GdbPacket) (cs : List UInt8) (updateChecksum : Bool) : GdbPacket :=
  cs.foldl (fun p c => (gdbPacketAddChar p c updateChecksum).2) p

@[simp] theorem addChars_nil (p : GdbPacket) (b : Bool) : addChars p [] b = p := rfl

theorem addChars_cons (p : GdbPacket) (c : UInt8) (cs : List UInt8) (b : Bool) :
    addChars p (c :: cs) b = addChars (gdbPacketAddChar p c b).2 cs b := rfl

@[simp] theorem state_addChars (p : GdbPacket) (cs : List UInt8) (b : Bool) :
    (addChars p cs b).state = p.state := by
  induction cs generalizing p with
  | nil => rfl
  | cons c cs ih => rw [addChars_cons, ih, state_addChar]

@[simp] theorem type_addChars (p : GdbPacket) (cs : List UInt8) (b : Bool) :
    (addChars p cs b).type = p.type := by
  induction cs generalizing p with
  | nil => rfl
  | cons c cs ih => rw [addChars_cons, ih, type_addChar]

@[simp] theorem referenceChecksum_addChars (p : GdbPacket) (cs : List UInt8) (b : Bool) :
    (addChars p cs b).referenceChecksum = p.referenceChecksum := by
  induction cs generalizing p with
  | nil => rfl
  | cons c cs ih => rw [addChars_cons, ih, referenceChecksum_addChar]

@[simp] theorem checksum_addChars_false (p : GdbPacket) (cs : List UInt8) :
    (addChars p cs false).checksum = p.checksum := by
  induction cs generalizing p with
  | nil => rfl
  | cons c cs ih => rw [addChars_cons, ih, checksum_addChar_false]

theorem stored_addChars (p : GdbPacket) (cs : List UInt8) (b : Bool) :
    (addChars p cs b).stored = (p.stored ++ cs).take gdbPacketMaxBufferLength := by
  induction cs generalizing p with
  | nil =>
    rw [addChars_nil, List.append_nil, List.take_of_length_le]
    rw [p.length_stored]
    exact p.length_le
  | cons c cs ih =>
    rw [addChars_cons, ih, stored_addChar, take_append_take, List.append_assoc]
    rfl

theorem length_addChars (p : GdbPacket) (cs : List UInt8) (b : Bool) :
    (addChars p cs b).length = min gdbPacketMaxBufferLength (p.length + cs.length) := by
  rw [← GdbPacket.length_stored, stored_addChars, List.length_take, List.length_append,
    p.length_stored]

theorem checksum_addChars_true {p : GdbPacket} {cs : List UInt8}
    (h : p.length + cs.length ≤ gdbPacketMaxBufferLength) :
    (addChars p cs true).checksum = p.checksum + cs.sum := by
  induction cs generalizing p with
  | nil => simp
  | cons c cs ih =>
    rw [List.length_cons] at h
    have hlength := length_addChars p [c] true
    rw [addChars_cons, addChars_nil, List.length_singleton] at hlength
    rw [addChars_cons, ih (by omega), checksum_addChar_true (by omega), List.sum_cons,
      UInt8.add_assoc]

theorem addChars_full {p : GdbPacket} (h : p.length = gdbPacketMaxBufferLength) (cs : List UInt8)
    (b : Bool) : addChars p cs b = p := by
  induction cs with
  | nil => rfl
  | cons c cs ih => rw [addChars_cons, gdbPacketAddChar_full h, ih]

theorem writePayloadLoop_eq (p : GdbPacket) (cs : List UInt8) :
    gdbPacketWritePayloadLoop p cs = (.ok, addChars p cs true) := by
  induction cs generalizing p with
  | nil => rfl
  | cons c cs ih =>
    rw [addChars_cons, ← ih]
    exact addChar_or_return p c true (fun q => (.ok, q)) (fun q => gdbPacketWritePayloadLoop q cs)
      fun q hq => by rw [ih, addChars_full hq]

theorem writePayloadAsHexLoop_eq (p : GdbPacket) (cs : List UInt8) :
    gdbPacketWritePayloadAsHexLoop p cs = .ok (.ok, addChars p (hexOf cs) true) := by
  induction cs generalizing p with
  | nil => rfl
  | cons c cs ih =>
    let lower := hexDigit (getLowerNibble c)
    let afterUpper (q : GdbPacket) : Except String (GdbPacketResult × GdbPacket) :=
      if (gdbPacketAddChar q lower true).1 ≠ .ok then .ok (.ok, (gdbPacketAddChar q lower true).2)
      else gdbPacketWritePayloadAsHexLoop (gdbPacketAddChar q lower true).2 cs
    have hlower (q : GdbPacket) : afterUpper q = .ok (.ok, addChars q (lower :: hexOf cs) true) := by
      rw [addChars_cons, ← ih]
      exact addChar_or_return q lower true (fun q => .ok (.ok, q))
        (fun q => gdbPacketWritePayloadAsHexLoop q cs) fun q hq => by rw [ih, addChars_full hq]
    simp only [gdbPacketWritePayloadAsHexLoop, hexNibbleFromChar_upper, hexNibbleFromChar_lower,
      ok_bind, pure_eq_ok]
    rw [hexOf_cons, addChars_cons, ← hlower]
    exact addChar_or_return p _ true (fun q => .ok (.ok, q)) afterUpper
      fun q hq => by rw [hlower, addChars_full hq]

theorem writeStop_eq {p : GdbPacket} (h : p.state = .collect) :
    gdbPacketWriteStop p = .ok (.ok,
      let q := addChars p [GdbPacketChar.stop, hexDigit (getUpperNibble p.checksum),
        hexDigit (getLowerNibble p.checksum), 0] false
      if p.length + 4 ≤ gdbPacketMaxBufferLength then { q with state := .complete } else q) := by
  let upper (q : GdbPacket) := hexDigit (getUpperNibble q.checksum)
  let lower (q : GdbPacket) := hexDigit (getLowerNibble q.checksum)
  let done (q : GdbPacket) : Except String (GdbPacketResult × GdbPacket) := .ok (.ok, q)
  let nul (q : GdbPacket) : Except String (GdbPacketResult × GdbPacket) :=
    if (gdbPacketAddChar q 0 false).1 ≠ .ok then done (gdbPacketAddChar q 0 false).2
    else done { (gdbPacketAddChar q 0 false).2 with state := .complete }
  let second (q : GdbPacket) : Except String (GdbPacketResult × GdbPacket) :=
    if (gdbPacketAddChar q (lower q) false).1 ≠ .ok then done (gdbPacketAddChar q (lower q) false).2
    else nul (gdbPacketAddChar q (lower q) false).2
  let first (q : GdbPacket) : Except String (GdbPacketResult × GdbPacket) :=
    if (gdbPacketAddChar q (upper q) false).1 ≠ .ok then done (gdbPacketAddChar q (upper q) false).2
    else second (gdbPacketAddChar q (upper q) false).2
  have hnul (q : GdbPacket) (hq : q.length = gdbPacketMaxBufferLength) : nul q = done q := by
    simp [nul, gdbPacketAddChar_full hq]
  have hsecond (q : GdbPacket) : second q = nul (gdbPacketAddChar q (lower q) false).2 :=
    addChar_or_return q (lower q) false done nul hnul
  have hfirst (q : GdbPacket) : first q = second (gdbPacketAddChar q (upper q) false).2 :=
    addChar_or_return q (upper q) false done second fun q hq => by
      rw [hsecond, gdbPacketAddChar_full hq, hnul q hq]
  have hstop : gdbPacketWriteStop p =
      nul (addChars p [GdbPacketChar.stop, upper p, lower p] false) := by
    simp only [gdbPacketWriteStop, assertVerbose_true _ h, hexNibbleFromChar_upper,
      hexNibbleFromChar_lower, ok_bind, pure_eq_ok]
    refine (addChar_or_return p GdbPacketChar.stop false done first fun q hq => ?_).trans ?_
    · rw [hfirst, hsecond, gdbPacketAddChar_full hq, gdbPacketAddChar_full hq, hnul q hq]
    · rw [hfirst, hsecond]
      simp only [upper, lower, checksum_addChar_false]
      rfl
  let closed := addChars p [GdbPacketChar.stop, upper p, lower p] false
  have hlength : closed.length = min gdbPacketMaxBufferLength (p.length + 3) :=
    length_addChars p _ false
  rw [hstop]
  by_cases hfits : p.length + 4 ≤ gdbPacketMaxBufferLength
  · have hadd := gdbPacketAddChar_result (p := closed) (by omega) 0 false
    simp only [if_pos hfits]
    exact if_neg (not_not.mpr hadd)
  · have hfull : closed.length = gdbPacketMaxBufferLength := by omega
    have hsame : (gdbPacketAddChar closed 0 false).2 = closed := by rw [gdbPacketAddChar_full hfull]
    simp only [if_neg hfits]
    exact (hnul closed hfull).trans (congrArg done hsame.symm)

/-- A packet between start and stop, with the payload written so far. -/
structure Collecting (payload : List UInt8) (p : GdbPacket) : Prop where
  type : p.type = .outbound
  state : p.state = .collect
  stored : p.stored = (GdbPacketChar.start :: payload).take gdbPacketMaxBufferLength
  checksum : payload.length + 1 ≤ gdbPacketMaxBufferLength → p.checksum = payload.sum
  reference : p.referenceChecksum = 0

theorem Collecting.length {payload : List UInt8} {p : GdbPacket} (h : Collecting payload p) :
    p.length = min gdbPacketMaxBufferLength (payload.length + 1) := by
  rw [← p.length_stored, h.stored, List.length_take, List.length_cons]

theorem writeStart_collecting {p : GdbPacket} (h : p.state ≠ .complete) :
    ∃ q, gdbPacketWriteStart p = .ok (.ok, q) ∧ Collecting [] q := by
  let q₀ : GdbPacket := { gdbPacketInit p .outbound with state := .collect }
  have hl : q₀.length < gdbPacketMaxBufferLength := Nat.zero_lt_succ 2047
  have hadd := gdbPacketAddChar_result hl GdbPacketChar.start false
  refine ⟨(gdbPacketAddChar q₀ GdbPacketChar.start false).2, ?_, ?_, ?_, ?_, ?_, ?_⟩
  · simp only [gdbPacketWriteStart, assertVerbose_true _ h, ok_bind]
    rw [if_neg (by simp [q₀, hadd])]
    rfl
  · rw [type_addChar]
    rfl
  · rw [state_addChar]
  · rw [stored_addChar, show q₀.stored = [] from stored_init p .outbound]
    rfl
  · intro _
    rw [checksum_addChar_false]
    rfl
  · rw [referenceChecksum_addChar]
    rfl

theorem Collecting.addChars {payload : List UInt8} {p : GdbPacket} (h : Collecting payload p)
    (cs : List UInt8) : Collecting (payload ++ cs) (NetBmp.addChars p cs true) := by
  refine ⟨by simp [h.type], by simp [h.state], ?_, fun hl => ?_, by simp [h.reference]⟩
  · rw [stored_addChars, h.stored, take_append_take]
    rfl
  · have hlength := h.length
    rw [List.length_append] at hl
    rw [checksum_addChars_true (by omega), h.checksum (by omega), List.sum_append]

theorem writePayload_collecting {payload : List UInt8} {p : GdbPacket} (h : Collecting payload p)
    (s : CString) :
    ∃ q, gdbPacketWritePayload p s = .ok (.ok, q) ∧ Collecting (payload ++ s.chars) q := by
  refine ⟨_, ?_, h.addChars s.chars⟩
  simp [gdbPacketWritePayload, h.state, writePayloadLoop_eq]

theorem writePayloadAsHex_collecting {payload : List UInt8} {p : GdbPacket}
    (h : Collecting payload p) (s : CString) :
    ∃ q, gdbPacketWritePayloadAsHex p s = .ok (.ok, q) ∧
      Collecting (payload ++ hexOf s.chars) q := by
  refine ⟨_, ?_, h.addChars (hexOf s.chars)⟩
  simp [gdbPacketWritePayloadAsHex, h.state, writePayloadAsHexLoop_eq]

/-- A packet after stop: complete when the whole frame with its NUL fits. -/
structure Written (payload : List UInt8) (p : GdbPacket) : Prop where
  type : p.type = .outbound
  state : p.state = if payload.length + 5 ≤ gdbPacketMaxBufferLength then .complete else .collect
  stored : p.stored = (wire payload ++ [0]).take gdbPacketMaxBufferLength
  checksum : payload.length + 1 ≤ gdbPacketMaxBufferLength → p.checksum = payload.sum
  reference : p.referenceChecksum = 0

/-- A packet that is being finalized, with the bytes written after the payload. -/
structure Closing (payload tail : List UInt8) (p : GdbPacket) : Prop where
  type : p.type = .outbound
  state : p.state = .collect
  stored : p.stored =
    (GdbPacketChar.start :: payload ++ tail).take gdbPacketMaxBufferLength
  checksum : payload.length + 1 ≤ gdbPacketMaxBufferLength → p.checksum = payload.sum
  reference : p.referenceChecksum = 0

theorem Collecting.closing {payload : List UInt8} {p : GdbPacket} (h : Collecting payload p) :
    Closing payload [] p :=
  ⟨h.type, h.state, by rw [h.stored, List.append_nil], h.checksum, h.reference⟩

theorem Closing.addChars {payload tail : List UInt8} {p : GdbPacket} (h : Closing payload tail p)
    (cs : List UInt8) : Closing payload (tail ++ cs) (NetBmp.addChars p cs false) := by
  refine ⟨by simp [h.type], by simp [h.state], ?_, ?_, by simp [h.reference]⟩
  · rw [stored_addChars, h.stored, take_append_take, List.append_assoc]
  · intro hl
    rw [checksum_addChars_false, h.checksum hl]

theorem writeStop_written {payload : List UInt8} {p : GdbPacket} (h : Collecting payload p) :
    ∃ q, gdbPacketWriteStop p = .ok (.ok, q) ∧ Written payload q := by
  let tail := [GdbPacketChar.stop, hexDigit (getUpperNibble p.checksum),
    hexDigit (getLowerNibble p.checksum), 0]
  have hclosed : Closing payload tail (addChars p tail false) := h.closing.addChars tail
  have hlength := h.length
  have hstored : (addChars p tail false).stored =
      (wire payload ++ [0]).take gdbPacketMaxBufferLength := by
    have hwire : wire payload ++ [0] = GdbPacketChar.start :: payload ++ [GdbPacketChar.stop,
      hexDigit (getUpperNibble payload.sum), hexDigit (getLowerNibble payload.sum), 0] := by
      simp [wire]
    rw [hclosed.stored, hwire]
    by_cases hroom : payload.length + 1 ≤ gdbPacketMaxBufferLength
    · simp only [tail, h.checksum hroom]
    · -- the digits are not stored, so that it does not matter that the sum is not right
      have hlong : gdbPacketMaxBufferLength ≤ (GdbPacketChar.start :: payload).length := by
        rw [List.length_cons]
        omega
      rw [List.take_append_of_le_length hlong, List.take_append_of_le_length hlong]
  refine ⟨_, writeStop_eq h.state, ?_⟩
  by_cases hfits : payload.length + 5 ≤ gdbPacketMaxBufferLength
  · rw [if_pos (by omega)]
    exact ⟨hclosed.type, (if_pos hfits).symm, hstored, hclosed.checksum, hclosed.reference⟩
  · rw [if_neg (by omega)]
    exact ⟨hclosed.type, hclosed.state.trans (if_neg hfits).symm, hstored, hclosed.checksum,
      hclosed.reference⟩

/-- `gdb_packet_write` succeeds on every string; the packet is complete when the string fits. -/
theorem gdbPacketWrite_written {p : GdbPacket} (h : p.state ≠ .complete) (s : CString) :
    ∃ q, gdbPacketWrite p s = .ok (.ok, q) ∧ Written s.chars q := by
  obtain ⟨p₁, h₁, hc₁⟩ := writeStart_collecting h
  obtain ⟨p₂, h₂, hc₂⟩ := writePayload_collecting hc₁ s
  obtain ⟨p₃, h₃, hw⟩ := writeStop_written hc₂
  refine ⟨p₃, ?_, hw⟩
  simp [gdbPacketWrite, h₁, h₂, h₃]

theorem Written.fits {payload : List UInt8} {p : GdbPacket} (h : Written payload p)
    (hl : payload.length ≤ 2043) : p.state = .complete ∧ p.stored = wire payload ++ [0] := by
  have hfits : payload.length + 5 ≤ gdbPacketMaxBufferLength := Nat.add_le_add_right hl 5
  refine ⟨by rw [h.state, if_pos hfits], ?_⟩
  rw [h.stored, List.take_of_length_le]
  simpa only [List.length_append, length_wire, List.length_singleton] using hfits

/-- An overflow is reported: the write succeeds exactly when the whole frame with its NUL fits,
and then the packet is complete and may be flushed. -/
def ReportsOverflow (p : GdbPacket) (s : CString) : Prop :=
  ∃ result q, gdbPacketWrite p s = .ok (result, q) ∧
    (result = .ok ↔ s.chars.length + 5 ≤ gdbPacketMaxBufferLength) ∧
    (result = .ok → q.state = .complete ∧ gdbPacketGetLength q = .ok q.length) ∧
    (gdbPacketMaxBufferLength < s.chars.length + 5 → result = .overflow ∧ q.state ≠ .complete)

/-- Every write reports success, so the report is right exactly when nothing overflows. -/
theorem reportsOverflow_iff {p : GdbPacket} (h : p.state ≠ .complete) (s : CString) :
    ReportsOverflow p s ↔ s.chars.length + 5 ≤ gdbPacketMaxBufferLength := by
  obtain ⟨q, hwrite, hwritten⟩ := gdbPacketWrite_written h s
  constructor
  · rintro ⟨result, q', hwrite', hresult, -⟩
    rw [hwrite] at hwrite'
    cases hwrite'
    exact hresult.mp rfl
  · intro hfits
    have hstate : q.state = .complete := by rw [hwritten.state, if_pos hfits]
    refine ⟨.ok, q, hwrite, iff_of_true rfl hfits, fun _ => ⟨hstate, ?_⟩, fun hlong => ?_⟩
    · simp [gdbPacketGetLength, hstate]
    · exact absurd hfits (not_le.mpr hlong)

theorem reportsOverflow_ok : ReportsOverflow .zero (.lit "OK") :=
  (reportsOverflow_iff (by decide) (.lit "OK")).mpr (by decide)

def CString.uniform (n : ℕ) : CString :=
  ⟨List.replicate n 0x61, fun h => absurd (List.eq_of_mem_replicate h) (by decide)⟩

/-- One letter too many: success is reported, and the packet is still open. -/
theorem overflow_not_reported : ¬ReportsOverflow .zero (.uniform 2044) ∧
    ∃ q, gdbPacketWrite .zero (.uniform 2044) = .ok (.ok, q) ∧ q.state = .collect := by
  have hlength : (CString.uniform 2044).chars.length = 2044 := List.length_replicate
  obtain ⟨q, hwrite, hwritten⟩ := gdbPacketWrite_written (p := .zero) (by decide) (.uniform 2044)
  have hstate : q.state = .collect := by
    rw [hwritten.state, hlength]
    rfl
  refine ⟨?_, q, hwrite, hstate⟩
  rintro ⟨result, q', hwrite', hresult, -⟩
  rw [hwrite] at hwrite'
  cases hwrite'
  rw [hlength] at hresult
  exact absurd (hresult.mp rfl) (by decide)

end NetBmp
