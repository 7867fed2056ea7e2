import NetBmp.PacketReader

/-!
# Frames on the wire

A frame is `$`, a payload without `$`, `#` and Ctrl-C, `#` and two hex digits. It is exactly
one packet to the reader, also behind bytes that contain no `#`.
-/

namespace NetBmp

open Hex Framing

/-- The sum of the bytes modulo 256. -/
def checksum (payload : List UInt8) : ℕ := (payload.map UInt8.toNat).sum % 256

theorem toNat_sum (payload : List UInt8) : payload.sum.toNat = checksum payload := by
  induction payload with
  | nil => rfl
  | cons c cs ih =>
    rw [List.sum_cons, UInt8.toNat_add, ih]
    simp [checksum]

structure Frame where
  payload : List UInt8
  h₁ : UInt8
  h₂ : UInt8
  no_start : GdbPacketChar.start ∉ payload
  no_stop : GdbPacketChar.stop ∉ payload
  no_ctrlC : GdbPacketChar.ctrlC ∉ payload
  digit₁ : IsHexDigit h₁
  digit₂ : IsHexDigit h₂

namespace Frame

def bytes (f : Frame) : List UInt8 :=
  GdbPacketChar.start :: (f.payload ++ [GdbPacketChar.stop, f.h₁, f.h₂])

/-- The digits spell the sum of the payload modulo 256. -/
def Correct (f : Frame) : Prop :=
  16 * hexDigitValue f.h₁ + hexDigitValue f.h₂ = checksum f.payload

instance (f : Frame) : Decidable f.Correct := by unfold Correct; infer_instance

@[simp] theorem length_bytes (f : Frame) : f.bytes.length = f.payload.length + 4 := by
  simp [bytes]

end Frame

theorem not_special_of_isHexDigit {c : UInt8} (h : IsHexDigit c) : ¬Special c :=
  forall_uint8 (P := fun c => IsHexDigit c → ¬Special c) (by decide +kernel) c h

theorem scan_of_no_stop {bs : List UInt8} (h : GdbPacketChar.stop ∉ bs) :
    packetFramer.after .body bs = some .body ∧ digits .body bs = [] := by
  induction bs with
  | nil => exact ⟨rfl, rfl⟩
  | cons c cs ih =>
    have hc : c ≠ GdbPacketChar.stop := fun he => h (by simp [he])
    obtain ⟨ha, hd⟩ := ih fun hcs => h (by simp [hcs])
    have hnext : Phase.next .body c = some .body := by
      simp only [Phase.next, hc, if_false]
      split_ifs <;> rfl
    have hframer : packetFramer.next .body c = some .body := hnext
    exact ⟨by simp [hframer, ha], by simp [digits, hnext, hd]⟩

/-- What is counted of a payload: every byte but Ctrl-C. -/
theorem counted_add_ctrlC {bs : List UInt8} (hstart : GdbPacketChar.start ∉ bs)
    (hstop : GdbPacketChar.stop ∉ bs) :
    counted .body bs + 3 * UInt8.ofNat (bs.count GdbPacketChar.ctrlC) = bs.sum := by
  induction bs with
  | nil => rfl
  | cons c cs ih =>
    have hc₁ : c ≠ GdbPacketChar.start := fun he => hstart (by simp [he])
    have hc₂ : c ≠ GdbPacketChar.stop := fun he => hstop (by simp [he])
    have ih := ih (fun hcs => hstart (by simp [hcs])) (fun hcs => hstop (by simp [hcs]))
    by_cases hc₃ : c = GdbPacketChar.ctrlC
    · subst hc₃
      rw [List.sum_cons, ← ih]
      have hcount : counted .body (GdbPacketChar.ctrlC :: cs) = counted .body cs := by
        simp [counted, Special]
      rw [hcount, List.count_cons_self, UInt8.ofNat_add, UInt8.mul_add, ← UInt8.add_assoc,
        UInt8.add_comm]
      rfl
    · have hs : ¬Special c := by simp [Special, hc₁, hc₂, hc₃]
      rw [List.sum_cons, ← ih]
      simp [counted, next_of_not_special _ hs, hs, hc₃, UInt8.add_assoc]

theorem counted_payload (f : Frame) : counted .body f.payload = f.payload.sum := by
  have h := counted_add_ctrlC f.no_start f.no_stop
  rw [List.count_eq_zero_of_not_mem f.no_ctrlC] at h
  simpa using h

namespace Frame

/-- A frame behind bytes without `#` ends the first packet of the stream. -/
theorem packetEnd_append {j : List UInt8} (hj : GdbPacketChar.stop ∉ j) (f : Frame)
    (rest : List UInt8) :
    packetEnd (j ++ (f.bytes ++ rest)) = some (j ++ f.bytes).length ∧
      counted .body (j ++ (f.bytes ++ rest)) = counted .body j + f.payload.sum ∧
      digits .body (j ++ (f.bytes ++ rest)) = [f.h₁, f.h₂] ∧
      ∀ r, reference r .body (j ++ (f.bytes ++ rest)) =
        (hexNibbleValue f.h₁ <<< 4 ||| hexNibbleValue f.h₂) := by
  obtain ⟨hafter, hdigits⟩ := scan_of_no_stop hj
  obtain ⟨hpay, hpayd⟩ := scan_of_no_stop f.no_stop
  have htail := scan_tail (not_special_of_isHexDigit f.digit₁) (not_special_of_isHexDigit f.digit₂)
  have hbody : packetFramer.after .body (j ++ GdbPacketChar.start :: f.payload) = some .body := by
    rw [packetFramer.after_append, hafter]
    exact hpay
  have hsplit : j ++ (f.bytes ++ rest) = (j ++ GdbPacketChar.start :: f.payload) ++
      (GdbPacketChar.stop :: f.h₁ :: f.h₂ :: rest) := by
    simp [bytes]
  have hstart : Special GdbPacketChar.start := Or.inl rfl
  rw [hsplit]
  refine ⟨?_, ?_, ?_, fun r => ?_⟩
  · rw [packetEnd, packetFramer.frameEnd_append_of_after _ hbody, (htail .body 0 rest).1]
    simp
    omega
  · rw [counted_append _ hbody, (htail .body 0 rest).2.1, counted_append _ hafter]
    simp [counted, hstart, counted_payload]
  · rw [digits_append _ hbody, (htail .body 0 rest).2.2.1, digits_append _ hafter, hdigits]
    simp [digits, hpayd]
  · rw [reference_append _ _ hbody, (htail .body _ rest).2.2.2]

theorem packetEnd_bytes (f : Frame) (rest : List UInt8) :
    packetEnd (f.bytes ++ rest) = some f.bytes.length := by
  simpa using (packetEnd_append (j := []) (by simp) f rest).1

theorem isFrame_bytes (f : Frame) : packetFramer.IsFrame f.bytes := by
  have h := f.packetEnd_bytes []
  rwa [List.append_nil] at h

theorem counted_bytes (f : Frame) : counted .body f.bytes = f.payload.sum := by
  simpa [counted] using (packetEnd_append (j := []) (by simp) f []).2.1

theorem digits_bytes (f : Frame) (rest : List UInt8) :
    digits .body (f.bytes ++ rest) = [f.h₁, f.h₂] := by
  simpa using (packetEnd_append (j := []) (by simp) f rest).2.2.1

theorem reference_bytes (f : Frame) :
    reference 0 .body f.bytes = (hexNibbleValue f.h₁ <<< 4 ||| hexNibbleValue f.h₂) := by
  simpa using (packetEnd_append (j := []) (by simp) f []).2.2.2 0

theorem digits_accepted (f : Frame) (rest : List UInt8) :
    ∀ d ∈ digits .body (f.bytes ++ rest), Accepted d := by
  rw [digits_bytes]
  simp [f.digit₁.accepted, f.digit₂.accepted]

theorem kept_bytes (f : Frame) : kept f.bytes = f.bytes := by
  apply kept_of_not_ctrlC
  have h₁ : f.h₁ ≠ GdbPacketChar.ctrlC := fun h =>
    not_special_of_isHexDigit f.digit₁ (Or.inr (Or.inr h))
  have h₂ : f.h₂ ≠ GdbPacketChar.ctrlC := fun h =>
    not_special_of_isHexDigit f.digit₂ (Or.inr (Or.inr h))
  have h₃ : GdbPacketChar.ctrlC ≠ GdbPacketChar.start := by decide
  have h₄ : GdbPacketChar.ctrlC ≠ GdbPacketChar.stop := by decide
  simp [bytes, f.no_ctrlC, h₁.symm, h₂.symm, h₃, h₄]

theorem correct_iff (f : Frame) : f.Correct ↔ reference 0 .body f.bytes = counted .body f.bytes := by
  rw [reference_bytes, counted_bytes, f.digit₁.reference_eq_iff f.digit₂, toNat_sum]
  rfl

theorem verdict_bytes (f : Frame) (h : f.payload.length ≤ 2043) :
    verdict f.bytes = if f.Correct then .ok else .checksumError := by
  have hl : f.bytes.length < gdbPacketMaxBufferLength := by
    rw [length_bytes]
    exact Nat.lt_of_le_of_lt (Nat.add_le_add_right h 4) (by decide)
  simp only [verdict, kept_bytes, hl, true_and, correct_iff]
  by_cases hc : reference 0 .body f.bytes = counted .body f.bytes <;> simp [hc]

/-- A frame that is too long for the buffer is always accepted. -/
theorem verdict_bytes_long (f : Frame) (h : 2043 < f.payload.length) : verdict f.bytes = .ok := by
  have hl : ¬f.bytes.length < gdbPacketMaxBufferLength := by
    rw [length_bytes]
    have : gdbPacketMaxBufferLength = 2048 := rfl
    omega
  rw [verdict, kept_bytes, if_neg fun h => hl h.1]

theorem kept_eq_nil_of_storedBytes {j : List UInt8} (hj : GdbPacketChar.stop ∉ j) (f : Frame)
    (hlen : f.payload.length ≤ 2043) (h : storedBytes (j ++ f.bytes) = storedBytes f.bytes) :
    kept j = [] := by
  by_contra hne
  have hpos : 0 < (kept j).length := List.length_pos_of_ne_nil hne
  have hlt : f.payload.length + 1 < gdbPacketMaxBufferLength :=
    Nat.lt_of_le_of_lt (Nat.add_le_add_right hlen 1) (by decide)
  have hsplit : f.bytes = (GdbPacketChar.start :: f.payload) ++ [GdbPacketChar.stop, f.h₁, f.h₂] := rfl
  have hstop : (storedBytes f.bytes)[f.payload.length + 1]? = some GdbPacketChar.stop := by
    rw [storedBytes, f.kept_bytes, List.getElem?_take_of_lt hlt, hsplit]
    simp
  have hfront : (storedBytes (j ++ f.bytes))[f.payload.length + 1]? =
      (kept j ++ GdbPacketChar.start :: f.payload)[f.payload.length + 1]? := by
    rw [storedBytes, List.getElem?_take_of_lt hlt, kept_append, f.kept_bytes, hsplit,
      List.append_assoc, List.append_assoc, ← List.append_assoc (kept j),
      List.getElem?_append_left (by simp; omega)]
  have hmem : GdbPacketChar.stop ∈ kept j ++ GdbPacketChar.start :: f.payload :=
    List.mem_of_getElem? (hfront.symm.trans ((congrArg (·[f.payload.length + 1]?) h).trans hstop))
  have hkept : GdbPacketChar.stop ∉ kept j := fun hm => hj (List.mem_of_mem_filter hm)
  have hne : GdbPacketChar.stop ≠ GdbPacketChar.start := by decide
  simp [hkept, f.no_stop, hne] at hmem

/-- The frame that carries a payload with the right digits. -/
def carrying (payload : List UInt8) (no_start : GdbPacketChar.start ∉ payload := by decide)
    (no_stop : GdbPacketChar.stop ∉ payload := by decide)
    (no_ctrlC : GdbPacketChar.ctrlC ∉ payload := by decide) : Frame where
  payload := payload
  h₁ := hexDigit (getUpperNibble payload.sum)
  h₂ := hexDigit (getLowerNibble payload.sum)
  no_start := no_start
  no_stop := no_stop
  no_ctrlC := no_ctrlC
  digit₁ := isHexDigit_hexDigit_upper _
  digit₂ := isHexDigit_hexDigit_lower _

theorem carrying_correct {payload : List UInt8} (no_start : GdbPacketChar.start ∉ payload)
    (no_stop : GdbPacketChar.stop ∉ payload) (no_ctrlC : GdbPacketChar.ctrlC ∉ payload) :
    (carrying payload no_start no_stop no_ctrlC).Correct := by
  rw [correct_iff, reference_bytes, counted_bytes]
  exact reference_hexDigit _

theorem storedBytes_bytes (f : Frame) (h : f.payload.length ≤ 2043) :
    storedBytes f.bytes = f.bytes ++ [0] := by
  rw [storedBytes, kept_bytes, List.take_of_length_le]
  have : gdbPacketMaxBufferLength = 2048 := rfl
  simp
  omega

theorem readStream_behind (p : GdbPacket) {j : List UInt8} (hj : GdbPacketChar.stop ∉ j)
    (f : Frame) (rest : List UInt8) :
    ∃ q, gdbPacketReadStream p (j ++ (f.bytes ++ rest)) =
        .ok (verdict (j ++ f.bytes), q, (j ++ f.bytes).length) ∧ BuiltFrom (j ++ f.bytes) q := by
  obtain ⟨hend, -, hdigits, -⟩ := f.packetEnd_append hj rest
  have haccepted : ∀ d ∈ digits .body (j ++ (f.bytes ++ rest)), Accepted d := by
    rw [hdigits]
    simp [f.digit₁.accepted, f.digit₂.accepted]
  obtain ⟨q, hq, hbuilt⟩ := readStream_done p hend haccepted
  have htake : (j ++ (f.bytes ++ rest)).take (j ++ f.bytes).length = j ++ f.bytes := by
    rw [← List.append_assoc, List.take_left]
  rw [htake] at hq hbuilt
  exact ⟨q, hq, hbuilt⟩

theorem readStream_bytes (p : GdbPacket) (f : Frame) (rest : List UInt8) :
    ∃ q, gdbPacketReadStream p (f.bytes ++ rest) = .ok (verdict f.bytes, q, f.bytes.length) ∧
      BuiltFrom f.bytes q := by
  simpa using readStream_behind p (j := []) (by simp) f rest

theorem readStream_correct (p : GdbPacket) {f : Frame} (hc : f.Correct)
    (hlen : f.payload.length ≤ 2043) (rest : List UInt8) :
    ∃ q, gdbPacketReadStream p (f.bytes ++ rest) = .ok (.ok, q, f.bytes.length) ∧
      BuiltFrom f.bytes q := by
  obtain ⟨q, hq, hbuilt⟩ := f.readStream_bytes p rest
  rw [f.verdict_bytes hlen, if_pos hc] at hq
  exact ⟨q, hq, hbuilt⟩

theorem readStream_alone (p : GdbPacket) {f : Frame} (hc : f.Correct)
    (hlen : f.payload.length ≤ 2043) :
    ∃ q, gdbPacketReadStream p f.bytes = .ok (.ok, q, f.bytes.length) ∧ BuiltFrom f.bytes q := by
  have halone := readStream_correct p hc hlen []
  rwa [List.append_nil] at halone

end Frame
end NetBmp
