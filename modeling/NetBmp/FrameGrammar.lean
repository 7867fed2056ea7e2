import NetBmp.Frame

/-!
# Which byte strings the reader accepts

The reader accepts more than the frames of the protocol, and it halts on some bytes. Each
property of accepted packets is stated with the exact condition on the input under which the
reader has it.
-/

namespace NetBmp
namespace FrameGrammar

open Hex Framing

/-- A packet read from the first `k` bytes of `input` that is complete and untruncated: the
checksums agree, the last stored byte is the NUL, and every byte that the reader adds was
stored. -/
structure Verified (input : List UInt8) (k : ℕ) (q : GdbPacket) : Prop where
  checksum : q.checksum = q.referenceChecksum
  nul : q.stored.getLast? = some 0
  whole : q.stored = kept (input.take k) ++ [0]

/-- Success means a verified packet exactly when the bytes of the first complete packet,
Ctrl-C not counted, leave room for the NUL. -/
theorem readStream_ok_verified_iff (p : GdbPacket) (input : List UInt8) :
    (∀ q k, gdbPacketReadStream p input = .ok (.ok, q, k) → Verified input k q) ↔
      ∀ k, packetEnd input = some k → (∀ d ∈ digits .body input, Accepted d) →
        (kept (input.take k)).length ≤ gdbPacketMaxUsableBufferLength := by
  constructor
  · intro h k hend hdigits
    obtain ⟨q, hq, hbuilt⟩ := readStream_done p hend hdigits
    by_contra hlong
    have hfull : ¬(kept (input.take k)).length < gdbPacketMaxBufferLength := fun hl =>
      hlong (Nat.le_pred_of_lt hl)
    have hok : verdict (input.take k) = .ok := if_neg fun hc => hfull hc.1
    rw [hok] at hq
    have hwhole := congrArg List.length (h q k hq).whole
    have hle := q.length_le
    simp only [GdbPacket.length_stored, List.length_append, List.length_singleton] at hwhole
    omega
  · intro h q k hq
    obtain ⟨hdigits, hend, hok, hbuilt⟩ := readStream_accepted hq
    have hle := h k hend hdigits
    have hlt : (kept (input.take k)).length < gdbPacketMaxBufferLength :=
      Nat.lt_of_le_of_lt hle (by decide)
    have heq : reference 0 .body (input.take k) = counted .body (input.take k) := by
      by_contra hne
      simp [verdict, hlt, hne] at hok
    have hstored : q.stored = kept (input.take k) ++ [0] := by
      rw [hbuilt.stored, storedBytes, List.take_of_length_le (by simpa using hlt)]
    exact ⟨by rw [hbuilt.checksum hlt.le, hbuilt.reference, heq], by simp [hstored], hstored⟩

/-- The frame of `n` letters `a`, with the digits `01`. -/
def uniformFrame (n : ℕ) : Frame where
  payload := List.replicate n 'a'.toUInt8
  h₁ := '0'.toUInt8
  h₂ := '1'.toUInt8
  no_start := fun h => absurd (List.mem_replicate.mp h).2 (by decide)
  no_stop := fun h => absurd (List.mem_replicate.mp h).2 (by decide)
  no_ctrlC := fun h => absurd (List.mem_replicate.mp h).2 (by decide)
  digit₁ := by decide
  digit₂ := by decide

theorem length_uniformFrame (n : ℕ) : (uniformFrame n).bytes.length = n + 4 := by
  rw [Frame.length_bytes, uniformFrame, List.length_replicate]

/-- A frame with one payload byte more than the buffer has room for is reported as a good
packet although its NUL was discarded. -/
theorem overlong_frame_accepted :
    ∃ q, gdbPacketReadStream .zero (uniformFrame 2044).bytes = .ok (.ok, q, 2048) ∧
      ¬Verified (uniformFrame 2044).bytes 2048 q := by
  have hlength : (uniformFrame 2044).bytes.length = 2048 := length_uniformFrame 2044
  have hlong : 2043 < (uniformFrame 2044).payload.length := by
    rw [uniformFrame, List.length_replicate]
    omega
  obtain ⟨q, hq, -⟩ := (uniformFrame 2044).readStream_bytes .zero []
  rw [List.append_nil, (uniformFrame 2044).verdict_bytes_long hlong, hlength] at hq
  refine ⟨q, hq, fun h => ?_⟩
  have hwhole := congrArg List.length h.whole
  rw [← hlength, List.take_length, (uniformFrame 2044).kept_bytes, List.length_append, hlength,
    GdbPacket.length_stored] at hwhole
  have hle : q.length ≤ 2048 := q.length_le
  simp only [List.length_singleton] at hwhole
  omega

/-- Reading `f` behind the bytes `j` gives the packet that reading `f` alone gives. -/
def Resynchronises (p₁ p₂ : GdbPacket) (j : List UInt8) (f : Frame) : Prop :=
  ∃ q₁ q₂, gdbPacketReadStream p₁ (j ++ f.bytes) = .ok (.ok, q₁, (j ++ f.bytes).length) ∧
    gdbPacketReadStream p₂ f.bytes = .ok (.ok, q₂, f.bytes.length) ∧
    q₁.stored = q₂.stored ∧ q₁.length = q₂.length ∧ q₁.checksum = q₂.checksum ∧
    gdbPacketGetCommand q₁ = .ok (f.payload.headD GdbPacketChar.stop)

theorem getCommand_of_stored {q : GdbPacket} (f : Frame) (ht : q.type = .inbound)
    (hs : q.state = .complete) (hq : q.stored = f.bytes ++ [0]) :
    gdbPacketGetCommand q = .ok (f.payload.headD GdbPacketChar.stop) := by
  have hlen : q.length = f.payload.length + 5 := by
    simpa using congrArg List.length hq
  rw [getCommand_of_lt ht (Or.inl hs) (by omega), hq]
  cases hp : f.payload <;> simp [Frame.bytes, hp]

/-- The start character resynchronises the reader exactly when nothing but Ctrl-C stands
before it: the bytes in front stay in the buffer and in the checksum. -/
theorem resynchronises_iff (p₁ p₂ : GdbPacket) {j : List UInt8} (hj : GdbPacketChar.stop ∉ j)
    (f : Frame) (hf : f.Correct) (hlen : f.payload.length ≤ 2043) :
    Resynchronises p₁ p₂ j f ↔ ∀ c ∈ j, c = GdbPacketChar.ctrlC := by
  obtain ⟨q₁, hq₁, hbuilt₁⟩ := f.readStream_behind p₁ hj []
  obtain ⟨q₂, hq₂, hbuilt₂⟩ := Frame.readStream_alone p₂ hf hlen
  rw [List.append_nil] at hq₁
  constructor
  · rintro ⟨r₁, r₂, hr₁, hr₂, hstored, -⟩
    obtain ⟨-, rfl⟩ : _ ∧ q₁ = r₁ := by simpa [hq₁] using hr₁
    obtain rfl : q₂ = r₂ := by simpa [hq₂] using hr₂
    rw [hbuilt₁.stored, hbuilt₂.stored] at hstored
    exact kept_eq_nil_iff.mp (Frame.kept_eq_nil_of_storedBytes hj f hlen hstored)
  · intro hctrl
    have hkept : kept (j ++ f.bytes) = f.bytes := by
      rw [kept_append, kept_eq_nil_iff.mpr hctrl, List.nil_append, f.kept_bytes]
    have hsame : q₁.stored = q₂.stored := by
      rw [hbuilt₁.stored, hbuilt₂.stored, storedBytes_ctrlC_append hctrl]
    rw [verdict_ctrlC_append hctrl, f.verdict_bytes hlen, if_pos hf] at hq₁
    have hfits : f.bytes.length ≤ gdbPacketMaxBufferLength := by
      rw [f.length_bytes]
      exact Nat.le_trans (Nat.add_le_add_right hlen 4) (by decide)
    refine ⟨q₁, q₂, hq₁, hq₂, hsame, by simpa using congrArg List.length hsame, ?_, ?_⟩
    · rw [hbuilt₁.checksum (by rwa [hkept]), hbuilt₂.checksum (by rwa [f.kept_bytes]),
        counted_ctrlC_append hctrl]
    · exact getCommand_of_stored f hbuilt₁.type hbuilt₁.state
        (by rw [hsame, hbuilt₂.stored, f.storedBytes_bytes hlen])

def stopReasonFrame : Frame := .carrying (bytes "?")

theorem resynchronises_after_ctrlC :
    Resynchronises .zero .zero [GdbPacketChar.ctrlC] stopReasonFrame :=
  (resynchronises_iff .zero .zero (by decide) stopReasonFrame (by decide) (by decide)).mpr
    (by simp)

/-- An acknowledgement in front of a frame is counted in its checksum. -/
theorem ack_before_frame_rejected :
    GdbPacketChar.stop ∉ [GdbPacketChar.ack] ∧ stopReasonFrame.Correct ∧
      stopReasonFrame.payload.length ≤ 2043 ∧
      ¬Resynchronises .zero .zero [GdbPacketChar.ack] stopReasonFrame := by
  refine ⟨by decide, by decide, by decide, ?_⟩
  rintro ⟨q₁, q₂, hr, -⟩
  obtain ⟨q, hq, -⟩ := stopReasonFrame.readStream_behind .zero (j := [GdbPacketChar.ack])
    (by decide) []
  rw [List.append_nil, hr] at hq
  have hverdict : verdict ([GdbPacketChar.ack] ++ stopReasonFrame.bytes) = .checksumError := by
    decide
  rw [hverdict] at hq
  simp at hq

theorem snoc₃_inj {xs ys : List UInt8} {a b c d e : UInt8}
    (h : xs ++ [a, b, c] = ys ++ [a, d, e]) : xs = ys ∧ b = d ∧ c = e := by
  obtain ⟨hxs, htail⟩ := List.append_inj' h rfl
  exact ⟨hxs, by simpa using htail⟩

/-- The reader returns on `input`, and reports a checksum error for a completed packet with a
byte that is no hex digit in a checksum position. -/
def ReadsSafely (p : GdbPacket) (input : List UInt8) : Prop :=
  ∃ r q k, gdbPacketReadStream p input = .ok (r, q, k) ∧
    ∀ pre h₁ h₂, q.state = .complete → input.take k = pre ++ [h₁, h₂] →
      ¬(IsHexDigit h₁ ∧ IsHexDigit h₂) → r = .checksumError

/-- The bytes that pass for a digit: besides the digits, `:` to `@` and `W` to a backquote. -/
theorem accepted_iff (c : UInt8) :
    Accepted c ↔ (0x30 ≤ c ∧ c ≤ 0x46) ∨ (0x57 ≤ c ∧ c ≤ 0x66) := by
  revert c
  exact forall_uint8 (by decide +kernel)

theorem scan_of_split {raw pre : List UInt8} {t : Phase} {h₁ h₂ : UInt8}
    (hraw : raw = pre ++ [GdbPacketChar.stop, h₁, h₂]) (ht : packetFramer.after .body pre = some t)
    (hs₁ : ¬Special h₁) (hs₂ : ¬Special h₂) :
    reference 0 .body raw = (hexNibbleValue h₁ <<< 4 ||| hexNibbleValue h₂) ∧
      counted .body raw = counted .body pre := by
  subst hraw
  obtain ⟨-, hcounted, -, hreference⟩ := scan_tail hs₁ hs₂ t (reference 0 .body pre) []
  exact ⟨by rw [reference_append _ _ ht, hreference], by rw [counted_append _ ht, hcounted]; simp⟩

/-- No input halts the reader exactly when every byte in a checksum position passes for a
digit; a packet completed with such a byte that is no digit is rejected when it fits the
buffer and the value it passes for is not the sum. -/
theorem readsSafely_iff (p : GdbPacket) (input : List UInt8) :
    ReadsSafely p input ↔
      (∀ d ∈ digits .body input, Accepted d) ∧
        ∀ k pre h₁ h₂, packetEnd input = some k →
          input.take k = pre ++ [GdbPacketChar.stop, h₁, h₂] → ¬(IsHexDigit h₁ ∧ IsHexDigit h₂) →
          (kept (input.take k)).length < gdbPacketMaxBufferLength ∧
            (hexNibbleValue h₁ <<< 4 ||| hexNibbleValue h₂) ≠ counted .body pre := by
  rcases readStream_cases p input with
    ⟨⟨d, hd, hbad⟩, he⟩ | ⟨hdigits, hend, q, he, hstate, -⟩ | ⟨hdigits, k, hend, q, he, hbuilt⟩
  · constructor
    · rintro ⟨r, q, k, hr, -⟩
      simp [he] at hr
    · exact fun h => absurd (h.1 d hd) hbad
  · refine ⟨fun _ => ⟨hdigits, fun k pre h₁ h₂ hk => by simp [hend] at hk⟩, fun _ => ?_⟩
    exact ⟨_, q, _, he, fun _ _ _ hs => absurd hs hstate⟩
  · obtain ⟨pre₀, a₁, a₂, t, htake, hafter, hs₁, hs₂⟩ := packetEnd_split hend
    obtain ⟨href, hsum⟩ := scan_of_split htake hafter hs₁ hs₂
    have hverdict : verdict (input.take k) = .checksumError ↔
        (kept (input.take k)).length < gdbPacketMaxBufferLength ∧
          (hexNibbleValue a₁ <<< 4 ||| hexNibbleValue a₂) ≠ counted .body pre₀ := by
      rw [verdict, href, hsum]
      split_ifs with hc <;> simp [hc]
    constructor
    · rintro ⟨r, q', k', hr, hsafe⟩
      obtain ⟨rfl, rfl, rfl⟩ : verdict (input.take k) = r ∧ q = q' ∧ k = k' := by
        simpa [he] using hr
      refine ⟨hdigits, fun k' pre h₁ h₂ hk hsplit hnot => ?_⟩
      obtain rfl : k = k' := by simpa [hend] using hk
      obtain ⟨rfl, rfl, rfl⟩ := snoc₃_inj (htake.symm.trans hsplit)
      have hsplit' : input.take k = (pre₀ ++ [GdbPacketChar.stop]) ++ [a₁, a₂] := by
        simp [htake]
      exact hverdict.mp (hsafe _ a₁ a₂ hbuilt.state hsplit' hnot)
    · rintro ⟨-, hrej⟩
      refine ⟨_, q, k, he, fun pre h₁ h₂ _ hsplit hnot => ?_⟩
      have hsplit' : (pre₀ ++ [GdbPacketChar.stop]) ++ [a₁, a₂] = pre ++ [h₁, h₂] := by
        simpa [htake] using hsplit
      obtain ⟨-, htail⟩ := List.append_inj' hsplit' (by simp)
      obtain ⟨rfl, rfl⟩ : a₁ = h₁ ∧ a₂ = h₂ := by simpa using htail
      exact hverdict.mpr (hrej k pre₀ a₁ a₂ hend htake hnot)

theorem letter_in_checksum_halts :
    gdbPacketReadStream .zero (bytes "$#z0") = .error "Invalid hex nibble." ∧
      ¬ReadsSafely .zero (bytes "$#z0") := by
  have hhalt : gdbPacketReadStream .zero (bytes "$#z0") = .error "Invalid hex nibble." :=
    readStream_halts .zero ⟨'z'.toUInt8, by decide, by decide⟩
  refine ⟨hhalt, ?_⟩
  rintro ⟨r, q, k, hr, -⟩
  simp [hhalt] at hr

/-- The bytes end in a frame of the protocol with the right digits. -/
def EndsInFrame (bs : List UInt8) : Prop :=
  ∃ j p h₁ h₂, bs = j ++ GdbPacketChar.start :: (p ++ [GdbPacketChar.stop, h₁, h₂]) ∧
    GdbPacketChar.start ∉ p ∧ GdbPacketChar.stop ∉ p ∧ IsHexDigit h₁ ∧ IsHexDigit h₂ ∧
    16 * hexDigitValue h₁ + hexDigitValue h₂ = checksum p

theorem counted_of_start {j p : List UInt8} {t : Phase}
    (h : packetFramer.after .body (j ++ GdbPacketChar.start :: p) = some t)
    (hstart : GdbPacketChar.start ∉ p) (hstop : GdbPacketChar.stop ∉ p) :
    counted .body (j ++ GdbPacketChar.start :: p) + 3 * UInt8.ofNat (p.count GdbPacketChar.ctrlC) =
      counted .body j + p.sum := by
  rw [packetFramer.after_append] at h
  obtain ⟨u, hu, -⟩ := Option.bind_eq_some_iff.mp h
  have hspecial : Special GdbPacketChar.start := Or.inl rfl
  rw [counted_append _ hu, UInt8.add_assoc, ← counted_add_ctrlC hstart hstop]
  simp [counted, hspecial]

/-- What the reader accepts ends in a frame exactly when, for the first complete packet, the
digits do not match the sum, or a start character begins a payload without `#`, the digits are
hex digits, and the bytes in front count for as much as the Ctrl-C in the payload would. -/
theorem readStream_ok_endsInFrame_iff (p : GdbPacket) (input : List UInt8)
    (hlen : input.length ≤ gdbPacketMaxUsableBufferLength) :
    (∀ q k, gdbPacketReadStream p input = .ok (.ok, q, k) → EndsInFrame (input.take k)) ↔
      ∀ k pre h₁ h₂, packetEnd input = some k → (∀ d ∈ digits .body input, Accepted d) →
        input.take k = pre ++ [GdbPacketChar.stop, h₁, h₂] →
        (hexNibbleValue h₁ <<< 4 ||| hexNibbleValue h₂) ≠ counted .body pre ∨
          (IsHexDigit h₁ ∧ IsHexDigit h₂ ∧ ∃ j p, pre = j ++ GdbPacketChar.start :: p ∧
            GdbPacketChar.start ∉ p ∧ GdbPacketChar.stop ∉ p ∧
            counted .body j = 3 * UInt8.ofNat (p.count GdbPacketChar.ctrlC)) := by
  have hfits : ∀ k, (kept (input.take k)).length < gdbPacketMaxBufferLength := fun k =>
    calc (kept (input.take k)).length ≤ (input.take k).length := List.length_filter_le _ _
      _ ≤ input.length := by simp
      _ < gdbPacketMaxBufferLength := Nat.lt_of_le_of_lt hlen (by decide)
  constructor
  · intro h k pre h₁ h₂ hend hdigits hsplit
    obtain ⟨pre₀, a₁, a₂, t, htake, hafter, hs₁, hs₂⟩ := packetEnd_split hend
    obtain ⟨rfl, rfl, rfl⟩ := snoc₃_inj (htake.symm.trans hsplit)
    obtain ⟨href, hsum⟩ := scan_of_split htake hafter hs₁ hs₂
    by_cases heq : (hexNibbleValue a₁ <<< 4 ||| hexNibbleValue a₂) = counted .body pre₀
    · right
      obtain ⟨q, hq, -⟩ := readStream_done p hend hdigits
      have hok : verdict (input.take k) = .ok := if_neg fun hc => hc.2 (by rw [href, hsum, heq])
      rw [hok] at hq
      obtain ⟨j, p, h₁, h₂, hbs, hstart, hstop, hd₁, hd₂, hvalue⟩ := h q k hq
      have hbs' : pre₀ ++ [GdbPacketChar.stop, a₁, a₂] =
          (j ++ GdbPacketChar.start :: p) ++ [GdbPacketChar.stop, h₁, h₂] := by
        simpa [htake] using hbs
      obtain ⟨rfl, rfl, rfl⟩ := snoc₃_inj hbs'
      refine ⟨hd₁, hd₂, j, p, rfl, hstart, hstop, ?_⟩
      have hpsum : counted .body (j ++ GdbPacketChar.start :: p) = p.sum := by
        rw [← heq, hd₁.reference_eq_iff hd₂, toNat_sum, hvalue]
      have hcount := counted_of_start hafter hstart hstop
      rw [hpsum, UInt8.add_comm] at hcount
      exact (UInt8.add_left_inj _).mp hcount.symm
    · exact Or.inl heq
  · intro h q k hq
    obtain ⟨hdigits, hend, hok, -⟩ := readStream_accepted hq
    obtain ⟨pre, h₁, h₂, t, htake, hafter, hs₁, hs₂⟩ := packetEnd_split hend
    obtain ⟨href, hsum⟩ := scan_of_split htake hafter hs₁ hs₂
    have heq : (hexNibbleValue h₁ <<< 4 ||| hexNibbleValue h₂) = counted .body pre := by
      by_contra hne
      rw [verdict, href, hsum, if_pos ⟨hfits k, hne⟩] at hok
      simp at hok
    rcases h k pre h₁ h₂ hend hdigits htake with
      hne | ⟨hd₁, hd₂, j, p, rfl, hstart, hstop, hj⟩
    · exact absurd heq hne
    · refine ⟨j, p, h₁, h₂, by simp [htake], hstart, hstop, hd₁, hd₂, ?_⟩
      have hcount := counted_of_start hafter hstart hstop
      rw [hj, UInt8.add_comm, UInt8.add_right_inj] at hcount
      rw [← toNat_sum, ← hd₁.reference_eq_iff hd₂, heq, hcount]

theorem no_start_accepted :
    (bytes "#00").length ≤ gdbPacketMaxUsableBufferLength ∧
      ∃ q, gdbPacketReadStream .zero (bytes "#00") = .ok (.ok, q, 3) ∧
        ¬EndsInFrame ((bytes "#00").take 3) := by
  have hend : packetEnd (bytes "#00") = some 3 := by decide
  obtain ⟨q, hq, -⟩ := readStream_done .zero hend (by decide +kernel)
  have hverdict : verdict ((bytes "#00").take 3) = .ok := by decide
  rw [hverdict] at hq
  refine ⟨by decide, q, hq, ?_⟩
  rintro ⟨j, p, h₁, h₂, hbs, -⟩
  have hmem : GdbPacketChar.start ∈ (bytes "#00").take 3 := by
    rw [hbs]
    simp
  exact absurd hmem (by decide)

theorem stopReasonFrame_endsInFrame :
    stopReasonFrame.bytes.length ≤ gdbPacketMaxUsableBufferLength ∧
      ∀ q k, gdbPacketReadStream .zero stopReasonFrame.bytes = .ok (.ok, q, k) →
        EndsInFrame (stopReasonFrame.bytes.take k) := by
  refine ⟨by decide, (readStream_ok_endsInFrame_iff .zero stopReasonFrame.bytes (by decide)).mpr ?_⟩
  intro k pre h₁ h₂ hend _ hsplit
  have hk : packetEnd stopReasonFrame.bytes = some 5 := by decide
  obtain rfl : 5 = k := by simpa [hk] using hend
  have htake : stopReasonFrame.bytes.take 5 =
      (GdbPacketChar.start :: ['?'.toUInt8]) ++ [GdbPacketChar.stop, '3'.toUInt8, 'F'.toUInt8] := by
    decide
  obtain ⟨rfl, rfl, rfl⟩ := snoc₃_inj (htake.symm.trans hsplit)
  exact Or.inr ⟨by decide, by decide, [], ['?'.toUInt8], rfl, by decide, by decide, by decide⟩

/-- A frame with right digits whose payload may hold every byte but `$` and `#`. -/
structure BinaryFrame where
  payload : List UInt8
  h₁ : UInt8
  h₂ : UInt8
  no_start : GdbPacketChar.start ∉ payload
  no_stop : GdbPacketChar.stop ∉ payload
  digit₁ : IsHexDigit h₁
  digit₂ : IsHexDigit h₂
  correct : 16 * hexDigitValue h₁ + hexDigitValue h₂ = checksum payload

namespace BinaryFrame

def bytes (f : BinaryFrame) : List UInt8 :=
  GdbPacketChar.start :: (f.payload ++ [GdbPacketChar.stop, f.h₁, f.h₂])

def frame (f : BinaryFrame) (no_ctrlC : GdbPacketChar.ctrlC ∉ f.payload) : Frame where
  payload := f.payload
  h₁ := f.h₁
  h₂ := f.h₂
  no_start := f.no_start
  no_stop := f.no_stop
  no_ctrlC := no_ctrlC
  digit₁ := f.digit₁
  digit₂ := f.digit₂

end BinaryFrame

/-- The reader accepts the frame, stores all of it with its NUL, and consumes it. -/
def Transparent (p : GdbPacket) (f : BinaryFrame) : Prop :=
  ∃ q, gdbPacketReadStream p f.bytes = .ok (.ok, q, f.payload.length + 4) ∧
    q.stored = f.bytes ++ [0]

theorem ctrlC_notMem_storedBytes (raw : List UInt8) : GdbPacketChar.ctrlC ∉ storedBytes raw := by
  intro h
  rcases List.mem_append.mp (List.mem_of_mem_take h) with hmem | hmem
  · simp [kept] at hmem
  · exact absurd hmem (by decide)

/-- The reader is transparent for exactly the payloads without Ctrl-C, which it never stores. -/
theorem transparent_iff (p : GdbPacket) (f : BinaryFrame) (hlen : f.payload.length ≤ 2043) :
    Transparent p f ↔ GdbPacketChar.ctrlC ∉ f.payload := by
  constructor
  · rintro ⟨q, hq, hstored⟩ hctrl
    obtain ⟨-, -, -, hbuilt⟩ := readStream_accepted hq
    apply ctrlC_notMem_storedBytes (f.bytes.take (f.payload.length + 4))
    rw [← hbuilt.stored, hstored]
    simp [BinaryFrame.bytes, hctrl]
  · intro hctrl
    have hcorrect : (f.frame hctrl).Correct := f.correct
    obtain ⟨q, hq, hbuilt⟩ := Frame.readStream_alone p hcorrect hlen
    rw [Frame.length_bytes] at hq
    exact ⟨q, hq, hbuilt.stored.trans ((f.frame hctrl).storedBytes_bytes hlen)⟩

/-- An `X` packet that writes the byte `+` to memory. -/
def ackWrite : BinaryFrame where
  payload := bytes "X0,1:+"
  h₁ := '4'.toUInt8
  h₂ := 'A'.toUInt8
  no_start := by decide
  no_stop := by decide
  digit₁ := by decide
  digit₂ := by decide
  correct := by decide

/-- An `X` packet that writes the byte 3 to memory. -/
def ctrlCWrite : BinaryFrame where
  payload := bytes "X0,1:" ++ [GdbPacketChar.ctrlC]
  h₁ := '2'.toUInt8
  h₂ := '2'.toUInt8
  no_start := by decide
  no_stop := by decide
  digit₁ := by decide
  digit₂ := by decide
  correct := by decide

theorem transparent_ackWrite : Transparent .zero ackWrite :=
  (transparent_iff .zero ackWrite (by decide)).mpr (by decide)

/-- The byte 3 is left out of the checksum, and the packet is refused. -/
theorem ctrlCWrite_refused :
    ctrlCWrite.payload.length ≤ 2043 ∧ ¬Transparent .zero ctrlCWrite ∧
      ∃ q, gdbPacketReadStream .zero ctrlCWrite.bytes = .ok (.checksumError, q, 10) := by
  have hend : packetEnd ctrlCWrite.bytes = some 10 := by decide
  obtain ⟨q, hq, -⟩ := readStream_done .zero hend (by decide +kernel)
  have hverdict : verdict (ctrlCWrite.bytes.take 10) = .checksumError := by decide
  rw [hverdict] at hq
  refine ⟨by decide, ?_, q, hq⟩
  rintro ⟨q', hq', -⟩
  rw [hq] at hq'
  cases hq'

end FrameGrammar
end NetBmp
