import NetBmp.Framing
import NetBmp.Packet

/-!
# What the packet reader does

The states in which `gdb_packet_read_stream` reads fall into three phases: outside the
checksum, at its upper and at its lower digit. They form a framer, and the packet read from
a stream is determined by the bytes up to the end of its first frame. The functions `kept`,
`counted`, `digits` and `reference` say which bytes are stored, summed and decoded, and the
theorems at the end connect them to the reader.
-/

namespace NetBmp

open Hex Halting Framing

/-- The bytes of the buffer that belong to the packet. -/
def GdbPacket.stored (packet : GdbPacket) : List UInt8 := packet.buffer.toList.take packet.length

@[simp] theorem GdbPacket.length_stored (packet : GdbPacket) :
    packet.stored.length = packet.length := by
  simp [GdbPacket.stored, packet.length_le]

theorem GdbPacket.buffer_drop (p : GdbPacket) {n : ℕ} (h : n ≤ p.length) :
    p.buffer.toList.drop n = p.stored.drop n ++ p.buffer.toList.drop p.length := by
  conv_lhs => rw [← List.take_append_drop p.length p.buffer.toList]
  rw [List.drop_append_of_le_length (by simp [p.length_le, h])]
  rfl

theorem getBufferOffset_of_lt {p : GdbPacket} {n : ℕ} (hs : p.state = .complete ∨ p.state = .sent)
    (h : n < p.length) :
    gdbPacketGetBufferOffset p n = .ok (p.stored.drop n ++ p.buffer.toList.drop p.length) := by
  simp only [gdbPacketGetBufferOffset, gdbPacketGetLength, assertVerbose_true _ hs, ok_bind,
    pure_eq_ok, assertVerbose_true _ h, p.buffer_drop h.le]

theorem getCommand_of_lt {p : GdbPacket} (ht : p.type = .inbound)
    (hs : p.state = .complete ∨ p.state = .sent) (h : 1 < p.length) :
    gdbPacketGetCommand p = .ok ((p.stored.drop 1).headD 0) := by
  have hne : p.stored.drop 1 ≠ [] := List.ne_nil_of_length_pos (by simpa using h)
  simp only [gdbPacketGetCommand, assertVerbose_true _ ht, assertVerbose_true _ hs, ok_bind,
    pure_eq_ok, getBufferOffset_of_lt hs h]
  cases hd : p.stored.drop 1 with
  | nil => exact absurd hd hne
  | cons c cs => rfl

theorem getPayloadLength_of_le {p : GdbPacket} (hs : p.state = .complete ∨ p.state = .sent)
    (h : gdbPacketOverheadLength ≤ p.length) :
    gdbPacketGetPayloadLength p = .ok (p.length - gdbPacketOverheadLength) := by
  simp only [gdbPacketGetPayloadLength, gdbPacketGetLength, assertVerbose_true _ hs, ok_bind,
    pure_eq_ok, assertVerbose_true _ h]

@[simp] theorem stored_init (p : GdbPacket) (t : GdbPacketType) :
    (gdbPacketInit p t).stored = [] := by
  simp [gdbPacketInit, GdbPacket.stored]

theorem gdbPacketAddChar_full {p : GdbPacket} (h : p.length = gdbPacketMaxBufferLength)
    (c : UInt8) (b : Bool) : gdbPacketAddChar p c b = (.overflow, p) := by
  simp [gdbPacketAddChar, h]

theorem gdbPacketAddChar_result {p : GdbPacket} (h : p.length < gdbPacketMaxBufferLength)
    (c : UInt8) (b : Bool) : (gdbPacketAddChar p c b).1 = .ok := by
  simp [gdbPacketAddChar, Nat.not_le.mpr h]

@[simp] theorem state_addChar (p : GdbPacket) (c : UInt8) (b : Bool) :
    (gdbPacketAddChar p c b).2.state = p.state := by
  unfold gdbPacketAddChar; split <;> rfl

@[simp] theorem type_addChar (p : GdbPacket) (c : UInt8) (b : Bool) :
    (gdbPacketAddChar p c b).2.type = p.type := by
  unfold gdbPacketAddChar; split <;> rfl

@[simp] theorem referenceChecksum_addChar (p : GdbPacket) (c : UInt8) (b : Bool) :
    (gdbPacketAddChar p c b).2.referenceChecksum = p.referenceChecksum := by
  unfold gdbPacketAddChar; split <;> rfl

@[simp] theorem checksum_addChar_false (p : GdbPacket) (c : UInt8) :
    (gdbPacketAddChar p c false).2.checksum = p.checksum := by
  unfold gdbPacketAddChar; split <;> simp

theorem checksum_addChar_true {p : GdbPacket} (h : p.length < gdbPacketMaxBufferLength)
    (c : UInt8) : (gdbPacketAddChar p c true).2.checksum = p.checksum + c := by
  simp [gdbPacketAddChar, Nat.not_le.mpr h]

theorem take_succ_set {α : Type} {xs : List α} {i : ℕ} {a : α} (h : i < xs.length) :
    (xs.set i a).take (i + 1) = xs.take i ++ [a] := by
  rw [List.take_succ_eq_append_getElem (by simpa using h), List.getElem_set_self,
    List.take_set_of_le le_rfl]

theorem stored_addChar (p : GdbPacket) (c : UInt8) (b : Bool) :
    (gdbPacketAddChar p c b).2.stored = (p.stored ++ [c]).take gdbPacketMaxBufferLength := by
  by_cases h : p.length < gdbPacketMaxBufferLength
  · have hlen : p.length < p.buffer.toList.length := by simpa using h
    have hset := take_succ_set (a := c) hlen
    have hstored : (p.stored ++ [c]).length ≤ gdbPacketMaxBufferLength := by simpa using h
    rw [List.take_of_length_le hstored]
    simpa [gdbPacketAddChar, Nat.not_le.mpr h, GdbPacket.stored, Vector.toList_set] using hset
  · have hfull : p.length = gdbPacketMaxBufferLength := le_antisymm p.length_le (not_lt.mp h)
    have hlen : p.stored.length = gdbPacketMaxBufferLength := by simp [hfull]
    rw [gdbPacketAddChar_full hfull, ← hlen, List.take_left]

/-- Where the reader stands with respect to the checksum digits. -/
inductive Phase
  | body | upper | lower
  deriving DecidableEq, Repr

/-- The bytes that `gdb_packet_read_char` handles itself in every state. -/
def Special (c : UInt8) : Prop :=
  c = GdbPacketChar.start ∨ c = GdbPacketChar.stop ∨ c = GdbPacketChar.ctrlC

instance (c : UInt8) : Decidable (Special c) := by unfold Special; infer_instance

def Phase.next (phase : Phase) (c : UInt8) : Option Phase :=
  if c = GdbPacketChar.start then some .body
  else if c = GdbPacketChar.stop then some .upper
  else if c = GdbPacketChar.ctrlC then some .body
  else
    match phase with
    | .body => some .body
    | .upper => some .lower
    | .lower => none

/-- The packets of a stream end where the reader completes them. -/
def packetFramer : Framer UInt8 Phase := ⟨.body, Phase.next⟩

/-- The number of bytes up to and including the one that completes the first packet. -/
abbrev packetEnd (bs : List UInt8) : Option ℕ := packetFramer.frameEnd .body bs

/-- The phase of a state in which the reader collects characters. -/
def GdbPacketState.phase : GdbPacketState → Option Phase
  | .init | .collect | .abort => some .body
  | .collectChecksumUpper => some .upper
  | .collectChecksumLower => some .lower
  | _ => none

theorem state_ne_complete {s : GdbPacketState} {phase : Phase} (h : s.phase = some phase) :
    s ≠ .complete := by
  rintro rfl
  simp [GdbPacketState.phase] at h

/-- The bytes that are stored: all but Ctrl-C. -/
def kept (bs : List UInt8) : List UInt8 := bs.filter (· ≠ GdbPacketChar.ctrlC)

/-- The sum of the bytes that are counted in the checksum, up to the end of the packet. -/
def counted : Phase → List UInt8 → UInt8
  | _, [] => 0
  | phase, c :: cs =>
    (if phase = .body ∧ ¬Special c then c else 0) +
      match phase.next c with
      | none => 0
      | some phase => counted phase cs

/-- The bytes that are decoded as checksum digits, up to the end of the packet. -/
def digits : Phase → List UInt8 → List UInt8
  | _, [] => []
  | phase, c :: cs =>
    (if phase ≠ .body ∧ ¬Special c then [c] else []) ++
      match phase.next c with
      | none => []
      | some phase => digits phase cs

def referenceStep (reference : UInt8) (phase : Phase) (c : UInt8) : UInt8 :=
  if Special c then reference
  else
    match phase with
    | .body => reference
    | .upper => hexNibbleValue c <<< 4
    | .lower => reference ||| hexNibbleValue c

/-- The reference checksum at the end of the packet. -/
def reference : UInt8 → Phase → List UInt8 → UInt8
  | r, _, [] => r
  | r, phase, c :: cs =>
    match phase.next c with
    | none => referenceStep r phase c
    | some next => reference (referenceStep r phase c) next cs

theorem reference_cons_none (r : UInt8) {phase : Phase} {c : UInt8} (h : phase.next c = none)
    (cs : List UInt8) : reference r phase (c :: cs) = referenceStep r phase c := by
  simp [reference, h]

theorem reference_cons_some (r : UInt8) {phase next : Phase} {c : UInt8}
    (h : phase.next c = some next) (cs : List UInt8) :
    reference r phase (c :: cs) = reference (referenceStep r phase c) next cs := by
  simp [reference, h]

/-- What one character does to a packet that is being read. -/
structure Follows (p : GdbPacket) (phase : Phase) (c : UInt8) (q : GdbPacket) : Prop where
  stored : q.stored = (p.stored ++ kept [c]).take gdbPacketMaxBufferLength
  type : q.type = p.type
  checksum : p.length + (kept [c]).length ≤ gdbPacketMaxBufferLength →
    q.checksum = p.checksum + if phase = .body ∧ ¬Special c then c else 0
  reference : q.referenceChecksum = referenceStep p.referenceChecksum phase c
  open_phase : ∀ next, phase.next c = some next → q.state.phase = some next
  complete : phase.next c = none → q.state = .complete

@[simp] theorem kept_append (xs ys : List UInt8) : kept (xs ++ ys) = kept xs ++ kept ys := by
  simp [kept]

theorem kept_of_not_ctrlC {bs : List UInt8} (h : GdbPacketChar.ctrlC ∉ bs) : kept bs = bs := by
  refine List.filter_eq_self.mpr fun c hc => ?_
  simpa using fun he : c = GdbPacketChar.ctrlC => h (he ▸ hc)

theorem kept_singleton {c : UInt8} (h : c ≠ GdbPacketChar.ctrlC) : kept [c] = [c] :=
  kept_of_not_ctrlC (by simpa using h.symm)

@[simp] theorem next_start (phase : Phase) : phase.next GdbPacketChar.start = some .body := rfl
@[simp] theorem next_stop (phase : Phase) : phase.next GdbPacketChar.stop = some .upper := rfl
@[simp] theorem next_ctrlC (phase : Phase) : phase.next GdbPacketChar.ctrlC = some .body := rfl

theorem next_of_not_special (phase : Phase) {c : UInt8} (h : ¬Special c) :
    phase.next c =
      match phase with
      | .body => some .body
      | .upper => some .lower
      | .lower => none := by
  simp only [Special, not_or] at h
  simp [Phase.next, h]

theorem parseChar_follows {p : GdbPacket} {phase : Phase} (hp : p.state.phase = some phase)
    {c : UInt8} (hc : ¬Special c) (hdigit : phase ≠ .body → Accepted c) :
    ∃ q, gdbPacketParseChar p c = .ok q ∧ Follows p phase c q := by
  have hk : kept [c] = [c] := kept_singleton fun h => hc (Or.inr (Or.inr h))
  have hnext := next_of_not_special phase hc
  cases phase with
  | body =>
    have hparse : gdbPacketParseChar p c = .ok (gdbPacketAddChar p c true).2 := by
      cases hs : p.state <;> simp [hs, GdbPacketState.phase] at hp <;>
        simp [gdbPacketParseChar, hs]
    refine ⟨_, hparse, ?_, by simp, ?_, by simp [referenceStep, hc], ?_, by simp [hnext]⟩
    · rw [stored_addChar, hk]
    · intro hl
      rw [hk, List.length_singleton] at hl
      simp [checksum_addChar_true (Nat.lt_of_succ_le hl), hc]
    · intro next hn
      rw [hnext] at hn
      simpa [hn] using hp
  | upper =>
    have hs : p.state = .collectChecksumUpper := by
      cases hs : p.state <;> simp [hs, GdbPacketState.phase] at hp; rfl
    have hnibble := charFromHexNibble_accepted (hdigit (by simp))
    refine ⟨_, by simp only [gdbPacketParseChar, hs, hnibble]; rfl, ?_, ?_, ?_, ?_, ?_, ?_⟩
    · exact (stored_addChar p c false).trans (by rw [hk])
    · simp
    · simp
    · simp [referenceStep, hc]
    · intro next hn
      rw [hnext] at hn
      simpa [GdbPacketState.phase] using hn
    · simp [hnext]
  | lower =>
    have hs : p.state = .collectChecksumLower := by
      cases hs : p.state <;> simp [hs, GdbPacketState.phase] at hp; rfl
    have hnibble := charFromHexNibble_accepted (hdigit (by simp))
    refine ⟨_, by simp only [gdbPacketParseChar, hs, hnibble]; rfl, ?_, ?_, ?_, ?_, ?_, ?_⟩
    · exact (stored_addChar p c false).trans (by rw [hk])
    · simp
    · simp
    · simp [referenceStep, hc]
    · simp [hnext]
    · simp

theorem switchChar_follows {p : GdbPacket} {phase : Phase} (hp : p.state.phase = some phase)
    {c : UInt8} (hdigit : phase ≠ .body → ¬Special c → Accepted c) :
    ∃ q, gdbPacketSwitchChar p c = .ok q ∧ Follows p phase c q := by
  by_cases hstart : c = GdbPacketChar.start
  · subst hstart
    refine ⟨_, by simp only [gdbPacketSwitchChar]; rfl, ?_, ?_, ?_, ?_, ?_, ?_⟩
    · exact (stored_addChar p _ false).trans (by rw [kept_singleton (by decide)])
    all_goals simp [Special, referenceStep, GdbPacketState.phase]
  by_cases hstop : c = GdbPacketChar.stop
  · subst hstop
    refine ⟨_, by simp only [gdbPacketSwitchChar]; rfl, ?_, ?_, ?_, ?_, ?_, ?_⟩
    · exact (stored_addChar p _ false).trans (by rw [kept_singleton (by decide)])
    all_goals simp [Special, referenceStep, GdbPacketState.phase]
  by_cases hctrl : c = GdbPacketChar.ctrlC
  · subst hctrl
    refine ⟨_, by simp only [gdbPacketSwitchChar]; rfl, ?_, ?_, ?_, ?_, ?_, ?_⟩
    · simp [kept, GdbPacket.stored]
    all_goals simp [Special, referenceStep, GdbPacketState.phase]
  have hc : ¬Special c := by simp [Special, hstart, hstop, hctrl]
  have hstate : p.state ≠ .pendingAck := by
    intro h
    simp [h, GdbPacketState.phase] at hp
  obtain ⟨q, hq, hfollows⟩ := parseChar_follows hp hc fun h => hdigit h hc
  refine ⟨q, ?_, hfollows⟩
  simp [gdbPacketSwitchChar, hstart, hstop, hctrl, hstate, hq]

theorem switchChar_halts {p : GdbPacket} {phase : Phase} (hp : p.state.phase = some phase)
    {c : UInt8} (hphase : phase ≠ .body) (hc : ¬Special c) (hdigit : ¬Accepted c) :
    gdbPacketSwitchChar p c = .error "Invalid hex nibble." := by
  have hnibble := charFromHexNibble_rejected hdigit
  have hparse : gdbPacketParseChar p c = .error "Invalid hex nibble." := by
    cases hs : p.state <;> simp [hs, GdbPacketState.phase] at hp <;> subst hp <;>
      first
      | exact absurd rfl hphase
      | simp only [gdbPacketParseChar, hs, hnibble]; rfl
  have hstate : p.state ≠ .pendingAck := by
    intro h
    simp [h, GdbPacketState.phase] at hp
  simp only [Special, not_or] at hc
  simp [gdbPacketSwitchChar, hc, hstate, hparse]

theorem readChar_open {p q : GdbPacket} {c : UInt8} (hq : gdbPacketSwitchChar p c = .ok q)
    (hs : q.state ≠ .complete) : gdbPacketReadChar p c = .ok (.collecting, q) := by
  simp only [gdbPacketReadChar, hq]
  exact if_pos hs

/-- The result of a completed packet: the NUL that does not fit hides a wrong checksum. -/
def resultOf (length : ℕ) (reference checksum : UInt8) : GdbPacketResult :=
  if length < gdbPacketMaxBufferLength ∧ reference ≠ checksum then .checksumError else .ok

/-- Two ways of writing the same result: the sums need to agree only where they matter. -/
theorem resultOf_congr {l l' : ℕ} {r c c' : UInt8}
    (hl : l < gdbPacketMaxBufferLength ↔ l' < gdbPacketMaxBufferLength)
    (hc : l' < gdbPacketMaxBufferLength → c = c') : resultOf l r c = resultOf l' r c' := by
  by_cases h : l' < gdbPacketMaxBufferLength
  · simp [resultOf, hl, h, hc h]
  · simp [resultOf, hl, h]

/-- The result for a completed packet. When the NUL does not fit any more, `RETURN_IF_NOT`
reports success and the checksums are not compared. -/
theorem readChar_done {p q : GdbPacket} {c : UInt8} (hq : gdbPacketSwitchChar p c = .ok q)
    (hs : q.state = .complete) :
    gdbPacketReadChar p c =
      .ok (resultOf q.length q.referenceChecksum q.checksum, (gdbPacketAddChar q 0 false).2) := by
  simp only [gdbPacketReadChar, hq, resultOf]
  by_cases hl : q.length < gdbPacketMaxBufferLength
  · have hadd := gdbPacketAddChar_result hl 0 false
    by_cases hr : q.referenceChecksum = q.checksum
    · simp [hs, hadd, hr]
    · simp [hs, hadd, hr, hl]
  · have hfull : q.length = gdbPacketMaxBufferLength := le_antisymm q.length_le (not_lt.mp hl)
    simp [hs, gdbPacketAddChar_full hfull, hl]

theorem mem_digits_cons {d c : UInt8} {phase : Phase} {cs : List UInt8} :
    d ∈ digits phase (c :: cs) ↔
      (phase ≠ .body ∧ ¬Special c ∧ d = c) ∨ ∃ next, phase.next c = some next ∧ d ∈ digits next cs := by
  rw [digits, List.mem_append]
  apply or_congr
  · by_cases hcond : phase ≠ .body ∧ ¬Special c
    · simp [hcond]
    · simp only [hcond, if_false, List.not_mem_nil, false_iff]
      exact fun h => hcond ⟨h.1, h.2.1⟩
  · cases phase.next c <;> simp

theorem readStreamLoop_halts {p : GdbPacket} {phase : Phase} (hp : p.state.phase = some phase)
    (r : GdbPacketResult) (n : ℕ) (cs : List UInt8) (hbad : ∃ d ∈ digits phase cs, ¬Accepted d) :
    gdbPacketReadStreamLoop p r n cs = .error "Invalid hex nibble." := by
  induction cs generalizing p phase r n with
  | nil => simp [digits] at hbad
  | cons c cs ih =>
    by_cases hc : phase ≠ .body ∧ ¬Special c ∧ ¬Accepted c
    · have hs := switchChar_halts hp hc.1 hc.2.1 hc.2.2
      simp [gdbPacketReadStreamLoop, gdbPacketReadChar, hs]
    · push Not at hc
      obtain ⟨q, hq, hfollows⟩ := switchChar_follows hp hc
      cases hnext : phase.next c with
      | none =>
        -- the digit that completes the packet is accepted, so none is left
        obtain ⟨d, hd, hda⟩ := hbad
        rcases mem_digits_cons.mp hd with ⟨hbody, hspecial, rfl⟩ | ⟨next, hn, -⟩
        · exact absurd (hc hbody hspecial) hda
        · simp [hnext] at hn
      | some next =>
        have hstate := hfollows.open_phase next hnext
        have hopen := state_ne_complete hstate
        have hrest : ∃ d ∈ digits next cs, ¬Accepted d := by
          obtain ⟨d, hd, hda⟩ := hbad
          rcases mem_digits_cons.mp hd with ⟨hbody, hspecial, rfl⟩ | ⟨next', hn, hd⟩
          · exact absurd (hc hbody hspecial) hda
          · obtain rfl : next = next' := by simpa [hnext] using hn
            exact ⟨d, hd, hda⟩
        simp [gdbPacketReadStreamLoop, readChar_open hq hopen,
          ih hstate .collecting (n + 1) hrest]

theorem Follows.length {p q : GdbPacket} {phase : Phase} {c : UInt8} (h : Follows p phase c q) :
    q.length = min gdbPacketMaxBufferLength (p.length + (kept [c]).length) := by
  simpa using congrArg List.length h.stored

theorem take_append_take (n : ℕ) (xs ys : List UInt8) :
    (xs.take n ++ ys).take n = (xs ++ ys).take n := by
  rw [List.take_append, List.take_append, List.take_take, Nat.min_self, List.length_take]
  by_cases h : n ≤ xs.length
  · simp [h]
  · rw [Nat.min_eq_right (by omega)]

theorem readStreamLoop_open {p : GdbPacket} {phase : Phase} (hp : p.state.phase = some phase)
    (r : GdbPacketResult) (n : ℕ) {cs : List UInt8} (hend : packetFramer.frameEnd phase cs = none)
    (hdigits : ∀ d ∈ digits phase cs, Accepted d) :
    ∃ q, gdbPacketReadStreamLoop p r n cs =
        .ok (if cs = [] then r else .collecting, q, n + cs.length) ∧ q.state ≠ .complete ∧
      q.stored = (p.stored ++ kept cs).take gdbPacketMaxBufferLength := by
  induction cs generalizing p phase r n with
  | nil =>
    have hall : (p.stored ++ kept []).take gdbPacketMaxBufferLength = p.stored := by
      rw [show kept [] = [] from rfl, List.append_nil, List.take_of_length_le]
      rw [p.length_stored]
      exact p.length_le
    exact ⟨p, rfl, state_ne_complete hp, hall.symm⟩
  | cons c cs ih =>
    obtain ⟨q, hq, hfollows⟩ := switchChar_follows hp fun hbody hspecial =>
      hdigits c (mem_digits_cons.mpr (Or.inl ⟨hbody, hspecial, rfl⟩))
    cases hnext : phase.next c with
    | none => simp [packetFramer.frameEnd_cons_none cs hnext] at hend
    | some next =>
      have hstate := hfollows.open_phase next hnext
      have hopen := state_ne_complete hstate
      rw [packetFramer.frameEnd_cons_some cs hnext] at hend
      obtain ⟨q', hq', hs', hstored⟩ := ih hstate .collecting (n + 1) (by simpa using hend)
        fun d hd => hdigits d (mem_digits_cons.mpr (Or.inr ⟨next, hnext, hd⟩))
      refine ⟨q', ?_, hs', ?_⟩
      · simp [gdbPacketReadStreamLoop, readChar_open hq hopen, hq', Nat.add_assoc, Nat.add_comm 1]
      · rw [hstored, hfollows.stored, take_append_take, List.append_assoc, ← kept_append]
        rfl

/-- A packet `q` completed from `p` by the bytes `cs` up to the end of the frame. -/
structure Completes (p : GdbPacket) (phase : Phase) (cs : List UInt8) (k : ℕ) (q : GdbPacket) :
    Prop where
  type : q.type = p.type
  state : q.state = .complete
  stored : q.stored = (p.stored ++ kept (cs.take k) ++ [0]).take gdbPacketMaxBufferLength
  reference : q.referenceChecksum = reference p.referenceChecksum phase cs
  checksum : p.length + (kept (cs.take k)).length ≤ gdbPacketMaxBufferLength →
    q.checksum = p.checksum + counted phase cs

namespace Follows

variable {p q : GdbPacket} {phase : Phase} {c : UInt8}

theorem counted_cons (h : Follows p phase c q)
    (hl : p.length + (kept [c]).length ≤ gdbPacketMaxBufferLength) {next : Phase}
    (hnext : phase.next c = some next) (cs : List UInt8) :
    p.checksum + counted phase (c :: cs) = q.checksum + counted next cs := by
  simp [counted, hnext, h.checksum hl, UInt8.add_assoc]

theorem completes (h : Follows p phase c q) (hnext : phase.next c = none) (cs : List UInt8) :
    Completes p phase (c :: cs) 1 (gdbPacketAddChar q 0 false).2 where
  type := by simp [h.type]
  state := by simp [h.complete hnext]
  stored := by
    rw [stored_addChar, h.stored, take_append_take]
    rfl
  reference := by
    rw [reference_cons_none _ hnext, ← h.reference]
    simp
  checksum hl := by
    have hl : p.length + (kept [c]).length ≤ gdbPacketMaxBufferLength := by simpa using hl
    simp [counted, hnext, h.checksum hl]

theorem completes_cons (h : Follows p phase c q) {next : Phase} (hnext : phase.next c = some next)
    {cs : List UInt8} {m : ℕ} {q' : GdbPacket} (hdone : Completes q next cs m q') :
    Completes p phase (c :: cs) (m + 1) q' := by
  have hlength := h.length
  have hkept : kept ((c :: cs).take (m + 1)) = kept [c] ++ kept (cs.take m) := by
    rw [List.take_succ_cons, ← kept_append]
    rfl
  refine ⟨hdone.type.trans h.type, hdone.state, ?_, ?_, fun hl => ?_⟩
  · rw [hdone.stored, h.stored, hkept, List.append_assoc, take_append_take]
    simp
  · rw [hdone.reference, reference_cons_some _ hnext, h.reference]
  · rw [hkept, List.length_append] at hl
    rw [hdone.checksum (by omega), h.counted_cons (by omega) hnext]

end Follows

theorem readStreamLoop_done {p : GdbPacket} {phase : Phase} (hp : p.state.phase = some phase)
    (r : GdbPacketResult) (n : ℕ) {cs : List UInt8} {k : ℕ}
    (hend : packetFramer.frameEnd phase cs = some k) (hdigits : ∀ d ∈ digits phase cs, Accepted d) :
    ∃ q, gdbPacketReadStreamLoop p r n cs =
        .ok (resultOf (p.length + (kept (cs.take k)).length)
          (reference p.referenceChecksum phase cs) (p.checksum + counted phase cs), q, n + k) ∧
      Completes p phase cs k q := by
  induction cs generalizing p phase r n k with
  | nil => simp at hend
  | cons c cs ih =>
    obtain ⟨q, hq, hfollows⟩ := switchChar_follows hp fun hbody hspecial =>
      hdigits c (mem_digits_cons.mpr (Or.inl ⟨hbody, hspecial, rfl⟩))
    have hlength := hfollows.length
    cases hnext : phase.next c with
    | none =>
      obtain rfl : 1 = k := by simpa [packetFramer.frameEnd_cons_none cs hnext] using hend
      have hdone := readChar_done hq (hfollows.complete hnext)
      have href : q.referenceChecksum = reference p.referenceChecksum phase (c :: cs) := by
        rw [reference_cons_none _ hnext, hfollows.reference]
      have hresult : resultOf q.length q.referenceChecksum q.checksum =
          resultOf (p.length + (kept ((c :: cs).take 1)).length)
            (reference p.referenceChecksum phase (c :: cs))
            (p.checksum + counted phase (c :: cs)) := by
        rw [href]
        refine resultOf_congr (show _ ↔ p.length + (kept [c]).length < _ by omega) fun hl => ?_
        simp [counted, hnext, hfollows.checksum (show p.length + (kept [c]).length ≤ _ from hl.le)]
      refine ⟨_, ?_, hfollows.completes hnext cs⟩
      simp only [gdbPacketReadStreamLoop, hdone, hresult, ok_bind]
      unfold resultOf
      split <;> simp
    | some next =>
      have hstate := hfollows.open_phase next hnext
      have hopen := state_ne_complete hstate
      rw [packetFramer.frameEnd_cons_some cs hnext] at hend
      obtain ⟨m, hm, rfl⟩ := Option.map_eq_some_iff.mp hend
      obtain ⟨q', hq', hdone⟩ := ih hstate .collecting (n + 1) hm
        fun d hd => hdigits d (mem_digits_cons.mpr (Or.inr ⟨next, hnext, hd⟩))
      have hkept : kept ((c :: cs).take (m + 1)) = kept [c] ++ kept (cs.take m) := by
        rw [List.take_succ_cons, ← kept_append]
        rfl
      have href : reference q.referenceChecksum next cs =
          reference p.referenceChecksum phase (c :: cs) := by
        rw [reference_cons_some _ hnext, hfollows.reference]
      have hresult : resultOf (q.length + (kept (cs.take m)).length)
          (reference q.referenceChecksum next cs) (q.checksum + counted next cs) =
          resultOf (p.length + (kept ((c :: cs).take (m + 1))).length)
            (reference p.referenceChecksum phase (c :: cs))
            (p.checksum + counted phase (c :: cs)) := by
        rw [href, hkept, List.length_append]
        exact resultOf_congr (by omega) fun hl => (hfollows.counted_cons (by omega) hnext cs).symm
      refine ⟨q', ?_, hfollows.completes_cons hnext hdone⟩
      rw [hresult] at hq'
      simp [gdbPacketReadStreamLoop, readChar_open hq hopen, hq', Nat.add_assoc, Nat.add_comm 1]

theorem counted_append {phase t : Phase} {xs : List UInt8} (ys : List UInt8)
    (h : packetFramer.after phase xs = some t) :
    counted phase (xs ++ ys) = counted phase xs + counted t ys := by
  induction xs generalizing phase with
  | nil =>
    obtain rfl : phase = t := by simpa using h
    simp [counted]
  | cons x xs ih =>
    obtain ⟨u, hu, hrest⟩ := Option.bind_eq_some_iff.mp h
    have hnext : phase.next x = some u := hu
    simp [counted, hnext, ih hrest, UInt8.add_assoc]

theorem digits_append {phase t : Phase} {xs : List UInt8} (ys : List UInt8)
    (h : packetFramer.after phase xs = some t) :
    digits phase (xs ++ ys) = digits phase xs ++ digits t ys := by
  induction xs generalizing phase with
  | nil =>
    obtain rfl : phase = t := by simpa using h
    simp [digits]
  | cons x xs ih =>
    obtain ⟨u, hu, hrest⟩ := Option.bind_eq_some_iff.mp h
    have hnext : phase.next x = some u := hu
    simp [digits, hnext, ih hrest]

theorem reference_append {phase t : Phase} {xs : List UInt8} (r : UInt8) (ys : List UInt8)
    (h : packetFramer.after phase xs = some t) :
    reference r phase (xs ++ ys) = reference (reference r phase xs) t ys := by
  induction xs generalizing phase r with
  | nil =>
    obtain rfl : phase = t := by simpa using h
    rfl
  | cons x xs ih =>
    obtain ⟨u, hu, hrest⟩ := Option.bind_eq_some_iff.mp h
    have hnext : phase.next x = some u := hu
    simp [reference, hnext, ih _ hrest]

/-- What is summed and decoded depends only on the bytes up to the end of the packet. -/
theorem scan_take {phase : Phase} {cs : List UInt8} {k : ℕ}
    (h : packetFramer.frameEnd phase cs = some k) :
    counted phase (cs.take k) = counted phase cs ∧ digits phase (cs.take k) = digits phase cs ∧
      ∀ r, reference r phase (cs.take k) = reference r phase cs := by
  induction cs generalizing phase k with
  | nil => simp at h
  | cons c cs ih =>
    cases hnext : phase.next c with
    | none =>
      obtain rfl : 1 = k := by simpa [packetFramer.frameEnd_cons_none cs hnext] using h
      simp [counted, digits, reference, hnext]
    | some next =>
      rw [packetFramer.frameEnd_cons_some cs hnext] at h
      obtain ⟨m, hm, rfl⟩ := Option.map_eq_some_iff.mp h
      obtain ⟨hc, hd, hr⟩ := ih hm
      simp [counted, digits, reference, hnext, hc, hd, hr]

theorem next_eq_lower_iff {phase : Phase} {c : UInt8} :
    phase.next c = some .lower ↔ phase = .upper ∧ ¬Special c := by
  by_cases hc : Special c
  · rcases hc with rfl | rfl | rfl <;> simp [Special]
  · cases phase <;> simp [next_of_not_special _ hc, hc]

theorem next_eq_none_iff {phase : Phase} {c : UInt8} :
    phase.next c = none ↔ phase = .lower ∧ ¬Special c := by
  by_cases hc : Special c
  · rcases hc with rfl | rfl | rfl <;> simp [Special]
  · cases phase <;> simp [next_of_not_special _ hc, hc]

theorem next_eq_upper_iff {phase : Phase} {c : UInt8} :
    phase.next c = some .upper ↔ c = GdbPacketChar.stop := by
  by_cases hc : Special c
  · rcases hc with rfl | rfl | rfl <;> simp <;> decide
  · have hne : c ≠ GdbPacketChar.stop := fun h => hc (Or.inr (Or.inl h))
    cases phase <;> simp [next_of_not_special _ hc, hne]

theorem after_snoc {xs : List UInt8} {t : Phase} (h : packetFramer.after .body xs = some t)
    (ht : t ≠ .body) :
    ∃ ys c u, xs = ys ++ [c] ∧ packetFramer.after .body ys = some u ∧ u.next c = some t := by
  rcases List.eq_nil_or_concat xs with rfl | ⟨ys, c, rfl⟩
  · exact absurd (by simpa using h.symm) ht
  · rw [List.concat_eq_append, packetFramer.after_append] at h
    obtain ⟨u, hu, hrest⟩ := Option.bind_eq_some_iff.mp h
    obtain ⟨v, hv, hlast⟩ := Option.bind_eq_some_iff.mp hrest
    obtain rfl : v = t := by simpa using hlast
    exact ⟨ys, c, u, by simp, hu, hv⟩

/-- A completed packet ends in the stop character and two digits that the reader does not
treat specially. -/
theorem packetEnd_split {bs : List UInt8} {k : ℕ} (h : packetEnd bs = some k) :
    ∃ pre h₁ h₂ t, bs.take k = pre ++ [GdbPacketChar.stop, h₁, h₂] ∧
      packetFramer.after .body pre = some t ∧ ¬Special h₁ ∧ ¬Special h₂ := by
  obtain ⟨xs, h₂, t₂, htake, hafter₂, hnext₂⟩ := packetFramer.frameEnd_split h
  obtain ⟨rfl, hs₂⟩ := next_eq_none_iff.mp hnext₂
  obtain ⟨ys, h₁, t₁, rfl, hafter₁, hnext₁⟩ := after_snoc hafter₂ (by simp)
  obtain ⟨rfl, hs₁⟩ := next_eq_lower_iff.mp hnext₁
  obtain ⟨pre, c, t, rfl, hafter, hnext⟩ := after_snoc hafter₁ (by simp)
  obtain rfl := next_eq_upper_iff.mp hnext
  exact ⟨pre, h₁, h₂, t, by simp [htake], hafter, hs₁, hs₂⟩

theorem scan_tail {h₁ h₂ : UInt8} (hs₁ : ¬Special h₁) (hs₂ : ¬Special h₂) (phase : Phase)
    (r : UInt8) (rest : List UInt8) :
    packetFramer.frameEnd phase (GdbPacketChar.stop :: h₁ :: h₂ :: rest) = some 3 ∧
      counted phase (GdbPacketChar.stop :: h₁ :: h₂ :: rest) = 0 ∧
      digits phase (GdbPacketChar.stop :: h₁ :: h₂ :: rest) = [h₁, h₂] ∧
      reference r phase (GdbPacketChar.stop :: h₁ :: h₂ :: rest) =
        (hexNibbleValue h₁ <<< 4 ||| hexNibbleValue h₂) := by
  have hstop : Special GdbPacketChar.stop := Or.inr (Or.inl rfl)
  have hupper : Phase.next .upper h₁ = some .lower := next_eq_lower_iff.mpr ⟨rfl, hs₁⟩
  have hlower : Phase.next .lower h₂ = none := next_eq_none_iff.mpr ⟨rfl, hs₂⟩
  refine ⟨?_, ?_, ?_, ?_⟩
  · rw [packetFramer.frameEnd_cons_some (s := phase) (t := .upper) _ rfl,
      packetFramer.frameEnd_cons_some (s := .upper) _ hupper,
      packetFramer.frameEnd_cons_none (s := .lower) _ hlower]
    rfl
  · simp [counted, hstop, hupper, hlower]
  · simp [digits, hstop, hupper, hlower, hs₁, hs₂]
  · simp [reference, referenceStep, hupper, hlower, hs₁, hs₂]

/-- The result for the bytes of a completed packet. -/
def verdict (raw : List UInt8) : GdbPacketResult :=
  if (kept raw).length < gdbPacketMaxBufferLength ∧
      reference 0 .body raw ≠ counted .body raw then .checksumError else .ok

/-- The bytes stored for a completed packet: with a NUL, as far as the buffer reaches. -/
def storedBytes (raw : List UInt8) : List UInt8 := (kept raw ++ [0]).take gdbPacketMaxBufferLength

theorem kept_eq_nil_iff {j : List UInt8} : kept j = [] ↔ ∀ c ∈ j, c = GdbPacketChar.ctrlC := by
  simp [kept, List.filter_eq_nil_iff]

theorem after_ctrlC {j : List UInt8} (h : ∀ c ∈ j, c = GdbPacketChar.ctrlC) :
    packetFramer.after .body j = some .body :=
  packetFramer.after_of_idle fun c hc => by rw [h c hc]; rfl

theorem counted_ctrlC_append {j : List UInt8} (h : ∀ c ∈ j, c = GdbPacketChar.ctrlC)
    (raw : List UInt8) : counted .body (j ++ raw) = counted .body raw := by
  have hj : counted .body j = 0 := by
    induction j with
    | nil => rfl
    | cons c cs ih =>
      obtain rfl := h c (by simp)
      simpa [counted, Special] using ih fun d hd => h d (by simp [hd])
  rw [counted_append raw (after_ctrlC h), hj, UInt8.zero_add]

theorem reference_ctrlC_append {j : List UInt8} (h : ∀ c ∈ j, c = GdbPacketChar.ctrlC)
    (r : UInt8) (raw : List UInt8) : reference r .body (j ++ raw) = reference r .body raw := by
  have hj : reference r .body j = r := by
    induction j with
    | nil => rfl
    | cons c cs ih =>
      obtain rfl := h c (by simp)
      simpa [reference, referenceStep, Special] using ih fun d hd => h d (by simp [hd])
  rw [reference_append r raw (after_ctrlC h), hj]

theorem verdict_ctrlC_append {j : List UInt8} (h : ∀ c ∈ j, c = GdbPacketChar.ctrlC)
    (raw : List UInt8) : verdict (j ++ raw) = verdict raw := by
  rw [verdict, verdict, kept_append, kept_eq_nil_iff.mpr h, counted_ctrlC_append h,
    reference_ctrlC_append h, List.nil_append]

theorem storedBytes_ctrlC_append {j : List UInt8} (h : ∀ c ∈ j, c = GdbPacketChar.ctrlC)
    (raw : List UInt8) : storedBytes (j ++ raw) = storedBytes raw := by
  rw [storedBytes, storedBytes, kept_append, kept_eq_nil_iff.mpr h, List.nil_append]

/-- The packet that the reader builds from the bytes `raw` of a completed packet. -/
structure BuiltFrom (raw : List UInt8) (q : GdbPacket) : Prop where
  type : q.type = .inbound
  state : q.state = .complete
  stored : q.stored = storedBytes raw
  reference : q.referenceChecksum = reference 0 .body raw
  checksum : (kept raw).length ≤ gdbPacketMaxBufferLength → q.checksum = counted .body raw

theorem BuiltFrom.length {raw : List UInt8} {q : GdbPacket} (h : BuiltFrom raw q) :
    q.length = min gdbPacketMaxBufferLength ((kept raw).length + 1) := by
  simpa [storedBytes] using congrArg List.length h.stored

theorem readStream_halts (p : GdbPacket) {bs : List UInt8}
    (hbad : ∃ d ∈ digits .body bs, ¬Accepted d) :
    gdbPacketReadStream p bs = .error "Invalid hex nibble." :=
  readStreamLoop_halts rfl .collecting 0 bs hbad

theorem readStream_open (p : GdbPacket) {bs : List UInt8} (hend : packetEnd bs = none)
    (hdigits : ∀ d ∈ digits .body bs, Accepted d) :
    ∃ q, gdbPacketReadStream p bs = .ok (.collecting, q, bs.length) ∧ q.state ≠ .complete ∧
      q.stored = (kept bs).take gdbPacketMaxBufferLength := by
  obtain ⟨q, hq, hs, hstored⟩ :=
    readStreamLoop_open (p := gdbPacketInit p .inbound) rfl .collecting 0 hend hdigits
  exact ⟨q, by simpa [gdbPacketReadStream] using hq, hs, by simpa using hstored⟩

theorem readStream_done (p : GdbPacket) {bs : List UInt8} {k : ℕ} (hend : packetEnd bs = some k)
    (hdigits : ∀ d ∈ digits .body bs, Accepted d) :
    ∃ q, gdbPacketReadStream p bs = .ok (verdict (bs.take k), q, k) ∧ BuiltFrom (bs.take k) q := by
  obtain ⟨hc, -, hr⟩ := scan_take hend
  obtain ⟨q, hq, hdone⟩ :=
    readStreamLoop_done (p := gdbPacketInit p .inbound) rfl .collecting 0 hend hdigits
  refine ⟨q, ?_, hdone.type, hdone.state, ?_, ?_, ?_⟩
  · simpa [gdbPacketReadStream, verdict, resultOf, hc, hr, gdbPacketInit] using hq
  · simpa [storedBytes] using hdone.stored
  · rw [hdone.reference, hr]
    rfl
  · intro hl
    rw [hdone.checksum (by simpa [gdbPacketInit] using hl), hc]
    simp [gdbPacketInit]

/-- The reader halts, stays open or completes a packet, and the three exclude each other. -/
theorem readStream_cases (p : GdbPacket) (bs : List UInt8) :
    ((∃ d ∈ digits .body bs, ¬Accepted d) ∧
        gdbPacketReadStream p bs = .error "Invalid hex nibble.") ∨
      ((∀ d ∈ digits .body bs, Accepted d) ∧ packetEnd bs = none ∧
        ∃ q, gdbPacketReadStream p bs = .ok (.collecting, q, bs.length) ∧ q.state ≠ .complete ∧
          q.stored = (kept bs).take gdbPacketMaxBufferLength) ∨
      ((∀ d ∈ digits .body bs, Accepted d) ∧ ∃ k, packetEnd bs = some k ∧
        ∃ q, gdbPacketReadStream p bs = .ok (verdict (bs.take k), q, k) ∧
          BuiltFrom (bs.take k) q) := by
  by_cases hbad : ∃ d ∈ digits .body bs, ¬Accepted d
  · exact Or.inl ⟨hbad, readStream_halts p hbad⟩
  · have hdigits : ∀ d ∈ digits .body bs, Accepted d := by
      push Not at hbad
      exact hbad
    cases hend : packetEnd bs with
    | none => exact Or.inr (Or.inl ⟨hdigits, rfl, readStream_open p hend hdigits⟩)
    | some k => exact Or.inr (Or.inr ⟨hdigits, k, rfl, readStream_done p hend hdigits⟩)

theorem readStream_accepted {p q : GdbPacket} {bs : List UInt8} {k : ℕ}
    (h : gdbPacketReadStream p bs = .ok (.ok, q, k)) :
    (∀ d ∈ digits .body bs, Accepted d) ∧ packetEnd bs = some k ∧ verdict (bs.take k) = .ok ∧
      BuiltFrom (bs.take k) q := by
  rcases readStream_cases p bs with ⟨-, hread⟩ | ⟨-, -, q', hread, -⟩ |
    ⟨hdigits, k', hend, q', hread, hbuilt⟩
  · rw [hread] at h
    cases h
  · rw [hread] at h
    cases h
  · rw [hread] at h
    obtain ⟨hok, hrest⟩ := Prod.mk.inj (Except.ok.inj h)
    obtain ⟨rfl, rfl⟩ := Prod.mk.inj hrest
    exact ⟨hdigits, hend, hok, hbuilt⟩

end NetBmp
