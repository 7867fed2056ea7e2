import NetBmp.Conformance
import NetBmp.HexRoundTrip
import NetBmp.ReceiveLoop

/-!
# Damaged frames

A frame with the right digits in which one byte is replaced. The sum finds out most of what may
happen to it, but not a byte that counts for as much, not a digit that reads the same, and not a `#`
that cuts the frame where the digits happen to be right.
-/

namespace NetBmp
namespace Damage

open Hex Halting Framing Server SessionStream Serve Effects Conformance

/-- What a byte of the body counts for. -/
def weight (c : UInt8) : UInt8 := if Special c then 0 else c

theorem counted_of_no_stop {xs : List UInt8} (h : GdbPacketChar.stop ∉ xs) :
    counted .body xs = (xs.map weight).sum := by
  induction xs with
  | nil => rfl
  | cons c cs ih =>
    have hc : c ≠ GdbPacketChar.stop := fun he => h (by simp [he])
    have hnext : Phase.next .body c = some .body := by
      simp only [Phase.next, hc, if_false]
      split_ifs <;> rfl
    rw [List.map_cons, List.sum_cons, ← ih fun hcs => h (List.mem_cons_of_mem _ hcs)]
    by_cases hs : Special c
    · simp [counted, hnext, weight, hs]
    · simp [counted, hnext, weight, hs]

theorem sum_weight {xs : List UInt8} (h : ∀ c ∈ xs, ¬Special c) : (xs.map weight).sum = xs.sum := by
  have hsame : xs.map weight = xs.map id := List.map_congr_left fun c hc => if_neg (h c hc)
  rw [hsame, List.map_id]

theorem verdict_short {raw : List UInt8} (h : raw.length < gdbPacketMaxBufferLength) :
    verdict raw = .ok ↔ reference 0 .body raw = counted .body raw := by
  have hkept : (kept raw).length < gdbPacketMaxBufferLength :=
    Nat.lt_of_le_of_lt (List.length_filter_le _ _) h
  rw [verdict]
  by_cases hsame : reference 0 .body raw = counted .body raw
  · simp [hsame]
  · simp [hsame, hkept]

theorem accepted_ne_nil_iff {bs : List UInt8} (h : bs.length < gdbPacketMaxBufferLength) :
    accepted bs ≠ [] ↔ (∀ d ∈ digits .body bs, Accepted d) ∧ (∃ k, packetEnd bs = some k) ∧
      reference 0 .body bs = counted .body bs := by
  rcases readStream_cases .zero bs with
    ⟨⟨d, hd, hbad⟩, hread⟩ | ⟨-, hend, q, hread, -⟩ | ⟨hdigits, k, hend, q, hread, -⟩
  · rw [accepted, hread]
    exact iff_of_false (fun hn => hn rfl) fun hh => hbad (hh.1 d hd)
  · rw [accepted, hread, hend]
    exact iff_of_false (fun hn => hn rfl) fun hh => by simpa using hh.2.1
  · have hshort : (bs.take k).length < gdbPacketMaxBufferLength :=
      Nat.lt_of_le_of_lt (List.take_sublist k bs).length_le h
    obtain ⟨hcounted, -, hreference⟩ := scan_take hend
    have hverdict := verdict_short hshort
    rw [hcounted, hreference] at hverdict
    rw [accepted, hread, ← hverdict]
    rcases verdict_cases (bs.take k) with hok | hrefused
    · simp only [hok, and_true]
      exact iff_of_true (List.cons_ne_nil _ _) ⟨hdigits, k, hend⟩
    · simp [hrefused]

theorem accepted_of_after {bs : List UInt8} {t : Phase}
    (h : packetFramer.after .body bs = some t) : accepted bs = [] := by
  have hend : packetEnd bs = none := by
    have hall := packetFramer.frameEnd_append_of_after [] h
    rw [List.append_nil] at hall
    exact hall
  rcases readStream_cases .zero bs with
    ⟨-, hread⟩ | ⟨-, -, q, hread, -⟩ | ⟨-, k, hend', -⟩
  · rw [accepted, hread]
  · rw [accepted, hread]
  · rw [hend] at hend'
    cases hend'

/-- Bytes up to a `#`, whatever phase it is read in, and two bytes behind it. -/
theorem accepted_split_iff (pre : List UInt8) {t : Phase} {h₁ h₂ : UInt8} (rest : List UInt8)
    (hlen : (pre ++ GdbPacketChar.stop :: h₁ :: h₂ :: rest).length < gdbPacketMaxBufferLength)
    (ht : packetFramer.after .body pre = some t) (hs₁ : ¬Special h₁) (hs₂ : ¬Special h₂) :
    accepted (pre ++ GdbPacketChar.stop :: h₁ :: h₂ :: rest) ≠ [] ↔
      (∀ d ∈ digits .body pre, Accepted d) ∧ Accepted h₁ ∧ Accepted h₂ ∧
        (hexNibbleValue h₁ <<< 4 ||| hexNibbleValue h₂) = counted .body pre := by
  obtain ⟨hend, hcounted, hdigits, hreference⟩ := scan_tail hs₁ hs₂ t (reference 0 .body pre) rest
  have hwhole : ∃ k, packetEnd (pre ++ GdbPacketChar.stop :: h₁ :: h₂ :: rest) = some k := by
    rw [packetEnd, packetFramer.frameEnd_append_of_after _ ht, hend]
    exact ⟨_, rfl⟩
  rw [accepted_ne_nil_iff hlen, digits_append _ ht, hdigits, reference_append _ _ ht, hreference,
    counted_append _ ht, hcounted, UInt8.add_zero]
  simp only [hwhole, true_and, List.forall_mem_append, List.forall_mem_cons, List.not_mem_nil,
    IsEmpty.forall_iff, implies_true, and_true, and_assoc]

theorem not_special_of_accepted {c : UInt8} (h : Accepted c) : ¬Special c :=
  forall_uint8 (P := fun c => Accepted c → ¬Special c) (by decide +kernel) c h

theorem reference_inj {a₁ a₂ b₁ b₂ : UInt8} (ha₁ : Accepted a₁) (ha₂ : Accepted a₂)
    (hb₁ : Accepted b₁) (hb₂ : Accepted b₂) :
    (hexNibbleValue a₁ <<< 4 ||| hexNibbleValue a₂) =
        (hexNibbleValue b₁ <<< 4 ||| hexNibbleValue b₂) ↔
      hexNibbleValue a₁ = hexNibbleValue b₁ ∧ hexNibbleValue a₂ = hexNibbleValue b₂ := by
  constructor
  · intro h
    obtain ⟨hu, hl⟩ := HexRoundTrip.nibbles_reference ha₁ ha₂
    obtain ⟨hu', hl'⟩ := HexRoundTrip.nibbles_reference hb₁ hb₂
    rw [h] at hu hl
    exact ⟨hu.symm.trans hu', hl.symm.trans hl'⟩
  · rintro ⟨h₁, h₂⟩
    rw [h₁, h₂]

theorem sum_set_iff {xs : List UInt8} {i : ℕ} (hi : i < xs.length) (c : UInt8) :
    ((xs.set i c).map weight).sum = (xs.map weight).sum ↔ weight c = weight xs[i] := by
  have hsplit : ∀ a x b, ((a ++ c :: b).map weight).sum = ((a ++ x :: b).map weight).sum ↔
      weight c = weight x := by simp
  have hold : xs.take i ++ xs[i] :: xs.drop (i + 1) = xs := by
    rw [List.getElem_cons_drop, List.take_append_drop]
  have hsum := hsplit (xs.take i) xs[i] (xs.drop (i + 1))
  rwa [hold, ← (List.set_eq_take_append_cons_drop.trans (if_pos hi))] at hsum

def front (f : Frame) : List UInt8 := GdbPacketChar.start :: f.payload

theorem bytes_eq (f : Frame) : f.bytes = front f ++ [GdbPacketChar.stop, f.h₁, f.h₂] := rfl

theorem length_front (f : Frame) : (front f).length = f.payload.length + 1 := rfl

theorem stop_notMem_front (f : Frame) : GdbPacketChar.stop ∉ front f := by
  have hstart : GdbPacketChar.stop ≠ GdbPacketChar.start := by decide
  simp [front, f.no_stop, hstart]

theorem payload_not_special (f : Frame) : ∀ c ∈ f.payload, ¬Special c := by
  rintro c hc (rfl | rfl | rfl)
  · exact f.no_start hc
  · exact f.no_stop hc
  · exact f.no_ctrlC hc

theorem sum_front (f : Frame) : ((front f).map weight).sum = f.payload.sum := by
  have hstart : weight GdbPacketChar.start = 0 := rfl
  rw [front, List.map_cons, List.sum_cons, hstart, UInt8.zero_add,
    sum_weight (payload_not_special f)]

theorem sum_take_front (f : Frame) (i : ℕ) :
    (((front f).take i).map weight).sum = (f.payload.take (i - 1)).sum := by
  have hstart : weight GdbPacketChar.start = 0 := rfl
  cases i with
  | zero => rfl
  | succ i =>
    rw [front, List.take_succ_cons, List.map_cons, List.sum_cons, hstart, UInt8.zero_add,
      sum_weight fun c hc => payload_not_special f c (List.mem_of_mem_take hc), Nat.add_sub_cancel]

theorem reference_correct {f : Frame} (h : f.Correct) :
    (hexNibbleValue f.h₁ <<< 4 ||| hexNibbleValue f.h₂) = f.payload.sum := by
  rw [f.correct_iff, f.reference_bytes, f.counted_bytes] at h
  exact h

/-- The damage that the sum does not find out: a NUL or a `$` for one that counts as nothing
either, a digit for one that reads the same, or a `#` for a byte in front of two bytes that read as the
sum up to there, or so near to the end that the digits of the frame are read instead. -/
inductive Unnoticed (f : Frame) (c : UInt8) : ℕ → Prop
  | weightless {i : ℕ} (hi : i ≤ f.payload.length)
    (hold : f.bytes.getD i 0 ∈ [0, GdbPacketChar.start])
    (hnew : c ∈ [0, GdbPacketChar.start, GdbPacketChar.ctrlC]) : Unnoticed f c i
  | upper {i : ℕ} (hi : i = f.payload.length + 2)
    (hsame : hexNibbleValue c = hexNibbleValue f.h₁) : Unnoticed f c i
  | lower {i : ℕ} (hi : i = f.payload.length + 3)
    (hsame : hexNibbleValue c = hexNibbleValue f.h₂) : Unnoticed f c i
  | cut {i : ℕ} {d₁ d₂ : UInt8} {rest : List UInt8} (hi : i ≤ f.payload.length)
    (hstop : c = GdbPacketChar.stop) (hnext : f.payload.drop i = d₁ :: d₂ :: rest)
    (h₁ : Accepted d₁) (h₂ : Accepted d₂)
    (hsum : (hexNibbleValue d₁ <<< 4 ||| hexNibbleValue d₂) = (f.payload.take (i - 1)).sum) :
    Unnoticed f c i
  | doubled {i : ℕ} (hi : i ≤ f.payload.length) (hstop : c = GdbPacketChar.stop)
    (hnext : (f.payload.drop i).length ≤ 1) (hdigits : ∀ d ∈ f.payload.drop i, Accepted d)
    (hsum : f.payload.sum = (f.payload.take (i - 1)).sum) : Unnoticed f c i

variable {f : Frame} {i : ℕ} {c : UInt8}

theorem lt_front (hi : i ≤ f.payload.length) : i < (front f).length := Nat.lt_succ_of_le hi

theorem set_front (hi : i ≤ f.payload.length) (c : UInt8) :
    f.bytes.set i c = (front f).set i c ++ [GdbPacketChar.stop, f.h₁, f.h₂] := by
  rw [bytes_eq, List.set_append_left _ _ (lt_front hi)]

theorem getD_front (hi : i ≤ f.payload.length) :
    f.bytes.getD i 0 = (front f).get ⟨i, lt_front hi⟩ := by
  rw [bytes_eq, List.getD_append _ _ _ _ (lt_front hi), List.getD_eq_getElem _ _ (lt_front hi)]
  rfl

theorem accepted_front_iff (hc : f.Correct) (hlen : f.payload.length ≤ 2043)
    (hi : i ≤ f.payload.length) (hstop : c ≠ GdbPacketChar.stop) :
    accepted (f.bytes.set i c) ≠ [] ↔ weight c = weight (f.bytes.getD i 0) := by
  have hno : GdbPacketChar.stop ∉ (front f).set i c := fun hmem =>
    (List.mem_or_eq_of_mem_set hmem).elim (stop_notMem_front f) (Ne.symm hstop)
  obtain ⟨hafter, hdigits⟩ := scan_of_no_stop hno
  have hshort : ((front f).set i c ++ GdbPacketChar.stop :: f.h₁ :: f.h₂ :: []).length <
      gdbPacketMaxBufferLength := by
    have hmax : gdbPacketMaxBufferLength = 2048 := rfl
    simp only [List.length_append, List.length_set, length_front, List.length_cons,
      List.length_nil]
    omega
  have hsplit := accepted_split_iff _ [] hshort hafter (not_special_of_isHexDigit f.digit₁)
    (not_special_of_isHexDigit f.digit₂)
  rw [set_front hi, hsplit, hdigits, reference_correct hc, counted_of_no_stop hno, ← sum_front f,
    getD_front hi, eq_comm, sum_set_iff (lt_front hi)]
  simp [f.digit₁.accepted, f.digit₂.accepted]

theorem weight_eq_zero_iff (hc : c ≠ GdbPacketChar.stop) :
    weight c = 0 ↔ c ∈ [0, GdbPacketChar.start, GdbPacketChar.ctrlC] :=
  forall_uint8 (P := fun c => c ≠ GdbPacketChar.stop →
    (weight c = 0 ↔ c ∈ [0, GdbPacketChar.start, GdbPacketChar.ctrlC])) (by decide +kernel) c hc

theorem weight_eq_iff {x : UInt8} (hx : x ≠ GdbPacketChar.stop) (hx' : x ≠ GdbPacketChar.ctrlC)
    (hc : c ≠ GdbPacketChar.stop) (hne : c ≠ x) : weight c = weight x ↔
      x ∈ [0, GdbPacketChar.start] ∧ c ∈ [0, GdbPacketChar.start, GdbPacketChar.ctrlC] := by
  have hlight := weight_eq_zero_iff hx
  by_cases hzero : weight x = 0
  · have hmem : x ∈ [0, GdbPacketChar.start] := by simpa [hx'] using hlight.mp hzero
    rw [hzero, weight_eq_zero_iff hc, and_iff_right hmem]
  · refine iff_of_false (fun hsame => ?_) fun h => hzero (hlight.mpr ?_)
    · -- both count for themselves
      have hs : ¬Special c := fun hs => hzero (hsame.symm.trans (if_pos hs))
      have hsx : ¬Special x := fun hs => hzero (if_pos hs)
      rw [weight, weight, if_neg hs, if_neg hsx] at hsame
      exact hne hsame
    · rcases List.mem_pair.mp h.1 with rfl | rfl <;> simp

theorem set_stop (hi : i ≤ f.payload.length) : f.bytes.set i GdbPacketChar.stop =
    (front f).take i ++ GdbPacketChar.stop ::
      (f.payload.drop i ++ [GdbPacketChar.stop, f.h₁, f.h₂]) := by
  have hlt : i < f.bytes.length := by
    rw [f.length_bytes]
    omega
  have hdrop : f.bytes.drop (i + 1) = f.payload.drop i ++ [GdbPacketChar.stop, f.h₁, f.h₂] :=
    List.drop_append_of_le_length hi
  have htake : f.bytes.take i = (front f).take i :=
    List.take_append_of_le_length (lt_front hi).le
  rw [List.set_eq_take_append_cons_drop, if_pos hlt, htake, hdrop]

theorem scan_stop {xs : List UInt8} (h : GdbPacketChar.stop ∉ xs) :
    packetFramer.after .body (xs ++ [GdbPacketChar.stop]) = some .upper ∧
      digits .body (xs ++ [GdbPacketChar.stop]) = [] ∧
      counted .body (xs ++ [GdbPacketChar.stop]) = (xs.map weight).sum := by
  obtain ⟨hafter, hdigits⟩ := scan_of_no_stop h
  refine ⟨?_, ?_, ?_⟩
  · rw [packetFramer.after_append, hafter]
    rfl
  · rw [digits_append _ hafter, hdigits]
    rfl
  · rw [counted_append _ hafter, counted_of_no_stop h]
    exact UInt8.add_zero _

theorem scan_stop_digit {xs : List UInt8} (h : GdbPacketChar.stop ∉ xs) {d : UInt8}
    (hd : ¬Special d) :
    packetFramer.after .body (xs ++ [GdbPacketChar.stop, d]) = some .lower ∧
      digits .body (xs ++ [GdbPacketChar.stop, d]) = [d] ∧
      counted .body (xs ++ [GdbPacketChar.stop, d]) = (xs.map weight).sum := by
  obtain ⟨hafter, hdigits, hcounted⟩ := scan_stop h
  have hnext : Phase.next .upper d = some .lower := next_eq_lower_iff.mpr ⟨rfl, hd⟩
  have hsplit : xs ++ [GdbPacketChar.stop, d] = (xs ++ [GdbPacketChar.stop]) ++ [d] := by simp
  rw [hsplit]
  refine ⟨?_, ?_, ?_⟩
  · rw [packetFramer.after_append, hafter]
    exact congrArg (Option.bind · _) hnext
  · rw [digits_append _ hafter, hdigits]
    simp [digits, hd, hnext]
  · rw [counted_append _ hafter, hcounted]
    simp [counted, hnext]

theorem short_of_length (hlen : f.payload.length ≤ 2043) {bs : List UInt8}
    (h : bs.length = f.bytes.length) : bs.length < gdbPacketMaxBufferLength := by
  have hmax : gdbPacketMaxBufferLength = 2048 := rfl
  rw [h, f.length_bytes]
  omega

/-- A byte in front of the `#` that becomes another `#`: the two bytes behind it are read as digits,
or those of the frame are if there are none. -/
theorem accepted_stop_iff (hc : f.Correct) (hlen : f.payload.length ≤ 2043)
    (hi : i ≤ f.payload.length) : accepted (f.bytes.set i GdbPacketChar.stop) ≠ [] ↔
      (∃ d₁ d₂ rest, f.payload.drop i = d₁ :: d₂ :: rest ∧ Accepted d₁ ∧ Accepted d₂ ∧
        (hexNibbleValue d₁ <<< 4 ||| hexNibbleValue d₂) = (f.payload.take (i - 1)).sum) ∨
      ((f.payload.drop i).length ≤ 1 ∧ (∀ d ∈ f.payload.drop i, Accepted d) ∧
        f.payload.sum = (f.payload.take (i - 1)).sum) := by
  have hlength : (f.bytes.set i GdbPacketChar.stop).length = f.bytes.length := List.length_set
  have hshort := short_of_length hlen hlength
  have hno : GdbPacketChar.stop ∉ (front f).take i := fun hmem =>
    stop_notMem_front f (List.mem_of_mem_take hmem)
  have hspecial : ∀ d ∈ f.payload.drop i, ¬Special d := fun d hd =>
    payload_not_special f d (List.mem_of_mem_drop hd)
  have hs₁ := not_special_of_isHexDigit f.digit₁
  have hs₂ := not_special_of_isHexDigit f.digit₂
  rw [set_stop hi] at hshort ⊢
  rcases hdrop : f.payload.drop i with _ | ⟨d₁, _ | ⟨d₂, rest⟩⟩
  · obtain ⟨hafter, hdigits, hcounted⟩ := scan_stop hno
    have hsplit := accepted_split_iff ((front f).take i ++ [GdbPacketChar.stop]) []
      (by simpa [hdrop] using hshort) hafter hs₁ hs₂
    rw [hdigits, hcounted, reference_correct hc, sum_take_front] at hsplit
    simpa [f.digit₁.accepted, f.digit₂.accepted] using hsplit
  · obtain ⟨hafter, hdigits, hcounted⟩ := scan_stop_digit hno (hspecial d₁ (by simp [hdrop]))
    have hsplit := accepted_split_iff ((front f).take i ++ [GdbPacketChar.stop, d₁]) []
      (by simpa [hdrop] using hshort) hafter hs₁ hs₂
    rw [hdigits, hcounted, reference_correct hc, sum_take_front] at hsplit
    simpa [f.digit₁.accepted, f.digit₂.accepted] using hsplit
  · obtain ⟨hafter, hdigits⟩ := scan_of_no_stop hno
    have hsplit := accepted_split_iff _ (rest ++ [GdbPacketChar.stop, f.h₁, f.h₂])
      (by simpa [hdrop] using hshort) hafter (hspecial d₁ (by simp [hdrop]))
      (hspecial d₂ (by simp [hdrop]))
    rw [hdigits, counted_of_no_stop hno, sum_take_front] at hsplit
    simpa using hsplit

theorem set_back (f : Frame) (k : ℕ) (c : UInt8) :
    f.bytes.set (f.payload.length + 1 + k) c =
      front f ++ [GdbPacketChar.stop, f.h₁, f.h₂].set k c := by
  have hle : (front f).length ≤ f.payload.length + 1 + k := Nat.le_add_right _ k
  have hindex : f.payload.length + 1 + k - (front f).length = k := by
    rw [length_front]
    omega
  rw [bytes_eq, List.set_append_right _ _ hle, hindex]

theorem accepted_no_stop (hc : c ≠ GdbPacketChar.stop) :
    accepted (front f ++ [c, f.h₁, f.h₂]) = [] := by
  have hstop : ∀ {d}, IsHexDigit d → GdbPacketChar.stop ≠ d := fun hd he =>
    not_special_of_isHexDigit hd (he ▸ Or.inr (Or.inl rfl))
  have hno : GdbPacketChar.stop ∉ front f ++ [c, f.h₁, f.h₂] := by
    simp [stop_notMem_front f, hc.symm, hstop f.digit₁, hstop f.digit₂]
  exact accepted_of_after (scan_of_no_stop hno).1

theorem after_special {d₁ d₂ : UInt8} (h : Special d₁ ∨ Special d₂) :
    ∃ t, packetFramer.after .upper [d₁, d₂] = some t := by
  cases ht : Phase.next .upper d₁ with
  | none => exact absurd (next_eq_none_iff.mp ht).1 Phase.noConfusion
  | some t =>
    cases hu : t.next d₂ with
    | none =>
      obtain ⟨rfl, hs₂⟩ := next_eq_none_iff.mp hu
      exact absurd h (not_or.mpr ⟨(next_eq_lower_iff.mp ht).2, hs₂⟩)
    | some u =>
      have ht' : packetFramer.next .upper d₁ = some t := ht
      have hu' : packetFramer.next t d₂ = some u := hu
      exact ⟨u, by simp [ht', hu']⟩

theorem accepted_of_same {d h : UInt8} (hd : IsHexDigit h)
    (hsame : hexNibbleValue d = hexNibbleValue h) : Accepted d := by
  rw [Accepted, hsame]
  exact hd.accepted

theorem accepted_digits_iff (hc : f.Correct) (hlen : f.payload.length ≤ 2043) (d₁ d₂ : UInt8) :
    accepted (front f ++ [GdbPacketChar.stop, d₁, d₂]) ≠ [] ↔
      hexNibbleValue d₁ = hexNibbleValue f.h₁ ∧ hexNibbleValue d₂ = hexNibbleValue f.h₂ := by
  have hlength : (front f ++ [GdbPacketChar.stop, d₁, d₂]).length = f.bytes.length := by
    simp [bytes_eq]
  have hshort := short_of_length hlen hlength
  have hno := stop_notMem_front f
  obtain ⟨hafter, hdigits⟩ := scan_of_no_stop hno
  by_cases hspecial : Special d₁ ∨ Special d₂
  · obtain ⟨t, ht⟩ := after_special hspecial
    have hopen : packetFramer.after .body (front f ++ [GdbPacketChar.stop, d₁, d₂]) = some t := by
      rw [packetFramer.after_append, hafter]
      exact ht
    refine iff_of_false (fun hn => hn (accepted_of_after hopen)) ?_
    rintro ⟨h₁, h₂⟩
    exact hspecial.elim (not_special_of_accepted (accepted_of_same f.digit₁ h₁))
      (not_special_of_accepted (accepted_of_same f.digit₂ h₂))
  · push Not at hspecial
    have hsplit := accepted_split_iff _ [] hshort hafter hspecial.1 hspecial.2
    rw [hdigits, counted_of_no_stop hno, sum_front, ← reference_correct hc] at hsplit
    rw [hsplit]
    constructor
    · rintro ⟨-, ha₁, ha₂, hsum⟩
      exact (reference_inj ha₁ ha₂ f.digit₁.accepted f.digit₂.accepted).mp hsum
    · rintro ⟨h₁, h₂⟩
      exact ⟨List.forall_mem_nil _, accepted_of_same f.digit₁ h₁, accepted_of_same f.digit₂ h₂,
        by rw [h₁, h₂]⟩

theorem accepted_back_iff (hc : f.Correct) (hlen : f.payload.length ≤ 2043) {k : ℕ} (hk : k < 3)
    (hne : c ≠ [GdbPacketChar.stop, f.h₁, f.h₂].getD k 0) :
    accepted (f.bytes.set (f.payload.length + 1 + k) c) ≠ [] ↔
      (k = 1 ∧ hexNibbleValue c = hexNibbleValue f.h₁) ∨
        (k = 2 ∧ hexNibbleValue c = hexNibbleValue f.h₂) := by
  rw [set_back]
  interval_cases k
  · exact iff_of_false (fun hn => hn (accepted_no_stop hne)) (by simp)
  · simpa using accepted_digits_iff hc hlen c f.h₂
  · simpa using accepted_digits_iff hc hlen f.h₁ c

/-- A frame with one damaged byte is accepted exactly when the damage goes unnoticed. -/
theorem accepted_set_iff (hc : f.Correct) (hlen : f.payload.length ≤ 2043)
    (hi : i < f.bytes.length) (hne : c ≠ f.bytes.getD i 0) :
    accepted (f.bytes.set i c) ≠ [] ↔ Unnoticed f c i := by
  rw [f.length_bytes] at hi
  rcases Nat.lt_or_ge f.payload.length i with hback | hfront
  · obtain ⟨k, rfl⟩ := Nat.exists_eq_add_of_le hback
    have hold : f.bytes.getD (f.payload.length + 1 + k) 0 =
        [GdbPacketChar.stop, f.h₁, f.h₂].getD k 0 := by
      have hle : (front f).length ≤ f.payload.length + 1 + k := Nat.le_add_right _ k
      rw [bytes_eq, List.getD_append_right _ _ _ _ hle, length_front, Nat.add_sub_cancel_left]
    rw [hold] at hne
    rw [Nat.succ_eq_add_one, accepted_back_iff hc hlen (by omega) hne]
    constructor
    · rintro (⟨rfl, hsame⟩ | ⟨rfl, hsame⟩)
      · exact .upper rfl hsame
      · exact .lower rfl hsame
    · rintro (⟨hi', -⟩ | ⟨hi', hsame⟩ | ⟨hi', hsame⟩ | ⟨hi', -⟩ | ⟨hi', -⟩)
      · omega
      · exact Or.inl ⟨by omega, hsame⟩
      · exact Or.inr ⟨by omega, hsame⟩
      · omega
      · omega
  by_cases hstop : c = GdbPacketChar.stop
  · subst hstop
    rw [accepted_stop_iff hc hlen hfront]
    constructor
    · rintro (⟨d₁, d₂, rest, hnext, h₁, h₂, hsum⟩ | ⟨hnext, hdigits, hsum⟩)
      · exact .cut hfront rfl hnext h₁ h₂ hsum
      · exact .doubled hfront rfl hnext hdigits hsum
    · rintro (⟨-, -, hnew⟩ | ⟨hi', -⟩ | ⟨hi', -⟩ | ⟨-, -, hnext, h₁, h₂, hsum⟩ |
        ⟨-, -, hnext, hdigits, hsum⟩)
      · exact absurd hnew (by decide)
      · omega
      · omega
      · exact Or.inl ⟨_, _, _, hnext, h₁, h₂, hsum⟩
      · exact Or.inr ⟨hnext, hdigits, hsum⟩
  · have hmem : f.bytes.getD i 0 ∈ front f := by
      rw [getD_front hfront]
      exact List.get_mem _ _
    have hold : f.bytes.getD i 0 ≠ GdbPacketChar.stop := fun he => stop_notMem_front f (he ▸ hmem)
    have hold' : f.bytes.getD i 0 ≠ GdbPacketChar.ctrlC := fun he => by
      rw [he] at hmem
      exact (List.mem_cons.mp hmem).elim (by decide) f.no_ctrlC
    rw [accepted_front_iff hc hlen hfront hstop, weight_eq_iff hold hold' hstop hne]
    constructor
    · exact fun h => .weightless hfront h.1 h.2
    · rintro (⟨-, hx, hnew⟩ | ⟨hi', -⟩ | ⟨hi', -⟩ | ⟨-, he, -⟩ | ⟨-, he, -⟩)
      · exact ⟨hx, hnew⟩
      · omega
      · omega
      · exact absurd he hstop
      · exact absurd he hstop

theorem executed_answer (build : Build) (target : Option ℕ) (input : List UInt8)
    (writeCb : GdbWriteCb) (results : ℕ → ErrT) :
    executed (eventsOf writeCb results (answer build target input).1) = accepted input := by
  have hexecuted : ∀ actions, executed (eventsOf writeCb results actions) =
      actions.filterMap fun action => storedOf (action.event writeCb) :=
    ReceiveLoop.filterMap_eventsOf (fun _ _ _ => rfl) writeCb results
  rw [hexecuted]
  generalize answer build target input = answer, answered build target input = h
  cases h with
  | halted hread e =>
    obtain ⟨e, hread⟩ := hread
    rw [accepted, hread]
    rfl
  | unfinished hread =>
    obtain ⟨q, k, hread⟩ := hread
    rw [accepted, hread]
    rfl
  | refused hread k =>
    obtain ⟨q, k', hread⟩ := hread
    rw [accepted, hread]
    rfl
  | replied hread hrespond =>
    rw [accepted_of_read hread]
    simp [List.filterMap_append, Action.event, storedOf]
  | tripped hread hrespond =>
    rw [accepted_of_read hread]
    rfl

theorem executed_handle {w : World} (h : Serving w) (build : Build) (input : List UInt8) :
    executed (endOf ((gdbSessionHandle build input).run w)).trace =
      executed w.trace ++ accepted input := by
  obtain ⟨writeCb, hcb⟩ := Option.ne_none_iff_exists'.mp h.callback
  rw [handle_trace h hcb, executed, List.filterMap_append]
  exact congrArg (_ ++ ·) (executed_answer build _ input writeCb w.writeResults)

/-- An active session that is handed a right frame with one damaged byte executes nothing, whatever
the byte has become, except for exactly the damage that goes unnoticed. -/
theorem executed_damaged_iff (build : Build) {w : World} (hr : Reachable build w)
    (hactive : w.gdbSession.state = .active) (f : Frame) (hc : f.Correct)
    (hlen : f.payload.length ≤ 2043) {i : ℕ} (hi : i < f.bytes.length) {c : UInt8}
    (hne : c ≠ f.bytes.getD i 0) :
    executed (endOf ((gdbSessionHandle build (f.bytes.set i c)).run w)).trace =
      executed w.trace ↔ ¬Unnoticed f c i := by
  rw [executed_handle (hr.serving hactive), List.append_right_eq_self,
    ← accepted_set_iff hc hlen hi hne, not_not]

theorem executed_damaged_iff_nul :
    (Frame.carrying (bytes "?")).bytes.set 0 0 = 0 :: bytes "?#3F" ∧
      executed (endOf ((gdbSessionHandle .release
        ((Frame.carrying (bytes "?")).bytes.set 0 0)).run (.locked fun _ => .ok))).trace ≠
      executed (World.locked fun _ => .ok).trace := by
  refine ⟨by decide, fun hsame => ?_⟩
  have hunnoticed := (executed_damaged_iff .release (reachable_locked .release _) rfl
    (.carrying (bytes "?")) (Frame.carrying_correct ..) (by decide) (i := 0) (by decide)
    (c := 0) (by decide)).mp hsame
  exact hunnoticed (.weightless (by decide) (by decide) (by decide))

end Damage
end NetBmp
