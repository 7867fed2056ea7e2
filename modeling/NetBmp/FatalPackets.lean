import NetBmp.Answers

/-!
# Fatal packets

Which input halts the firmware, and with which assertion. Besides digits that are none, only
monitor commands do: those whose operand does not fit or is not made of digits, those whose first
argument starts with `$`, and the one for the version if the version is too long.
-/

namespace NetBmp
namespace FatalPackets

open Hex Halting Server SessionStream Answers

/-- The characters of a stored monitor command that are decoded. The last of an odd number of
characters is left out. -/
def operand (stored : List UInt8) : List UInt8 :=
  (stored.drop 7).take (2 * ((stored.length - 10) / 2))

/-- The first argument of a stored monitor command. -/
def argument (stored : List UInt8) : Option (List UInt8) :=
  firstToken (cString (decoded (operand stored)))

/-- The assertion that a monitor command trips. -/
inductive Trips (build : Build) (stored : List UInt8) : String → Prop
  | overlong (hlong : 510 < (operand stored).length) :
    Trips build stored "Target buffer length exceeded."
  | digit (hshort : (operand stored).length ≤ 510) (hdigit : ∃ d ∈ operand stored, ¬Accepted d) :
    Trips build stored "Invalid hex nibble."
  | start (hshort : (operand stored).length ≤ 510) (hdigits : ∀ d ∈ operand stored, Accepted d)
      {token : List UInt8} (htoken : argument stored = some token)
      (hstart : token.headD 0 = GdbPacketChar.start) :
    Trips build stored "GDB packet start delimiter is invalid in commands names."
  | version (hshort : (operand stored).length ≤ 510) (hdigits : ∀ d ∈ operand stored, Accepted d)
      {token : List UInt8} (htoken : argument stored = some token)
      (hversion : bytes "version" <+: token)
      (hlong : 1010 < build.version.chars.length + build.commitHash.chars.length) :
    Trips build stored "Packet not complete."

theorem strFromHex_cases {hex : List UInt8} {n : ℕ} (hpos : 0 < n) (hle : n ≤ hex.length) :
    (510 < (hex.take (2 * (n / 2))).length ∧
      strFromHex hex n (List.replicate gdbQueryMessageMaxLength 0) =
        .error "Target buffer length exceeded.") ∨
    ((hex.take (2 * (n / 2))).length ≤ 510 ∧ (∃ d ∈ hex.take (2 * (n / 2)), ¬Accepted d) ∧
      strFromHex hex n (List.replicate gdbQueryMessageMaxLength 0) =
        .error "Invalid hex nibble.") ∨
    ((hex.take (2 * (n / 2))).length ≤ 510 ∧ (∀ d ∈ hex.take (2 * (n / 2)), Accepted d) ∧
      ∃ message, strFromHex hex n (List.replicate gdbQueryMessageMaxLength 0) = .ok message ∧
        cString message = cString (decoded (hex.take (2 * (n / 2))))) := by
  let message : List UInt8 := List.replicate gdbQueryMessageMaxLength 0
  have hmessage : message.length = 256 := List.length_replicate
  have hlength : (hex.take (2 * (n / 2))).length = 2 * (n / 2) := by
    rw [List.length_take]
    omega
  by_cases hfits : n / 2 ≤ 255
  · have hroom : n / 2 + 1 ≤ message.length := by omega
    by_cases hdigits : ∀ d ∈ hex.take (2 * (n / 2)), Accepted d
    · have hdecode := strFromHex_decodes (hex.drop (2 * (n / 2))) message hlength rfl hpos hdigits
        hroom
      rw [List.take_append_drop] at hdecode
      exact Or.inr (Or.inr ⟨by omega, hdigits, _, hdecode, cString_append_zero _ _⟩)
    · push Not at hdigits
      refine Or.inr (Or.inl ⟨by omega, hdigits, ?_⟩)
      cases hdecode : strFromHex hex n message with
      | ok out =>
        obtain ⟨d, hd, hbad⟩ := hdigits
        obtain ⟨i, hi, rfl⟩ := List.getElem_of_mem hd
        have hi' : i < 2 * (n / 2) := hlength ▸ hi
        have haccepted := (accepted_of_strFromHex hdecode).2 i hi'
        rw [List.getD_eq_getElem _ _ (by omega)] at haccepted
        rw [List.getElem_take] at hbad
        exact absurd haccepted hbad
      | error e =>
        rw [strFromHex, assertVerbose_true _ hroom, ok_bind, assertVerbose_true _ hpos,
          ok_bind] at hdecode
        rcases bind_eq_error hdecode with hloop | ⟨_, _, hrest⟩
        · exact congrArg Except.error (strFromHexLoop_eq_error hloop)
        · cases hrest
  · refine Or.inl ⟨by omega, ?_⟩
    have hroom : ¬n / 2 + 1 ≤ message.length := by omega
    rw [strFromHex, assertVerbose_false _ hroom]
    rfl

theorem monitor_error_iff (build : Build) (args : List (List UInt8)) (e : String) :
    monitor build args = .error e ↔ ∃ token, args.head? = some token ∧
      ((token.headD 0 = GdbPacketChar.start ∧
          e = "GDB packet start delimiter is invalid in commands names.") ∨
        (bytes "version" <+: token ∧
          1010 < build.version.chars.length + build.commitHash.chars.length ∧
          e = "Packet not complete.")) := by
  cases args with
  | nil => simp [monitor]
  | cons command args =>
    simp only [List.head?_cons, Option.some.injEq, exists_eq_left']
    rw [monitor]
    split_ifs with hstart hhelp hversion
    · have hversion : ¬bytes "version" <+: command := by
        rintro ⟨rest, rfl⟩
        exact absurd hstart (show 'v'.toUInt8 ≠ GdbPacketChar.start by decide)
      simp only [hstart, hversion, true_and, false_and, or_false, Except.error.injEq, eq_comm]
    · have hversion : ¬bytes "version" <+: command :=
        not_prefix_of_other hhelp (by decide) (by decide)
      have hfits : 2 * helpText.length ≤ 2043 := by decide +kernel
      simp only [hexReply, hfits, hstart, hversion, ↓reduceIte, reduceCtorEq, false_and, or_false]
    · rw [hexReply, length_versionText]
      split_ifs with hfits
      · have hshort : ¬1010 < build.version.chars.length + build.commitHash.chars.length := by omega
        simp only [hstart, hshort, false_and, and_false, or_false]
      · have hlong : 1010 < build.version.chars.length + build.commitHash.chars.length := by omega
        simp only [hstart, hversion, hlong, true_and, false_and, false_or, Except.error.injEq,
          eq_comm]
    · simp only [hstart, hversion, false_and, or_false]

theorem respond_error_iff (build : Build) (target : Option ℕ) {stored : List UInt8}
    (hlen : bytes "qRcmd," <+: stored.drop 1 → 11 ≤ stored.length) (e : String) :
    respond build target stored = .error e ↔
      bytes "qRcmd," <+: stored.drop 1 ∧ Trips build stored e := by
  by_cases hremote : bytes "qRcmd," <+: stored.drop 1
  swap
  · obtain ⟨replies, hreplies⟩ := respond_ok build target hremote
    exact iff_of_false (by simp [hreplies]) fun h => hremote h.1
  have hstored := hlen hremote
  have hoperand : stored.length - 10 ≤ (stored.drop 7).length := by
    rw [List.length_drop]
    omega
  rw [respond_remote_eq build target hremote, and_iff_right hremote]
  rcases strFromHex_cases (by omega) hoperand with
    ⟨hlong, hdecode⟩ | ⟨hshort, hdigit, hdecode⟩ | ⟨hshort, hdigits, message, hdecode, htext⟩
  · rw [hdecode, error_bind]
    constructor
    · rintro ⟨⟩
      exact .overlong hlong
    · rintro (_ | ⟨hshort, -⟩ | ⟨hshort, -⟩ | ⟨hshort, -⟩)
      · rfl
      all_goals exact absurd hlong (not_lt.mpr hshort)
  · rw [hdecode, error_bind]
    obtain ⟨d, hd, hbad⟩ := hdigit
    constructor
    · rintro ⟨⟩
      exact .digit hshort ⟨d, hd, hbad⟩
    · rintro (hlong | - | ⟨-, hdigits, -⟩ | ⟨-, hdigits, -⟩)
      · exact absurd hlong (not_lt.mpr hshort)
      · rfl
      all_goals exact absurd (hdigits d hd) hbad
  · have hhead : (gdbGetArgs message).2.head? = argument stored := by
      rw [gdbGetArgs_head?, htext]
      rfl
    rw [hdecode, ok_bind, monitor_error_iff, hhead]
    constructor
    · rintro ⟨token, htoken, ⟨hstart, rfl⟩ | ⟨hversion, hlong, rfl⟩⟩
      · exact .start hshort hdigits htoken hstart
      · exact .version hshort hdigits htoken hversion hlong
    · rintro (hlong | ⟨-, d, hd, hbad⟩ | ⟨-, -, htoken, hstart⟩ | ⟨-, -, htoken, hversion, hlong⟩)
      · exact absurd hlong (not_lt.mpr hshort)
      · exact absurd (hdigits d hd) hbad
      · exact ⟨_, htoken, Or.inl ⟨hstart, rfl⟩⟩
      · exact ⟨_, htoken, Or.inr ⟨hversion, hlong, rfl⟩⟩

/-- The input trips an assertion, when it is read or when its packet is executed. -/
inductive Fatal (build : Build) (input : List UInt8) : String → Prop
  | nibble (hdigit : ∃ d ∈ digits .body input, ¬Accepted d) :
    Fatal build input "Invalid hex nibble."
  | command {q : GdbPacket} {k : ℕ} {e : String}
      (hread : gdbPacketReadStream .zero input = .ok (.ok, q, k))
      (hremote : bytes "qRcmd," <+: q.stored.drop 1) (htrips : Trips build q.stored e) :
    Fatal build input e

theorem respond_received_iff (build : Build) (target : Option ℕ) {q : GdbPacket} (h : Received q)
    (e : String) : respond build target q.stored = .error e ↔
      bytes "qRcmd," <+: q.stored.drop 1 ∧ Trips build q.stored e := by
  refine respond_error_iff build target (fun hremote => ?_) e
  rw [q.length_stored]
  exact h.length_of_prefix (by decide) (by decide) (by decide) hremote

theorem answer_error_iff (build : Build) (target : Option ℕ) (input : List UInt8) (e : String) :
    (∃ actions, answer build target input = (actions, .error e)) ↔ Fatal build input e := by
  rcases readStream_cases .zero input with
    ⟨hbad, hread⟩ | ⟨hdigits, hend, q, hread, -⟩ | ⟨hdigits, k, hend, q, hread, hbuilt⟩
  · rw [answer, if_pos hbad]
    constructor
    · rintro ⟨actions, ⟨⟩⟩
      exact .nibble hbad
    · rintro (- | ⟨hread', -, -⟩)
      · exact ⟨_, rfl⟩
      · rw [hread] at hread'
        cases hread'
  · rw [answer, if_neg (by push Not; exact hdigits), hend]
    refine iff_of_false (by rintro ⟨_, ⟨⟩⟩) ?_
    rintro (⟨d, hd, hbad⟩ | ⟨hread', -, -⟩)
    · exact hbad (hdigits d hd)
    · rw [hread] at hread'
      cases hread'
  rw [answer, if_neg (by push Not; exact hdigits), hend]
  rcases verdict_cases (input.take k) with hok | hrefused
  · have hrespond := respond_received_iff build target (hbuilt.received hend) e
    rw [hok] at hread
    simp only [hok, ↓reduceIte, ← hbuilt.stored]
    constructor
    · rintro ⟨actions, ha⟩
      cases hr : respond build target q.stored with
      | ok replies =>
        rw [hr] at ha
        cases ha
      | error e' =>
        rw [hr] at ha
        cases ha
        obtain ⟨hremote, htrips⟩ := hrespond.mp hr
        exact .command hread hremote htrips
    · rintro (⟨d, hd, hbad⟩ | ⟨hread', hremote, htrips⟩)
      · exact absurd (hdigits d hd) hbad
      · rw [hread] at hread'
        cases hread'
        rw [hrespond.mpr ⟨hremote, htrips⟩]
        exact ⟨_, rfl⟩
  · simp only [hrefused, reduceCtorEq, ↓reduceIte]
    refine iff_of_false (by rintro ⟨_, ⟨⟩⟩) ?_
    rintro (⟨d, hd, hbad⟩ | ⟨hread', -, -⟩)
    · exact hbad (hdigits d hd)
    · rw [hread, hrefused] at hread'
      cases hread'

/-- An active session halts on exactly the fatal inputs, with the assertion that is named. -/
theorem halts_iff_fatal {build : Build} {w : World} (hr : Reachable build w)
    (hactive : w.gdbSession.state = .active) (input : List UInt8) (e : String) :
    (∃ w', (gdbSessionHandle build input).run w = .error e w') ↔ Fatal build input e := by
  have hserving := hr.serving hactive
  rw [← answer_error_iff build w.gdbSession.pTarget]
  constructor
  · rintro ⟨w', hrun⟩
    exact hserving.of_handle_error hrun
  · rintro ⟨actions, ha⟩
    obtain ⟨w', hrun, -⟩ := hserving.handle_error ha
    exact ⟨w', hrun⟩

theorem halts_iff_fatal_start : ∃ w',
    (gdbSessionHandle .release (Frame.carrying (bytes "qRcmd,24")).bytes).run
      (.locked fun _ => .ok) =
        .error "GDB packet start delimiter is invalid in commands names." w' := by
  let f : Frame := .carrying (bytes "qRcmd,24")
  obtain ⟨q, hread, hbuilt⟩ :=
    Frame.readStream_alone .zero (f := f) (Frame.carrying_correct ..) (by decide)
  have hstored : q.stored = f.bytes ++ [0] := by
    rw [hbuilt.stored, f.storedBytes_bytes (by decide)]
  have hargument : argument (f.bytes ++ [0]) = some [GdbPacketChar.start] := by
    decide +kernel
  refine (halts_iff_fatal (reachable_locked .release _) rfl f.bytes _).mpr (.command hread ?_ ?_)
  · rw [hstored]
    decide
  · rw [hstored]
    exact .start (by decide +kernel) (by decide +kernel) hargument rfl

end FatalPackets
end NetBmp
