import NetBmp.Answers

/-!
# Malformed monitor commands

The operand of a monitor command is handed to `str_from_hex`, which has no error to return: an
odd digit is paired with the stop character behind it, and that and every other character which
does not pass for a digit trips an assertion, as does a text that does not fit. What is decoded
is answered like any other text, however many arguments it has.
-/

namespace NetBmp
namespace MonitorErrors

open Hex Halting Server SessionStream Answers

/-- A call that returns, with an acknowledgement and one reply written, which is not the reply
of a monitor subcommand. -/
def Rebuffed (build : Build) (w : World) (input : List UInt8) : Prop :=
  ∃ k w' events reply, (gdbSessionHandle build input).run w = .ok k w' ∧
    w'.trace = w.trace ++ events ∧ written events = [[GdbPacketChar.ack], reply] ∧
    reply.head? = some GdbPacketChar.start ∧
    ∀ text ∈ subcommandTexts build, reply ≠ wire (hexOf text) ++ [0]

/-- The arguments of a text, separated by spaces and tabs. -/
def arguments (text : List UInt8) : List (List UInt8) :=
  (text.splitOnP isDelimiter).filter (· ≠ [])

/-- An operand that encodes no text with at most 32 arguments in at most 255 bytes. -/
def Malformed (hs : List UInt8) : Prop :=
  ¬∃ text, Encodes hs text ∧ text.length ≤ 255 ∧ (arguments text).length ≤ gdbMaxArgCount

theorem encodes_decoded {hs : List UInt8} {n : ℕ} (hlen : hs.length = 2 * n)
    (hdigits : ∀ d ∈ hs, IsHexDigit d) : Encodes hs (decoded hs) := by
  induction n generalizing hs with
  | zero =>
    rw [List.length_eq_zero_iff.mp hlen]
    trivial
  | succ n ih =>
    match hs, hlen, hdigits with
    | h₁ :: h₂ :: hs, hlen, hdigits =>
      simp only [List.length_cons] at hlen
      have d₁ : IsHexDigit h₁ := hdigits h₁ (by simp)
      have d₂ : IsHexDigit h₂ := hdigits h₂ (by simp)
      refine ⟨d₁, d₂, (d₁.reference_eq_iff d₂ _).mp rfl, ?_⟩
      exact ih (by omega) fun d hd => hdigits d (by simp [hd])

theorem malformed_iff (hs : List UInt8) : Malformed hs ↔ hs.length % 2 = 1 ∨
    (∃ d ∈ hs, ¬IsHexDigit d) ∨ 510 < hs.length ∨
      gdbMaxArgCount < (arguments (decoded hs)).length := by
  constructor
  · intro h
    by_contra hwell
    push Not at hwell
    obtain ⟨hodd, hdigits, hlen, hargs⟩ := hwell
    have hhalf : hs.length = 2 * (hs.length / 2) := by omega
    refine h ⟨decoded hs, encodes_decoded hhalf hdigits, ?_, hargs⟩
    rw [length_decoded hhalf]
    omega
  · rintro h ⟨text, hencodes, hshort, hargs⟩
    obtain ⟨hlen, -, hdecoded⟩ := hencodes.decodes
    rw [hdecoded] at h
    rcases h with hodd | ⟨d, hd, hdigit⟩ | hlong | hmany
    · omega
    · exact hdigit (hencodes.digits d hd)
    · omega
    · exact absurd hargs (not_le.mpr hmany)

/-- The operands that are decoded: pairs of characters that pass for digits, and no more than
fit. -/
structure Decodable (hs : List UInt8) : Prop where
  even : hs.length % 2 = 0
  short : hs.length ≤ 510
  accepted : ∀ d ∈ hs, Accepted d

/-- A first argument without a meaning, which does no harm either. -/
def UnknownSubcommand (text : List UInt8) : Prop :=
  ∃ token, firstToken text = some token ∧ token.headD 0 ≠ GdbPacketChar.start ∧
    ¬bytes "help" <+: token ∧ ¬bytes "version" <+: token

theorem decodable_of_respond {build : Build} {target : Option ℕ} {f : Frame} {hs : List UInt8}
    {replies : List (List UInt8)} (hpayload : f.payload = bytes "qRcmd," ++ hs)
    (h : respond build target (f.bytes ++ [0]) = .ok replies) : Decodable hs := by
  rw [respond_remote_frame build target f hpayload] at h
  obtain ⟨message, hdecode, -⟩ := bind_eq_ok h
  obtain ⟨hroom, haccepted⟩ := accepted_of_strFromHex hdecode
  rw [List.length_replicate, gdbQueryMessageMaxLength] at hroom
  -- an odd digit would be read together with the stop character
  have heven : hs.length % 2 = 0 := by
    by_contra hodd
    have hstop := haccepted hs.length (by omega)
    rw [List.getD_append_right _ _ _ _ le_rfl, Nat.sub_self] at hstop
    exact absurd hstop (by decide : ¬Accepted GdbPacketChar.stop)
  refine ⟨heven, by omega, fun d hd => ?_⟩
  obtain ⟨i, hi, rfl⟩ := List.getElem_of_mem hd
  have hdigit := haccepted i (by omega)
  rwa [List.getD_append _ _ _ _ hi, List.getD_eq_getElem _ _ hi] at hdigit

theorem subcommandTexts_ne_nil {build : Build} {text : List UInt8}
    (h : text ∈ subcommandTexts build) : text ≠ [] := by
  rcases List.mem_pair.mp h with rfl | rfl
  · decide
  · exact List.ne_nil_of_length_pos (by rw [length_versionText]; omega)

theorem monitor_empty_iff (build : Build) (args : List (List UInt8)) :
    monitor build args = .ok [[]] ↔ ∃ token, args.head? = some token ∧
      token.headD 0 ≠ GdbPacketChar.start ∧ ¬bytes "help" <+: token ∧
        ¬bytes "version" <+: token := by
  have hhex : ∀ text ∈ subcommandTexts build, hexReply text ≠ .ok [[]] := by
    intro text htext hreply
    unfold hexReply at hreply
    split_ifs at hreply
    have hlength := congrArg List.length (List.singleton_inj.mp (Except.ok.inj hreply))
    rw [length_hexOf, List.length_nil] at hlength
    have hpos := List.length_pos_of_ne_nil (subcommandTexts_ne_nil htext)
    omega
  cases args with
  | nil => simp [monitor]
  | cons command args =>
    simp only [List.head?_cons, Option.some.injEq, exists_eq_left']
    rw [monitor]
    split_ifs with hstart hhelp hversion
    · exact iff_of_false (fun h => (by cases h)) fun h => h.1 hstart
    · exact iff_of_false (hhex _ (by simp [subcommandTexts])) fun h => h.2.1 hhelp
    · exact iff_of_false (hhex _ (by simp [subcommandTexts])) fun h => h.2.2 hversion
    · exact iff_of_true rfl ⟨hstart, hhelp, hversion⟩

theorem rebuffed_iff_respond {target : Option ℕ} {writeCb : GdbWriteCb} {w : World}
    (h : Continues target writeCb w) (build : Build) (f : Frame) {hs : List UInt8}
    (hpayload : f.payload = bytes "qRcmd," ++ hs) (hc : f.Correct)
    (hlen : f.payload.length ≤ 2043) (rest : List UInt8) :
    Rebuffed build w (f.bytes ++ rest) ↔ respond build target (f.bytes ++ [0]) = .ok [[]] := by
  constructor
  · rintro ⟨k, w', events, reply, hrun, htrace, hwritten, -, hother⟩
    obtain ⟨payloads, hpayloads, hreplies⟩ :=
      (writes_iff_respond h build f hc hlen rest [reply]).mp ⟨k, w', events, hrun, htrace, hwritten⟩
    obtain ⟨payload, rfl, hreply⟩ := List.map_eq_singleton_iff.mp hreplies.symm
    have hmonitor := hpayloads
    rw [respond_remote_frame build target f hpayload] at hmonitor
    obtain ⟨message, -, hmonitor⟩ := bind_eq_ok hmonitor
    rcases (monitor_ok_cases hmonitor).resolve_left (List.cons_ne_nil _ _) with h | ⟨text, htext, h⟩
    · rw [h] at hpayloads
      exact hpayloads
    · rw [List.singleton_inj.mp h] at hreply
      exact absurd hreply.symm (hother text htext)
  · intro hempty
    obtain ⟨k, w', events, hrun, htrace, hwritten⟩ :=
      (writes_iff_respond h build f hc hlen rest [wire [] ++ [0]]).mpr ⟨[[]], hempty, rfl⟩
    refine ⟨k, w', events, _, hrun, htrace, hwritten, rfl, fun text htext heq => ?_⟩
    have hlength := congrArg List.length heq
    simp only [List.length_append, length_wire, length_hexOf, List.length_nil] at hlength
    have hpos := List.length_pos_of_ne_nil (subcommandTexts_ne_nil htext)
    omega

/-- A monitor command is answered without a subcommand exactly when its operand is decoded to
a text with a first argument that does no harm. This covers every malformed operand. -/
theorem rebuffed_iff (build : Build) {w : World} (hr : Reachable build w)
    (hactive : w.gdbSession.state = .active) (hreliable : w.Reliable) (f : Frame)
    (hc : f.Correct) (hlen : f.payload.length ≤ 2043) {hs : List UInt8}
    (hpayload : f.payload = bytes "qRcmd," ++ hs) (rest : List UInt8) :
    Rebuffed build w (f.bytes ++ rest) ↔
      Decodable hs ∧ UnknownSubcommand (cString (decoded hs)) := by
  obtain ⟨writeCb, h⟩ := continues_of_reachable hr hactive hreliable
  rw [rebuffed_iff_respond h build f hpayload hc hlen rest]
  have hrespond : Decodable hs → (respond build w.gdbSession.pTarget (f.bytes ++ [0]) = .ok [[]] ↔
      UnknownSubcommand (cString (decoded hs))) := by
    intro hd
    have hhalf : hs.length = 2 * (hs.length / 2) := by have heven := hd.even; omega
    obtain ⟨args, hargs, hhead⟩ := respond_remote_decoded build w.gdbSession.pTarget f hpayload
      hhalf hd.accepted (by have hshort := hd.short; omega)
    rw [hargs, monitor_empty_iff, hhead, UnknownSubcommand]
  constructor
  · intro hempty
    have hd := decodable_of_respond hpayload hempty
    exact ⟨hd, (hrespond hd).mp hempty⟩
  · rintro ⟨hd, hunknown⟩
    exact (hrespond hd).mpr hunknown

theorem excess_arguments_rebuffed :
    Malformed (hexOf (List.replicate 33 (bytes "x ")).flatten) ∧
      Rebuffed .release (.locked fun _ => .ok) (Frame.carrying
        (bytes "qRcmd," ++ hexOf (List.replicate 33 (bytes "x ")).flatten)).bytes := by
  let hs := hexOf (List.replicate 33 (bytes "x ")).flatten
  have hdecoded : decoded hs = (List.replicate 33 (bytes "x ")).flatten := by decide +kernel
  refine ⟨(malformed_iff hs).mpr (Or.inr (Or.inr (Or.inr ?_))), ?_⟩
  · rw [hdecoded]
    decide +kernel
  · have hrebuffed := rebuffed_iff .release (reachable_locked .release _) rfl (fun _ => rfl)
      (.carrying (bytes "qRcmd," ++ hs)) (Frame.carrying_correct ..) (by decide +kernel)
      (show _ = bytes "qRcmd," ++ hs from rfl) []
    rw [List.append_nil] at hrebuffed
    refine hrebuffed.mpr ⟨⟨by decide +kernel, by decide +kernel, by decide +kernel⟩, ?_⟩
    exact ⟨bytes "x", by decide +kernel, by decide, by decide, by decide⟩

/-- A digit without its partner halts the system. -/
theorem odd_digit_halts : Malformed (bytes "6") ∧ (Frame.carrying (bytes "qRcmd,6")).Correct ∧
    (∃ w, (gdbSessionHandle .release (Frame.carrying (bytes "qRcmd,6")).bytes).run
      (.locked fun _ => .ok) = .error "Invalid hex nibble." w) ∧
    ¬Rebuffed .release (.locked fun _ => .ok) (Frame.carrying (bytes "qRcmd,6")).bytes := by
  have hrespond : respond .release none ((Frame.carrying (bytes "qRcmd,6")).bytes ++ [0]) =
      .error "Invalid hex nibble." := by decide +kernel
  obtain ⟨w, hrun⟩ := continues_locked.halts .release _ (by decide) (Frame.carrying_correct ..)
    hrespond []
  rw [List.append_nil] at hrun
  refine ⟨(malformed_iff _).mpr (Or.inl (by decide)), Frame.carrying_correct .., ⟨w, hrun⟩, ?_⟩
  rintro ⟨k, w', events, reply, hok, -⟩
  rw [hrun] at hok
  cases hok

end MonitorErrors
end NetBmp
