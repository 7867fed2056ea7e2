import NetBmp.SessionStream

/-!
# How often a packet is answered

Every command but `z` and `Z` is answered once, except for monitor commands: a text without
arguments gets no reply, a first argument that starts with `$` trips an assertion, and so does
`version` if the strings of the build do not fit into a packet.
-/

namespace NetBmp
namespace Answers

open Hex Halting Server SessionStream

/-- A call that returns, with an acknowledgement and one reply written. -/
def AnsweredOnce (build : Build) (w : World) (input : List UInt8) : Prop :=
  ∃ k w' events reply, (gdbSessionHandle build input).run w = .ok k w' ∧
    w'.trace = w.trace ++ events ∧ written events = [[GdbPacketChar.ack], reply] ∧
    reply.head? = some GdbPacketChar.start

/-- `hs` is the hex encoding of `text`, with digits of either case. -/
def Encodes : List UInt8 → List UInt8 → Prop
  | h₁ :: h₂ :: hs, c :: cs => IsHexDigit h₁ ∧ IsHexDigit h₂ ∧
      16 * hexDigitValue h₁ + hexDigitValue h₂ = c.toNat ∧ Encodes hs cs
  | [], [] => True
  | _, _ => False

theorem Encodes.digits {hs text : List UInt8} (h : Encodes hs text) : ∀ d ∈ hs, IsHexDigit d := by
  induction text generalizing hs with
  | nil =>
    rcases hs with _ | ⟨h₁, _ | ⟨h₂, hs⟩⟩
    · exact fun d hd => (by cases hd)
    · exact h.elim
    · exact h.elim
  | cons c cs ih =>
    rcases hs with _ | ⟨h₁, _ | ⟨h₂, hs⟩⟩
    · exact h.elim
    · exact h.elim
    · obtain ⟨d₁, d₂, -, hrest⟩ := h
      simpa [d₁, d₂] using ih hrest

theorem Encodes.decodes {hs text : List UInt8} (h : Encodes hs text) :
    hs.length = 2 * text.length ∧ (∀ d ∈ hs, Accepted d) ∧ decoded hs = text := by
  induction text generalizing hs with
  | nil =>
    rcases hs with _ | ⟨h₁, _ | ⟨h₂, hs⟩⟩
    · simp [decoded]
    · exact h.elim
    · exact h.elim
  | cons c cs ih =>
    rcases hs with _ | ⟨h₁, _ | ⟨h₂, hs⟩⟩
    · exact h.elim
    · exact h.elim
    · obtain ⟨d₁, d₂, hvalue, hrest⟩ := h
      obtain ⟨hlen, haccepted, hdecoded⟩ := ih hrest
      refine ⟨by simp [hlen]; omega, ?_, ?_⟩
      · simpa [d₁.accepted, d₂.accepted] using haccepted
      · rw [decoded, hdecoded, (d₁.reference_eq_iff d₂ c).mpr hvalue]

/-- A monitor command that has an answer: its text has a first argument that does not start
with `$`, and the strings of the build fit if it asks for the version. -/
def Answerable (build : Build) (text : List UInt8) : Prop :=
  ∃ token, firstToken text = some token ∧ token.headD 0 ≠ GdbPacketChar.start ∧
    (bytes "version" <+: token →
      build.version.chars.length + build.commitHash.chars.length ≤ 1010)

theorem length_versionText (build : Build) : (versionText build).length =
    build.version.chars.length + build.commitHash.chars.length + 11 := by
  have h₁ : (bytes "Version: ").length = 9 := by decide
  have h₂ : (bytes "-").length = 1 := by decide
  have h₃ : (bytes "\n").length = 1 := by decide
  simp only [versionText, List.length_append, h₁, h₂, h₃]
  omega

def subcommandTexts (build : Build) : List (List UInt8) := [helpText, versionText build]

theorem monitor_ok_cases {build : Build} {args : List (List UInt8)} {replies : List (List UInt8)}
    (h : monitor build args = .ok replies) :
    replies = [] ∨ replies = [[]] ∨ ∃ text ∈ subcommandTexts build, replies = [hexOf text] := by
  have hhex : ∀ text, hexReply text = .ok replies → replies = [hexOf text] := by
    intro text htext
    unfold hexReply at htext
    split_ifs at htext
    exact (Except.ok.inj htext).symm
  cases args with
  | nil => exact Or.inl (Except.ok.inj h).symm
  | cons command args =>
    right
    rw [monitor] at h
    split_ifs at h
    · exact Or.inr ⟨_, by simp [subcommandTexts], hhex _ h⟩
    · exact Or.inr ⟨_, by simp [subcommandTexts], hhex _ h⟩
    · exact Or.inl (Except.ok.inj h).symm

theorem monitor_single_iff (build : Build) (args : List (List UInt8)) :
    (∃ reply, monitor build args = .ok [reply]) ↔
      ∃ token, args.head? = some token ∧ token.headD 0 ≠ GdbPacketChar.start ∧
        (bytes "version" <+: token →
          build.version.chars.length + build.commitHash.chars.length ≤ 1010) := by
  cases args with
  | nil => simp [monitor]
  | cons command args =>
    simp only [List.head?_cons, Option.some.injEq, exists_eq_left']
    rw [monitor]
    split_ifs with hstart hhelp hversion
    · refine iff_of_false ?_ fun h => h.1 hstart
      rintro ⟨_, hr⟩
      cases hr
    · have hversion : ¬bytes "version" <+: command :=
        not_prefix_of_other hhelp (by decide) (by decide)
      have hfits : 2 * helpText.length ≤ 2043 := by decide +kernel
      exact iff_of_true ⟨_, if_pos hfits⟩ ⟨hstart, fun hv => absurd hv hversion⟩
    · rw [hexReply, length_versionText]
      split_ifs with hfits
      · exact iff_of_true ⟨_, rfl⟩ ⟨hstart, fun _ => by omega⟩
      · refine iff_of_false ?_ fun h => absurd (h.2 hversion) (by omega)
        rintro ⟨_, hr⟩
        cases hr
    · exact iff_of_true ⟨_, rfl⟩ ⟨hstart, fun hv => absurd hv hversion⟩

theorem respond_single (build : Build) (target : Option ℕ) {stored : List UInt8}
    (hremote : ¬bytes "qRcmd," <+: stored.drop 1) (hcommand : command stored ∉ bytes "zZ") :
    ∃ reply, respond build target stored = .ok [reply] := by
  simp only [respond, query, if_neg hremote, if_neg hcommand]
  split_ifs
  all_goals exact ⟨_, rfl⟩

theorem respond_remote_eq (build : Build) (target : Option ℕ) {stored : List UInt8}
    (h : bytes "qRcmd," <+: stored.drop 1) : respond build target stored = (do
      let message ← strFromHex (stored.drop 7) (stored.length - 10)
        (List.replicate gdbQueryMessageMaxLength 0)
      monitor build (gdbGetArgs message).2) := by
  have hcommand : command stored = 'q'.toUInt8 := by
    obtain ⟨rest, hrest⟩ := h
    rw [command, ← hrest]
    rfl
  rw [respond, hcommand, if_neg (by decide), if_neg (by decide), if_neg (by decide), if_pos rfl,
    query, if_pos h]

/-- Where the operand of a stored monitor command stands. -/
theorem stored_remote {stored hs rest : List UInt8}
    (h : stored = GdbPacketChar.start :: (bytes "qRcmd," ++ hs ++ rest)) :
    bytes "qRcmd," <+: stored.drop 1 ∧ stored.drop 7 = hs ++ rest ∧
      stored.length = hs.length + rest.length + 7 := by
  have hname : (bytes "qRcmd,").length = 6 := by decide
  rw [h, List.append_assoc]
  refine ⟨List.prefix_append .., rfl, ?_⟩
  rw [List.length_cons, List.length_append, List.length_append, hname]
  omega

/-- One character behind the operand is counted with it. -/
theorem respond_remote_frame (build : Build) (target : Option ℕ) (f : Frame) {hs : List UInt8}
    (hpayload : f.payload = bytes "qRcmd," ++ hs) : respond build target (f.bytes ++ [0]) = (do
      let message ← strFromHex (hs ++ GdbPacketChar.stop :: [f.h₁, f.h₂, 0]) (hs.length + 1)
        (List.replicate gdbQueryMessageMaxLength 0)
      monitor build (gdbGetArgs message).2) := by
  have hstored : f.bytes ++ [0] = GdbPacketChar.start ::
      (bytes "qRcmd," ++ hs ++ [GdbPacketChar.stop, f.h₁, f.h₂, 0]) := by
    simp [Frame.bytes, hpayload]
  obtain ⟨htext, hdrop, hlength⟩ := stored_remote hstored
  have hcount : (f.bytes ++ [0]).length - 10 = hs.length + 1 := by
    rw [hlength]
    rfl
  rw [respond_remote_eq build target htext, hdrop, hcount]

theorem respond_remote_decoded (build : Build) (target : Option ℕ) (f : Frame) {hs : List UInt8}
    {n : ℕ} (hpayload : f.payload = bytes "qRcmd," ++ hs) (hdigits : hs.length = 2 * n)
    (haccepted : ∀ d ∈ hs, Accepted d) (hn : n ≤ 255) :
    ∃ args, respond build target (f.bytes ++ [0]) = monitor build args ∧
      args.head? = firstToken (cString (decoded hs)) := by
  let message := List.replicate gdbQueryMessageMaxLength (0 : UInt8)
  have hmessage : n + 1 ≤ message.length := by
    rw [List.length_replicate]
    exact Nat.succ_le_succ hn
  have hdecode := strFromHex_decodes (GdbPacketChar.stop :: [f.h₁, f.h₂, 0]) message hdigits
    (show (hs.length + 1) / 2 = n by omega) (Nat.succ_pos _) haccepted hmessage
  refine ⟨(gdbGetArgs (decoded hs ++ 0 :: message.drop (n + 1))).2, ?_, ?_⟩
  · rw [respond_remote_frame build target f hpayload, hdecode, ok_bind]
  · rw [gdbGetArgs_head?, cString_append_zero]

theorem respond_remote (build : Build) (target : Option ℕ) (f : Frame) {hs text : List UInt8}
    (hpayload : f.payload = bytes "qRcmd," ++ hs) (h : Encodes hs text) (hnul : 0 ∉ text)
    (hlen : text.length ≤ 255) :
    ∃ args, respond build target (f.bytes ++ [0]) = monitor build args ∧
      args.head? = firstToken text := by
  obtain ⟨hdigits, haccepted, hdecoded⟩ := h.decodes
  have hargs := respond_remote_decoded build target f hpayload hdigits haccepted hlen
  rwa [hdecoded, cString_of_no_nul hnul] at hargs

theorem written_replyEvents (writeCb : GdbWriteCb) (replies : List (List UInt8)) :
    written (replyEvents writeCb replies) = replies.map fun reply => wire reply ++ [0] := by
  induction replies with
  | nil => rfl
  | cons reply replies ih => exact congrArg (_ :: ·) ih

/-- A call returns exactly when the server has replies, which it writes after the
acknowledgement. -/
theorem writes_iff_respond {target : Option ℕ} {writeCb : GdbWriteCb} {w : World}
    (h : Continues target writeCb w) (build : Build) (f : Frame) (hc : f.Correct)
    (hlen : f.payload.length ≤ 2043) (rest : List UInt8) (replies : List (List UInt8)) :
    (∃ k w' events, (gdbSessionHandle build (f.bytes ++ rest)).run w = .ok k w' ∧
      w'.trace = w.trace ++ events ∧ written events = [GdbPacketChar.ack] :: replies) ↔
      ∃ payloads, respond build target (f.bytes ++ [0]) = .ok payloads ∧
        replies = payloads.map fun payload => wire payload ++ [0] := by
  cases hr : respond build target (f.bytes ++ [0]) with
  | ok payloads =>
    obtain ⟨w', hrun, -, htrace⟩ := h.accepts build f hlen hc hr rest
    have hwritten : written (.handle (f.bytes ++ rest) :: answerEvents build target writeCb f ++
        [.consumed f.bytes.length]) =
        [GdbPacketChar.ack] :: payloads.map fun payload => wire payload ++ [0] := by
      rw [answerEvents_of_ok hr, written, List.filterMap_append]
      exact (List.append_nil _).trans
        (congrArg ([GdbPacketChar.ack] :: ·) (written_replyEvents writeCb payloads))
    constructor
    · rintro ⟨k, w'', events, hrun', htrace', hevents⟩
      rw [hrun] at hrun'
      cases hrun'
      rw [← List.append_cancel_left (htrace.symm.trans htrace'), hwritten] at hevents
      exact ⟨payloads, rfl, (List.cons_injective hevents).symm⟩
    · rintro ⟨payloads', hpayloads, hreplies⟩
      cases hpayloads
      rw [hreplies]
      exact ⟨_, w', _, hrun, htrace, hwritten⟩
  | error e =>
    obtain ⟨w', hrun⟩ := h.halts build f hlen hc hr rest
    constructor
    · rintro ⟨k, w'', events, hrun', -⟩
      rw [hrun] at hrun'
      cases hrun'
    · rintro ⟨payloads, hpayloads, -⟩
      cases hpayloads

theorem answeredOnce_iff_respond {target : Option ℕ} {writeCb : GdbWriteCb} {w : World}
    (h : Continues target writeCb w) (build : Build) (f : Frame) (hc : f.Correct)
    (hlen : f.payload.length ≤ 2043) (rest : List UInt8) :
    AnsweredOnce build w (f.bytes ++ rest) ↔
      ∃ reply, respond build target (f.bytes ++ [0]) = .ok [reply] := by
  constructor
  · rintro ⟨k, w', events, reply, hrun, htrace, hwritten, -⟩
    obtain ⟨payloads, hpayloads, hreplies⟩ :=
      (writes_iff_respond h build f hc hlen rest [reply]).mp ⟨k, w', events, hrun, htrace, hwritten⟩
    obtain ⟨payload, rfl, -⟩ := List.map_eq_singleton_iff.mp hreplies.symm
    exact ⟨payload, hpayloads⟩
  · rintro ⟨payload, hpayload⟩
    obtain ⟨k, w', events, hrun, htrace, hwritten⟩ :=
      (writes_iff_respond h build f hc hlen rest [wire payload ++ [0]]).mpr ⟨[payload], hpayload, rfl⟩
    exact ⟨k, w', events, _, hrun, htrace, hwritten, rfl⟩

/-- A packet is answered once exactly when it is no monitor command or an answerable one. -/
theorem answeredOnce_iff (build : Build) {w : World} (hr : Reachable build w)
    (hactive : w.gdbSession.state = .active) (hreliable : w.Reliable) (f : Frame)
    (hc : f.Correct) (hlen : f.payload.length ≤ 2043)
    (hcommand : f.payload.head? ≠ some 'z'.toUInt8 ∧ f.payload.head? ≠ some 'Z'.toUInt8)
    (hremote : ∀ hs, f.payload = bytes "qRcmd," ++ hs →
      ∃ text, Encodes hs text ∧ 1 ≤ text.length ∧ text.length ≤ 255 ∧ 0 ∉ text)
    (rest : List UInt8) :
    AnsweredOnce build w (f.bytes ++ rest) ↔
      ∀ hs text, f.payload = bytes "qRcmd," ++ hs → Encodes hs text → Answerable build text := by
  obtain ⟨writeCb, h⟩ := continues_of_reachable hr hactive hreliable
  rw [answeredOnce_iff_respond h build f hc hlen rest]
  by_cases hp : bytes "qRcmd," <+: f.payload
  · obtain ⟨hs, hpayload⟩ := hp
    obtain ⟨text, hencodes, -, hshort, hnul⟩ := hremote hs hpayload.symm
    obtain ⟨args, hrespond, hhead⟩ :=
      respond_remote build w.gdbSession.pTarget f hpayload.symm hencodes hnul hshort
    rw [hrespond, monitor_single_iff, hhead]
    refine ⟨fun hanswerable hs' text' hpayload' hencodes' => ?_, fun hall =>
      hall hs text hpayload.symm hencodes⟩
    obtain rfl : hs = hs' := List.append_cancel_left (hpayload.trans hpayload')
    obtain rfl : text = text' := hencodes.decodes.2.2.symm.trans hencodes'.decodes.2.2
    exact hanswerable
  · have hstored : ¬bytes "qRcmd," <+: (f.bytes ++ [0]).drop 1 := by
      rwa [drop_one_stored, prefix_append_cons_iff (by decide)]
    have hz : command (f.bytes ++ [0]) ∉ bytes "zZ" := by
      rw [command, drop_one_stored]
      cases hpayload : f.payload with
      | nil => exact (by decide : GdbPacketChar.stop ∉ bytes "zZ")
      | cons c cs =>
        rw [hpayload] at hcommand
        have hlist : bytes "zZ" = ['z'.toUInt8, 'Z'.toUInt8] := by decide
        simpa [hlist] using hcommand
    exact ⟨fun _ hs text hpayload _ => absurd ⟨hs, hpayload.symm⟩ hp, fun _ =>
      respond_single build w.gdbSession.pTarget hstored hz⟩

theorem help_answered :
    AnsweredOnce .release (.locked fun _ => .ok) (Frame.carrying (bytes "qRcmd,68656c70")).bytes := by
  have hhelp : Encodes (bytes "68656c70") (bytes "help") := by
    refine ⟨?_, ?_, ?_, ?_, ?_, ?_, ?_, ?_, ?_, ?_, ?_, ?_, trivial⟩ <;> decide
  have honly : ∀ hs, (Frame.carrying (bytes "qRcmd,68656c70")).payload = bytes "qRcmd," ++ hs →
      bytes "68656c70" = hs := fun hs h =>
    List.append_cancel_left ((by decide : bytes "qRcmd," ++ bytes "68656c70" = _).trans h)
  have hanswered := answeredOnce_iff .release (reachable_locked .release _) rfl (fun _ => rfl)
    (.carrying (bytes "qRcmd,68656c70")) (Frame.carrying_correct ..) (by decide) (by decide)
    (fun hs h => honly hs h ▸ ⟨bytes "help", hhelp, by decide, by decide, by decide⟩) []
  rw [List.append_nil] at hanswered
  refine hanswered.mpr fun hs text h hencodes => ?_
  obtain rfl := honly hs h
  obtain rfl : bytes "help" = text := hhelp.decodes.2.2.symm.trans hencodes.decodes.2.2
  exact ⟨bytes "help", by decide, by decide, by decide⟩

/-- A monitor command whose text is one space gets no reply. -/
theorem blank_text_unanswered :
    Encodes (bytes "20") [0x20] ∧ (Frame.carrying (bytes "qRcmd,20")).Correct ∧
      ¬AnsweredOnce .release (.locked fun _ => .ok) (Frame.carrying (bytes "qRcmd,20")).bytes := by
  have hnone : respond .release none ((Frame.carrying (bytes "qRcmd,20")).bytes ++ [0]) = .ok [] := by
    decide +kernel
  refine ⟨⟨by decide, by decide, by decide, trivial⟩, Frame.carrying_correct .., fun h => ?_⟩
  rw [← List.append_nil (Frame.bytes _), answeredOnce_iff_respond continues_locked .release _
    (Frame.carrying_correct ..) (by decide), hnone] at h
  obtain ⟨reply, hreply⟩ := h
  cases hreply

end Answers
end NetBmp
