import NetBmp.Server

/-!
# The session is the server

An accepted packet is dispatched on its stored bytes alone: what earlier packets left in the
buffer behind its NUL is not read. With acknowledgements on, `gdb_session_handle` performs the
actions of the server and changes nothing else but the two packets.
-/

namespace NetBmp

open Hex Halting Framing Server

/-- A packet that the reader has accepted. -/
structure Received (q : GdbPacket) : Prop where
  type : q.type = .inbound
  state : q.state = .complete
  shape : ∃ front h₁ h₂,
    q.stored = (front ++ [GdbPacketChar.stop, h₁, h₂, 0]).take gdbPacketMaxBufferLength

theorem BuiltFrom.received {bs : List UInt8} {k : ℕ} {q : GdbPacket}
    (h : BuiltFrom (bs.take k) q) (hend : packetEnd bs = some k) : Received q := by
  obtain ⟨pre, h₁, h₂, t, hraw, -, hs₁, hs₂⟩ := packetEnd_split hend
  have hk : kept [GdbPacketChar.stop, h₁, h₂] = [GdbPacketChar.stop, h₁, h₂] := by
    apply kept_of_not_ctrlC
    have hne : GdbPacketChar.ctrlC ≠ GdbPacketChar.stop := by decide
    have hne₁ : GdbPacketChar.ctrlC ≠ h₁ := fun he => hs₁ (Or.inr (Or.inr he.symm))
    have hne₂ : GdbPacketChar.ctrlC ≠ h₂ := fun he => hs₂ (Or.inr (Or.inr he.symm))
    simp [hne, hne₁, hne₂]
  refine ⟨h.type, h.state, kept pre, h₁, h₂, ?_⟩
  rw [h.stored, storedBytes, hraw, kept_append, hk, List.append_assoc]
  rfl

namespace Received

theorem four_le_length {q : GdbPacket} (h : Received q) : 4 ≤ q.length := by
  obtain ⟨front, h₁, h₂, hshape⟩ := h.shape
  have hlen := congrArg List.length hshape
  have hmax : gdbPacketMaxBufferLength = 2048 := rfl
  simp only [GdbPacket.length_stored, List.length_take, List.length_append, List.length_cons,
    List.length_nil] at hlen
  omega

theorem leftover {q : GdbPacket} (h : Received q) :
    q.buffer.toList.drop q.length = [] ∨ ∃ text, q.stored = text ++ [0] ∧ 0 < text.length := by
  obtain ⟨front, h₁, h₂, hshape⟩ := h.shape
  by_cases hlong : gdbPacketMaxBufferLength ≤ front.length + 4
  · left
    have hlen := congrArg List.length hshape
    simp only [GdbPacket.length_stored, List.length_take, List.length_append, List.length_cons,
      List.length_nil, Nat.min_eq_left hlong] at hlen
    rw [hlen]
    exact List.drop_of_length_le (by simp)
  · right
    refine ⟨front ++ [GdbPacketChar.stop, h₁, h₂], ?_, by simp⟩
    rw [hshape, List.take_of_length_le (by simp; omega)]
    simp

/-- The text of a command is looked up in the packet, not in what follows it. -/
theorem prefix_iff {q : GdbPacket} (h : Received q) {name : List UInt8} (hname : 0 ∉ name) :
    name <+: q.stored.drop 1 ++ q.buffer.toList.drop q.length ↔ name <+: q.stored.drop 1 := by
  rcases h.leftover with hnil | ⟨text, htext, hpos⟩
  · rw [hnil, List.append_nil]
  · rw [htext, List.drop_append_of_le_length hpos, List.append_assoc]
    exact (prefix_append_cons_iff hname _).trans (prefix_append_cons_iff hname []).symm

theorem headD_eq {q : GdbPacket} (h : Received q) :
    (q.stored.drop 1 ++ q.buffer.toList.drop q.length).headD 0 = command q.stored := by
  have hlen : 0 < (q.stored.drop 1).length := by
    have := h.four_le_length
    rw [List.length_drop, q.length_stored]
    omega
  rw [command]
  cases hd : q.stored.drop 1 with
  | nil => simp [hd] at hlen
  | cons c cs => rfl

theorem getCommand {q : GdbPacket} (h : Received q) :
    gdbPacketGetCommand q = .ok (command q.stored) := by
  have hlen := h.four_le_length
  exact getCommand_of_lt h.type (Or.inl h.state) (by omega)

theorem getBufferPayload {q : GdbPacket} (h : Received q) :
    gdbPacketGetBufferPayload q = .ok (q.stored.drop 1 ++ q.buffer.toList.drop q.length) := by
  have hlen := h.four_le_length
  exact getBufferOffset_of_lt (Or.inl h.state) (show 1 < q.length by omega)

theorem length_of_prefix {q : GdbPacket} (h : Received q) {name : List UInt8}
    (hstop : GdbPacketChar.stop ∉ name) (hlen : 3 < name.length)
    (hfits : name.length + 5 ≤ gdbPacketMaxBufferLength) (hp : name <+: q.stored.drop 1) :
    name.length + 5 ≤ q.length := by
  obtain ⟨front, h₁, h₂, hshape⟩ := h.shape
  have htotal := congrArg List.length hshape
  simp only [GdbPacket.length_stored, List.length_take, List.length_append, List.length_cons,
    List.length_nil] at htotal
  have hle := hp.length_le
  rw [List.length_drop, q.length_stored] at hle
  by_contra hshort
  have hfront : 0 < front.length := by omega
  have hat : name[front.length - 1]? = some GdbPacketChar.stop := by
    have hi : front.length - 1 < name.length := by omega
    have hget := hp.getElem hi
    rw [List.getElem?_eq_getElem hi, hget]
    have hidx : 1 + (front.length - 1) = front.length := by omega
    simp only [List.getElem_drop, hidx, hshape, List.getElem_take]
    simp
  exact hstop (List.mem_of_getElem? hat)

end Received

/-- What is run for the entry that has been found in a table. -/
def callbackOf : Option GdbSubcommand → ℕ → List (List UInt8) → Routine Unit
  | none, _, _ => gdbReply gdbReplyEmpty
  | some subcommand, argc, argv =>
    match subcommand.pCallback with
    | none => gdbReply gdbReplyEmpty
    | some callback => callback argc argv

theorem gdbExecuteSub_of_ne {text : List UInt8} (h : text.headD 0 ≠ GdbPacketChar.start)
    (table : List GdbSubcommand) (argc : ℕ) (argv : List (List UInt8)) :
    gdbExecuteSub text table argc argv =
      callbackOf (table.find? (·.matches text)) argc argv := by
  rw [gdbExecuteSub, assertVerbose_true _ h, lift_ok, pure_bind]
  cases table.find? (·.matches text) <;> rfl

theorem replies_find?_cons {w : World} {r : Except String (List (List UInt8))}
    {text : List UInt8} {s : GdbSubcommand} {table : List GdbSubcommand} {argc : ℕ}
    {argv : List (List UInt8)}
    (hs : s.pSubcommand.chars <+: text → Replies (callbackOf (some s) argc argv) w r)
    (htable : ¬s.pSubcommand.chars <+: text →
      Replies (callbackOf (table.find? (·.pSubcommand.chars <+: text)) argc argv) w r) :
    Replies (callbackOf ((s :: table).find? (·.pSubcommand.chars <+: text)) argc argv) w r := by
  by_cases hp : s.pSubcommand.chars <+: text
  · rw [List.find?_cons_of_pos (by simpa using hp)]
    exact hs hp
  · rw [List.find?_cons_of_neg (by simpa using hp)]
    exact htable hp

theorem replies_find?_ite {w : World} {r r' : Except String (List (List UInt8))}
    {text name : List UInt8} {s : GdbSubcommand} {table : List GdbSubcommand} {argc : ℕ}
    {argv : List (List UInt8)} (hname : s.pSubcommand.chars = name)
    (hs : name <+: text → Replies (callbackOf (some s) argc argv) w r)
    (htable : ¬name <+: text →
      Replies (callbackOf (table.find? (·.pSubcommand.chars <+: text)) argc argv) w r') :
    Replies (callbackOf ((s :: table).find? (·.pSubcommand.chars <+: text)) argc argv) w
      (if name <+: text then r else r') := by
  subst hname
  refine replies_find?_cons (fun hp => ?_) fun hp => ?_
  · rw [if_pos hp]
    exact hs hp
  · rw [if_neg hp]
    exact htable hp

theorem replies_empty {w : World} (h : Flushed w) : Replies (gdbReply gdbReplyEmpty) w (.ok [[]]) :=
  replies_gdbReply h gdbReplyEmpty (Nat.zero_le _)

theorem replies_monitor {w : World} (h : Flushed w) (build : Build) (args : List (List UInt8)) :
    Replies
      (match args with
        | [] => pure ()
        | command :: args => gdbExecuteSub command (gQueryRemoteSubcommands build)
            (command :: args).length (command :: args))
      w (monitor build args) := by
  cases args with
  | nil => exact ⟨w.gdbSession.outputPacket, h.sent, h.nonempty, rfl⟩
  | cons command args =>
    let argc := (command :: args).length
    by_cases hstart : command.headD 0 = GdbPacketChar.start
    · refine ⟨w.gdbSession.outputPacket, ?_⟩
      simp only [monitor, if_pos hstart, gdbExecuteSub]
      rw [assertVerbose_false _ (not_not.mpr hstart)]
      rfl
    · simp only [monitor, if_neg hstart, gdbExecuteSub_of_ne hstart]
      have hmatches : (fun s : GdbSubcommand => s.matches command) =
          fun s => decide (s.pSubcommand.chars <+: command) := funext (matches_eq command)
      rw [hmatches]
      exact replies_find?_ite rfl (fun _ => replies_help h argc (command :: args)) fun _ =>
        replies_find?_ite rfl (fun _ => replies_version h build argc (command :: args))
          fun _ => replies_empty h

theorem run_remote_decode {w : World} (hq : Received w.gdbSession.inputPacket)
    (hp : bytes "qRcmd," <+: w.gdbSession.inputPacket.stored.drop 1)
    (f : List UInt8 → Routine Unit) :
    (do
      let session ← getSession
      let hex ← lift (gdbPacketGetBufferPayloadOffset session.inputPacket
        gdbQueryRemotePrefix.chars.length)
      let payloadLength ← lift (gdbPacketGetPayloadLength session.inputPacket)
      let message ← lift (strFromHex hex
        ((payloadLength + 2 ^ 32 - gdbQueryRemotePrefix.chars.length) % 2 ^ 32)
        (List.replicate gdbQueryMessageMaxLength 0))
      f message : Routine Unit).run w =
      (lift (strFromHex (w.gdbSession.inputPacket.stored.drop 7)
        (w.gdbSession.inputPacket.stored.length - 10)
        (List.replicate gdbQueryMessageMaxLength 0)) >>= f).run w := by
  rw [run_bind_of_ok (run_getSession w)]
  generalize w.gdbSession.inputPacket = q at hq hp ⊢
  have hlen : 11 ≤ q.length := hq.length_of_prefix (by decide) (by decide) (by decide) hp
  have hle : q.length ≤ 2048 := q.length_le
  have hoffset : gdbPacketGetBufferPayloadOffset q gdbQueryRemotePrefix.chars.length =
      .ok (q.stored.drop 7 ++ q.buffer.toList.drop q.length) :=
    getBufferOffset_of_lt (Or.inl hq.state) (show 7 < q.length by omega)
  have hpayload : gdbPacketGetPayloadLength q = .ok (q.length - 4) :=
    getPayloadLength_of_le (Or.inl hq.state) hq.four_le_length
  have hwrap : (q.length - 4 + 2 ^ 32 - gdbQueryRemotePrefix.chars.length) % 2 ^ 32 =
      q.stored.length - 10 := by
    have hname : gdbQueryRemotePrefix.chars.length = 6 := by decide
    rw [hname, q.length_stored]
    omega
  have hdigits : q.stored.length - 10 ≤ (q.stored.drop 7).length := by
    rw [List.length_drop]
    omega
  simp only [hoffset, hpayload, lift_ok, pure_bind, hwrap, strFromHex_append _ hdigits]

theorem replies_gdbQueryRemote {w : World} (h : Flushed w) (build : Build)
    (hq : Received w.gdbSession.inputPacket)
    (hp : bytes "qRcmd," <+: w.gdbSession.inputPacket.stored.drop 1) (argc : ℕ)
    (argv : List (List UInt8)) :
    Replies (gdbQueryRemote build argc argv) w (do
      let message ← strFromHex (w.gdbSession.inputPacket.stored.drop 7)
        (w.gdbSession.inputPacket.stored.length - 10) (List.replicate gdbQueryMessageMaxLength 0)
      monitor build (gdbGetArgs message).2) := by
  have hrun : (gdbQueryRemote build argc argv).run w =
      (lift (strFromHex (w.gdbSession.inputPacket.stored.drop 7)
        (w.gdbSession.inputPacket.stored.length - 10)
        (List.replicate gdbQueryMessageMaxLength 0)) >>= fun message =>
          match (gdbGetArgs message).2 with
          | [] => pure ()
          | command :: args => gdbExecuteSub command (gQueryRemoteSubcommands build)
              (command :: args).length (command :: args)).run w := run_remote_decode hq hp _
  cases hmessage : strFromHex (w.gdbSession.inputPacket.stored.drop 7)
      (w.gdbSession.inputPacket.stored.length - 10)
      (List.replicate gdbQueryMessageMaxLength 0) with
  | error e =>
    rw [hmessage] at hrun
    exact ⟨w.gdbSession.outputPacket, hrun⟩
  | ok message =>
    rw [hmessage, lift_ok, pure_bind] at hrun
    rw [ok_bind]
    obtain ⟨o, ho⟩ := replies_monitor h build (gdbGetArgs message).2
    refine ⟨o, ?_⟩
    rwa [hrun]

theorem replies_gQueryCommands {w : World} (h : Flushed w) (build : Build) {body : List UInt8}
    (hq : body.headD 0 = 'q'.toUInt8) {remote : Except String (List (List UInt8))}
    (hremote : bytes "qRcmd," <+: body → Replies (gdbQueryRemote build 0 []) w remote) :
    Replies (callbackOf ((gQueryCommands build).find? (·.pSubcommand.chars <+: body)) 0 []) w
      (if bytes "qRcmd," <+: body then remote
      else if bytes "qSupported" <+: body then .ok [(gdbQuerySupportedMessage build).chars]
      else if bytes "qC" <+: body then .ok [bytes "QC1"]
      else if bytes "qfThreadInfo" <+: body then
        .ok [if w.gdbSession.pTarget ≠ none then bytes "m1" else bytes "l"]
      else if bytes "qsThreadInfo" <+: body then .ok [bytes "l"]
      else .ok [[]]) := by
  refine replies_find?_ite rfl hremote fun _ => ?_
  refine replies_find?_ite rfl (fun _ => ?_) fun _ => ?_
  · have hfits := build.chsnprintf_fits gdbQueryMessageMaxLength (.lit "PacketSize=%X")
      gdbPacketMaxUsableBufferLength (by decide)
    have hlong : gdbQueryMessageMaxLength ≤ 2043 := by decide
    exact replies_gdbReply h (gdbQuerySupportedMessage build)
      (Nat.le_trans (Nat.le_of_lt hfits) hlong)
  refine replies_find?_ite rfl (fun _ => replies_gdbReply h (.lit "QC1") (by decide)) fun hthread => ?_
  refine replies_find?_cons (fun hcrc => ?_) fun _ => ?_
  · exact absurd (List.IsPrefix.trans (by decide) hcrc) hthread
  -- the entries without a callback exclude the later names
  have hnone : ∀ name, name <+: body → ¬name <+: bytes "qfThreadInfo" →
      ¬bytes "qfThreadInfo" <+: name → ¬name <+: bytes "qsThreadInfo" →
      ¬bytes "qsThreadInfo" <+: name → Replies (gdbReply gdbReplyEmpty) w
        (if bytes "qfThreadInfo" <+: body then
          .ok [if w.gdbSession.pTarget ≠ none then bytes "m1" else bytes "l"]
        else if bytes "qsThreadInfo" <+: body then .ok [bytes "l"] else .ok [[]]) := by
    intro name hp h₁ h₂ h₃ h₄
    rw [if_neg (not_prefix_of_other hp h₁ h₂), if_neg (not_prefix_of_other hp h₃ h₄)]
    exact replies_empty h
  refine replies_find?_cons (fun hp => hnone _ hp (by decide) (by decide) (by decide) (by decide))
    fun _ => ?_
  refine replies_find?_cons (fun hp => hnone _ hp (by decide) (by decide) (by decide) (by decide))
    fun _ => ?_
  refine replies_find?_ite rfl (fun _ => ?_) fun _ => ?_
  · obtain ⟨o, ho⟩ : Replies (if w.gdbSession.pTarget ≠ none then gdbReply (.lit "m1")
        else gdbReply (.lit "l")) w
        (.ok [if w.gdbSession.pTarget ≠ none then bytes "m1" else bytes "l"]) := by
      split_ifs
      · exact replies_gdbReply h (.lit "m1") (by decide)
      · exact replies_gdbReply h (.lit "l") (by decide)
    exact ⟨o, ho⟩
  refine replies_find?_ite rfl (fun _ => replies_gdbReply h (.lit "l") (by decide)) fun _ => ?_
  refine replies_find?_cons (fun hp => ?_) fun _ => ?_
  · obtain ⟨rest, rfl⟩ := hp
    have hhead : 'Q'.toUInt8 = 'q'.toUInt8 := hq
    exact absurd hhead (by decide)
  exact replies_find?_cons (fun _ => replies_empty h) fun _ => replies_empty h

/-- A query is looked up by the bytes of the buffer from the command character on. -/
theorem run_gdbQueryWith {w : World} (queryCommands : List GdbSubcommand)
    (hq : Received w.gdbSession.inputPacket)
    (hcommand : command w.gdbSession.inputPacket.stored = 'q'.toUInt8) :
    (gdbQueryWith queryCommands).run w = (callbackOf (queryCommands.find?
      (·.pSubcommand.chars <+: w.gdbSession.inputPacket.stored.drop 1)) 0 []).run w := by
  let q := w.gdbSession.inputPacket
  let text := q.stored.drop 1 ++ q.buffer.toList.drop q.length
  have hpayload : gdbPacketGetBufferPayload q = .ok text := hq.getBufferPayload
  have hne : text.headD 0 ≠ GdbPacketChar.start := by
    rw [show text.headD 0 = command q.stored from hq.headD_eq, hcommand]
    decide
  have hmatches : (fun s : GdbSubcommand => s.matches text) =
      fun s => decide (s.pSubcommand.chars <+: q.stored.drop 1) := funext fun s => by
    rw [matches_eq, decide_eq_decide]
    exact hq.prefix_iff s.pSubcommand.no_nul
  rw [gdbQueryWith, run_bind_of_ok (run_getSession w)]
  simp only [q] at hpayload
  rw [hpayload, lift_ok, pure_bind, gdbExecuteSub_of_ne hne, hmatches]

theorem replies_gdbQuery {w : World} (h : Flushed w) (build : Build)
    (hq : Received w.gdbSession.inputPacket)
    (hcommand : command w.gdbSession.inputPacket.stored = 'q'.toUInt8) :
    Replies (gdbQuery build) w
      (query build w.gdbSession.pTarget w.gdbSession.inputPacket.stored) := by
  obtain ⟨o, ho⟩ := replies_gQueryCommands h build hcommand
    fun hp => replies_gdbQueryRemote h build hq hp 0 []
  exact ⟨o, by rwa [gdbQuery, run_gdbQueryWith _ hq hcommand]⟩

theorem replies_gdbBreakpoint {w : World} (h : Flushed w) :
    Replies gdbBreakpoint w (.ok [bytes "E01", bytes "OK", []]) := by
  have hbuffer := getBufferOffset_of_lt (Or.inr h.sent) h.nonempty
  have hlength : gdbPacketGetLength w.gdbSession.outputPacket =
      .ok w.gdbSession.outputPacket.length := by
    simp [gdbPacketGetLength, h.sent]
  have hreplies := (replies_gdbReply h gdbReplyError01 (by decide)).seq h.callback fun w₁ h₁ =>
    (replies_gdbReply h₁ gdbReplyOk (by decide)).seq h₁.callback fun w₂ h₂ => replies_empty h₂
  obtain ⟨o, ho⟩ := hreplies
  refine ⟨o, ?_⟩
  rw [gdbBreakpoint, run_bind_of_ok (run_getSession w), gdbPacketGetBuffer, hbuffer, hlength]
  exact ho

def callbackFor (commands : List GdbCommand) (c : UInt8) : Routine Unit :=
  match commands.find? (·.command = c) with
  | none => gdbReply gdbReplyEmpty
  | some gdbCommand => gdbCommand.pCallback

theorem callbackFor_other (build : Build) {c : UInt8} (hreason : c ≠ '?'.toUInt8)
    (hagreed : c ∉ agreed) (hbreakpoint : c ∉ bytes "zZ") (hquery : c ≠ 'q'.toUInt8) :
    callbackFor (gCommands build) c = gdbReply gdbReplyEmpty := by
  rw [callbackFor]
  cases hfind : (gCommands build).find? (·.command = c) with
  | none => rfl
  | some g =>
    have hc : g.command = c := by simpa using List.find?_some hfind
    have hmem := List.mem_of_find?_eq_some hfind
    have hg : g.command ∈ '?'.toUInt8 :: 'q'.toUInt8 :: (agreed ++ bytes "zZ") ∨
        g.pCallback = gdbReply gdbReplyEmpty := by
      unfold gCommands gCommandsWith at hmem
      fin_cases hmem <;>
        first | exact Or.inr rfl | exact Or.inl (.tail _ (.head _)) | exact Or.inl (by decide)
    simpa [hc, hreason, hagreed, hbreakpoint, hquery] using hg

theorem run_gdbStopReasonQuery (w : World) :
    gdbStopReasonQuery.run w = (gdbReply (.lit "W00")).run w := by
  rw [gdbStopReasonQuery, run_bind_of_ok (run_getSession w), Bool.and_false]
  rfl

/-- The commands that agree reply `OK`; the first of them also sets a property. -/
theorem run_callbackFor_agreed (build : Build) (w : World) {stored : List UInt8}
    (h : command stored ∈ agreed) :
    (callbackFor (gCommands build) (command stored)).run
        { w with trace := w.trace ++ [.execute stored] } =
      (gdbReply gdbReplyOk).run (w.perform (.execute stored)) := by
  have hlist : agreed = ['!'.toUInt8, 'g'.toUInt8, 'H'.toUInt8, 'k'.toUInt8] := by decide
  have hkeep : command stored ≠ '!'.toUInt8 → w.perform (.execute stored) =
      { w with trace := w.trace ++ [.execute stored] } := fun hne => by
    simp [World.perform, hne]
  rw [hlist] at h
  simp only [List.mem_cons, List.not_mem_nil, or_false] at h
  rcases h with hc | hc | hc | hc
  · rw [World.perform, hc, decide_eq_true rfl, Bool.or_true]
    rfl
  all_goals
    rw [hkeep (by rw [hc]; decide), hc]
    rfl

theorem replies_callbackFor {w : World} (h : Flushed w) (build : Build)
    (hq : Received w.gdbSession.inputPacket) :
    let stored := w.gdbSession.inputPacket.stored
    ∃ x : Routine Unit, (callbackFor (gCommands build) (command stored)).run
        { w with trace := w.trace ++ [.execute stored] } = x.run (w.perform (.execute stored)) ∧
      Replies x (w.perform (.execute stored)) (respond build w.gdbSession.pTarget stored) := by
  intro stored
  let w₁ : World := { w with trace := w.trace ++ [.execute stored] }
  let w₂ := w.perform (.execute stored)
  have h₂ : Flushed w₂ := ⟨h.callback, h.sent, h.nonempty⟩
  by_cases hagreed : command stored ∈ agreed
  · refine ⟨gdbReply gdbReplyOk, run_callbackFor_agreed build w hagreed, ?_⟩
    have hreason : command stored ≠ '?'.toUInt8 := fun he => absurd hagreed (by rw [he]; decide)
    rw [respond, if_neg hreason, if_pos hagreed]
    exact replies_gdbReply h₂ gdbReplyOk (by decide)
  have hkeep : w₂ = w₁ := by
    have hne : command stored ≠ '!'.toUInt8 := fun he => hagreed (by rw [he]; decide)
    simp [w₂, w₁, World.perform, hne]
  change ∃ x : Routine Unit, (callbackFor (gCommands build) (command stored)).run w₁ = x.run w₂ ∧
    Replies x w₂ (respond build w.gdbSession.pTarget stored)
  rw [hkeep] at h₂ ⊢
  refine ⟨_, rfl, ?_⟩
  unfold respond
  split_ifs with hreason hbreakpoint hquery
  · obtain ⟨o, ho⟩ := replies_gdbReply h₂ (.lit "W00") (by decide)
    have hfind : callbackFor (gCommands build) (command stored) = gdbStopReasonQuery := by
      rw [hreason]
      rfl
    rw [hfind]
    exact ⟨o, by rwa [run_gdbStopReasonQuery]⟩
  · have hfind : callbackFor (gCommands build) (command stored) = gdbBreakpoint := by
      rcases List.mem_pair.mp hbreakpoint with hc | hc <;> rw [hc] <;> rfl
    rw [hfind]
    exact replies_gdbBreakpoint h₂
  · have hfind : callbackFor (gCommands build) (command stored) = gdbQuery build := by
      rw [hquery]
      rfl
    rw [hfind]
    exact replies_gdbQuery h₂ build hq hquery
  · rw [callbackFor_other build hreason hagreed hbreakpoint hquery]
    exact replies_empty h₂

theorem run_gdbExecuteWith {w : World} (commands : List GdbCommand)
    (hq : Received w.gdbSession.inputPacket) :
    (gdbExecuteWith commands).run w =
      (callbackFor commands (command w.gdbSession.inputPacket.stored)).run
        { w with trace := w.trace ++ [.execute w.gdbSession.inputPacket.stored] } := by
  rw [gdbExecuteWith, run_bind_of_ok (run_getSession w), run_bind_of_ok (run_record _ w),
    assertVerbose_true _ hq.state, assertVerbose_true _ hq.type, hq.getCommand]
  rfl

/-- `gdb_execute` sends the replies of the server, or trips the same assertion. -/
theorem run_gdbExecute {w : World} (h : Flushed w) (build : Build)
    (hq : Received w.gdbSession.inputPacket) :
    ∃ o : GdbPacket,
      match respond build w.gdbSession.pTarget w.gdbSession.inputPacket.stored with
      | .ok replies => o.state = .sent ∧ (gdbExecute build).run w =
          .ok () (((w.perform (.execute w.gdbSession.inputPacket.stored)).sendReplies
            replies).withOutput o)
      | .error e => (gdbExecute build).run w =
          .error e ((w.perform (.execute w.gdbSession.inputPacket.stored)).withOutput o) := by
  obtain ⟨x, hx, o, ho⟩ := replies_callbackFor h build hq
  refine ⟨o, ?_⟩
  rw [gdbExecute, run_gdbExecuteWith _ hq, hx]
  cases hr : respond build w.gdbSession.pTarget w.gdbSession.inputPacket.stored with
  | ok replies =>
    rw [hr] at ho
    exact ⟨ho.1, ho.2.2⟩
  | error e =>
    rw [hr] at ho
    exact ho

theorem verdict_cases (raw : List UInt8) : verdict raw = .ok ∨ verdict raw = .checksumError := by
  unfold verdict
  split_ifs <;> simp

theorem run_handle_of_read {w : World} (hactive : w.gdbSession.state = .active)
    (hack : w.gdbSession.properties.noAckMode = false) (build : Build) {input : List UInt8}
    {result : GdbPacketResult} {q : GdbPacket} {k : ℕ}
    (hread : gdbPacketReadStream w.gdbSession.inputPacket input = .ok (result, q, k)) :
    (gdbSessionHandle build input).run w = (do
      if result = .ok then
        gdbAcknowledge GdbPacketChar.ack
        gdbExecute build
      else if result = .checksumError then gdbAcknowledge GdbPacketChar.nack
      record (.consumed k)
      return k : Routine ℕ).run ((w.perform (.handle input)).withInput q) := by
  rw [gdbSessionHandle, run_bind_of_ok (run_record _ w), run_bind_of_ok (run_getSession _)]
  simp only [hactive, hack, hread, assertVerbose_true, lift_ok, pure_bind]
  cases result <;> rfl

theorem run_handle_accepted {w : World} (h : Ready w) (hactive : w.gdbSession.state = .active)
    (hack : w.gdbSession.properties.noAckMode = false) (build : Build) {input : List UInt8}
    {q : GdbPacket} {k : ℕ} (hq : Received q)
    (hread : gdbPacketReadStream w.gdbSession.inputPacket input = .ok (.ok, q, k)) :
    ∃ o : GdbPacket,
      match respond build w.gdbSession.pTarget q.stored with
      | .ok replies => o.state = .sent ∧ (gdbSessionHandle build input).run w =
          .ok k (((w.performs (.handle input :: .send [GdbPacketChar.ack] :: .execute q.stored ::
            (replies.map fun reply => .send (wire reply ++ [0])) ++
              [.consumed k])).withInput q).withOutput o)
      | .error e => (gdbSessionHandle build input).run w =
          .error e (((w.performs [.handle input, .send [GdbPacketChar.ack],
            .execute q.stored]).withInput q).withOutput o) := by
  let w₀ := w.perform (.handle input)
  let wq := w₀.withInput q
  have hgo : (gdbSessionHandle build input).run w = (do
      gdbAcknowledge GdbPacketChar.ack
      gdbExecute build
      record (.consumed k)
      return k : Routine ℕ).run wq := run_handle_of_read hactive hack build hread
  obtain ⟨o₁, hs₁, hl₁, hackRun⟩ := run_gdbAcknowledge (w := wq) h.callback
    (Or.inl (rfl : GdbPacketChar.ack = _))
  let w₁ := (wq.perform (.send [GdbPacketChar.ack])).withOutput o₁
  have hackRun : (gdbAcknowledge GdbPacketChar.ack).run wq = .ok () w₁ := hackRun
  have hin : w₁.gdbSession.inputPacket = q := by simp [w₁, wq, World.withInput, World.perform]
  have htarget : w₁.gdbSession.pTarget = w.gdbSession.pTarget := by
    simp [w₁, wq, World.withInput, w₀, World.perform]
  have hflushed : Flushed w₁ := by
    refine ⟨?_, hs₁, hl₁⟩
    simpa [w₁, wq, World.withInput, w₀] using h.callback
  obtain ⟨o, ho⟩ := run_gdbExecute hflushed build (hin.symm ▸ hq)
  rw [hin, htarget] at ho
  refine ⟨o, ?_⟩
  rw [hgo, run_bind_of_ok hackRun]
  cases hr : respond build w.gdbSession.pTarget q.stored with
  | ok replies =>
    rw [hr] at ho
    obtain ⟨hs, hexecute⟩ := ho
    refine ⟨hs, ?_⟩
    rw [run_bind_of_ok hexecute, run_bind_of_ok (run_record_consumed _ _)]
    simp [w₁, wq, w₀, World.sendReplies, World.performs_append]
  | error e =>
    rw [hr] at ho
    apply (run_bind_of_error ho _).trans
    simp [w₁, wq, w₀]

theorem run_handle_refused {w : World} (h : Ready w) (hactive : w.gdbSession.state = .active)
    (hack : w.gdbSession.properties.noAckMode = false) (build : Build) {input : List UInt8}
    {q : GdbPacket} {k : ℕ}
    (hread : gdbPacketReadStream w.gdbSession.inputPacket input = .ok (.checksumError, q, k)) :
    ∃ o : GdbPacket, o.state = .sent ∧ (gdbSessionHandle build input).run w =
      .ok k (((w.performs [.handle input, .send [GdbPacketChar.nack],
        .consumed k]).withInput q).withOutput o) := by
  let w₀ := w.perform (.handle input)
  let wq := w₀.withInput q
  have hgo : (gdbSessionHandle build input).run w = (do
      gdbAcknowledge GdbPacketChar.nack
      record (.consumed k)
      return k : Routine ℕ).run wq := run_handle_of_read hactive hack build hread
  obtain ⟨o, hs, hl, hnackRun⟩ := run_gdbAcknowledge (w := wq) h.callback
    (Or.inr (rfl : GdbPacketChar.nack = _))
  have hnack : wq.send [GdbPacketChar.nack] = wq.perform (.send [GdbPacketChar.nack]) := rfl
  refine ⟨o, hs, ?_⟩
  rw [hgo, run_bind_of_ok hnackRun, run_bind_of_ok (run_record_consumed _ _), hnack]
  simp [wq, w₀]

/-- With acknowledgements on, `gdb_session_handle` performs the actions of the server. The output
packet is left as it was or as sent. -/
theorem run_gdbSessionHandle {w : World} (h : Ready w) (hactive : w.gdbSession.state = .active)
    (hack : w.gdbSession.properties.noAckMode = false) (build : Build) (input : List UInt8) :
    ∃ q o : GdbPacket,
      match answer build w.gdbSession.pTarget input with
      | (actions, .ok k) => (o.state = .sent ∨ o = w.gdbSession.outputPacket) ∧
          (gdbSessionHandle build input).run w =
            .ok k (((w.performs actions).withInput q).withOutput o)
      | (actions, .error e) => (gdbSessionHandle build input).run w =
          .error e (((w.performs actions).withInput q).withOutput o) := by
  rcases readStream_cases w.gdbSession.inputPacket input with
    ⟨hbad, hread⟩ | ⟨hdigits, hend, q, hread, -⟩ | ⟨hdigits, k, hend, q, hread, hbuilt⟩
  · have hhalt : (gdbSessionHandle build input).run w =
        .error "Invalid hex nibble." (w.perform (.handle input)) := by
      rw [gdbSessionHandle, run_bind_of_ok (run_record _ w), run_bind_of_ok (run_getSession _)]
      simp only [hactive, hread, assertVerbose_true, lift_ok, pure_bind]
      rfl
    rw [answer, if_pos hbad]
    exact ⟨w.gdbSession.inputPacket, w.gdbSession.outputPacket, hhalt⟩
  · rw [answer, if_neg (by push Not; exact hdigits), hend]
    exact ⟨q, w.gdbSession.outputPacket, Or.inr rfl, run_handle_of_read hactive hack build hread⟩
  rw [answer, if_neg (by push Not; exact hdigits), hend]
  rcases verdict_cases (input.take k) with hok | hbad
  · rw [hok] at hread
    obtain ⟨o, ho⟩ := run_handle_accepted h hactive hack build (hbuilt.received hend) hread
    rw [hbuilt.stored] at ho
    simp only [hok, ↓reduceIte]
    refine ⟨q, o, ?_⟩
    cases hr : respond build w.gdbSession.pTarget (storedBytes (input.take k)) with
    | ok replies =>
      rw [hr] at ho
      exact ⟨Or.inl ho.1, ho.2⟩
    | error e => simpa only [hr] using ho
  · rw [hbad] at hread
    obtain ⟨o, ho⟩ := run_handle_refused h hactive hack build hread
    simp only [hbad]
    exact ⟨q, o, Or.inl ho.1, ho.2⟩

end NetBmp
