import NetBmp.SessionWriter
import NetBmp.Strings

/-!
# The server

What the session is for, without packets and buffers: it takes the first packet off its input,
acknowledges it and answers it. The answer depends on the stored bytes of the packet, on the
build and on the target, and on nothing that earlier packets left behind. The last theorem says
that `gdb_session_handle` does just this.
-/

namespace NetBmp

open Hex Halting

namespace Server

def helpText : List UInt8 :=
  bytes "Supported monitor commands:\n\n" ++ gQueryRemoteTexts.flatMap fun text =>
    text.1.chars ++ bytes ": " ++ text.2.chars ++ bytes "\n"

def versionText (build : Build) : List UInt8 :=
  bytes "Version: " ++ build.version.chars ++ bytes "-" ++ build.commitHash.chars ++ bytes "\n"

/-- A text that is sent as hex digits has to fit into a packet. -/
def hexReply (text : List UInt8) : Except String (List (List UInt8)) :=
  if 2 * text.length ≤ 2043 then .ok [hexOf text] else .error "Packet not complete."

/-- The replies to a monitor command with its arguments. -/
def monitor (build : Build) : List (List UInt8) → Except String (List (List UInt8))
  | [] => .ok []
  | command :: _ =>
    if command.headD 0 = GdbPacketChar.start then
      .error "GDB packet start delimiter is invalid in commands names."
    else if bytes "help" <+: command then hexReply helpText
    else if bytes "version" <+: command then hexReply (versionText build)
    else .ok [[]]

/-- The replies to a query, which is answered by the first subcommand that it starts with. -/
def query (build : Build) (target : Option ℕ) (stored : List UInt8) :
    Except String (List (List UInt8)) :=
  let text := stored.drop 1
  if bytes "qRcmd," <+: text then do
    let message ← strFromHex (stored.drop 7) (stored.length - 10)
      (List.replicate gdbQueryMessageMaxLength 0)
    monitor build (gdbGetArgs message).2
  else if bytes "qSupported" <+: text then .ok [(gdbQuerySupportedMessage build).chars]
  else if bytes "qC" <+: text then .ok [bytes "QC1"]
  else if bytes "qfThreadInfo" <+: text then .ok [if target ≠ none then bytes "m1" else bytes "l"]
  else if bytes "qsThreadInfo" <+: text then .ok [bytes "l"]
  else .ok [[]]

def command (stored : List UInt8) : UInt8 := (stored.drop 1).headD 0

/-- The commands that are answered with `OK`. -/
def agreed : List UInt8 := bytes "!gHk"

/-- The payloads of the replies to a packet, or the assertion that it trips. -/
def respond (build : Build) (target : Option ℕ) (stored : List UInt8) :
    Except String (List (List UInt8)) :=
  if command stored = '?'.toUInt8 then .ok [bytes "W00"]
  else if command stored ∈ agreed then .ok [bytes "OK"]
  else if command stored ∈ bytes "zZ" then .ok [bytes "E01", bytes "OK", []]
  else if command stored = 'q'.toUInt8 then query build target stored
  else .ok [[]]

theorem hexReply_eq_error {text : List UInt8} {e : String} (h : hexReply text = .error e) :
    e = "Packet not complete." := by
  unfold hexReply at h
  split_ifs at h
  exact (Except.error.inj h).symm

theorem monitor_eq_error {build : Build} {args : List (List UInt8)} {e : String}
    (h : monitor build args = .error e) :
    e ∈ ["GDB packet start delimiter is invalid in commands names.", "Packet not complete."] := by
  cases args with
  | nil => cases h
  | cons command args =>
    rw [monitor] at h
    split_ifs at h
    · simp [← Except.error.inj h]
    · simp [hexReply_eq_error h]
    · simp [hexReply_eq_error h]

theorem respond_eq_error {build : Build} {target : Option ℕ} {stored : List UInt8} {e : String}
    (h : respond build target stored = .error e) :
    e ∈ ["Target buffer length exceeded.", "Invalid input length.", "Invalid hex nibble.",
      "GDB packet start delimiter is invalid in commands names.", "Packet not complete."] := by
  rw [respond] at h
  split_ifs at h
  rw [query] at h
  split_ifs at h
  rcases bind_eq_error h with hdecode | ⟨message, -, hmonitor⟩
  · exact List.mem_append_left _ (strFromHex_eq_error hdecode)
  · exact List.mem_append_right
      ["Target buffer length exceeded.", "Invalid input length.", "Invalid hex nibble."]
      (monitor_eq_error hmonitor)

/-- What the server does, one thing after the other. -/
inductive Action
  | handle (input : List UInt8)
  | consumed (length : ℕ)
  | execute (stored : List UInt8)
  | send (data : List UInt8)
  deriving DecidableEq, Repr

/-- The actions for an input, and the length consumed or the assertion that is tripped. -/
def answer (build : Build) (target : Option ℕ) (input : List UInt8) :
    List Action × Except String ℕ :=
  if ∃ d ∈ digits .body input, ¬Accepted d then ([.handle input], .error "Invalid hex nibble.")
  else
    match packetEnd input with
    | none => ([.handle input, .consumed input.length], .ok input.length)
    | some k =>
      let stored := storedBytes (input.take k)
      if verdict (input.take k) = .ok then
        match respond build target stored with
        | .ok replies =>
          (.handle input :: .send [GdbPacketChar.ack] :: .execute stored ::
            (replies.map fun reply => .send (wire reply ++ [0])) ++ [.consumed k], .ok k)
        | .error e => ([.handle input, .send [GdbPacketChar.ack], .execute stored], .error e)
      else ([.handle input, .send [GdbPacketChar.nack], .consumed k], .ok k)

theorem answer_eq_error {build : Build} {target : Option ℕ} {input : List UInt8}
    {actions : List Action} {e : String} (h : answer build target input = (actions, .error e)) :
    e = "Invalid hex nibble." ∨ ∃ stored, respond build target stored = .error e := by
  rw [answer] at h
  split_ifs at h
  · exact Or.inl (Except.error.inj (congrArg Prod.snd h)).symm
  cases hend : packetEnd input with
  | none =>
    rw [hend] at h
    cases h
  | some k =>
    rw [hend] at h
    simp only at h
    split_ifs at h
    · cases hr : respond build target (storedBytes (input.take k)) with
      | ok replies =>
        rw [hr] at h
        cases h
      | error e' =>
        rw [hr] at h
        cases h
        exact Or.inr ⟨_, hr⟩
    · cases h

end Server

namespace World

/-- An action on the world. The command `!` also sets a property of the session. -/
def perform (w : World) : Server.Action → World
  | .handle input => { w with trace := w.trace ++ [.handle input] }
  | .consumed length => { w with trace := w.trace ++ [.consumed length] }
  | .execute stored => { w with
      trace := w.trace ++ [.execute stored]
      gdbSession := { w.gdbSession with properties := { w.gdbSession.properties with
        isExtendedRemote := w.gdbSession.properties.isExtendedRemote ||
          Server.command stored = '!'.toUInt8 } } }
  | .send data => w.send data

def performs (w : World) (actions : List Server.Action) : World := actions.foldl perform w

/-- Replies are sent as frames, with the NUL that ends their packet. -/
def sendReplies (w : World) (replies : List (List UInt8)) : World :=
  w.performs (replies.map fun reply => .send (wire reply ++ [0]))

@[simp] theorem performs_cons (w : World) (action : Server.Action) (actions : List Server.Action) :
    w.performs (action :: actions) = (w.perform action).performs actions := rfl

@[simp] theorem performs_nil (w : World) : w.performs [] = w := rfl

theorem performs_append (w : World) (xs ys : List Server.Action) :
    w.performs (xs ++ ys) = (w.performs xs).performs ys := List.foldl_append ..

/-- What every action leaves alone, all of them leave alone. -/
theorem performs_unchanged {α : Type} (f : World → α)
    (h : ∀ w action, f (perform w action) = f w) (w : World) (actions : List Server.Action) :
    f (w.performs actions) = f w := by
  induction actions generalizing w with
  | nil => rfl
  | cons action actions ih => rw [performs_cons, ih, h]

theorem performs_comm (f : World → World)
    (h : ∀ w action, perform (f w) action = f (perform w action)) (w : World)
    (actions : List Server.Action) :
    (f w).performs actions = f (w.performs actions) := by
  induction actions generalizing w with
  | nil => rfl
  | cons action actions ih => rw [performs_cons, h, ih, performs_cons]

@[simp] theorem perform_withOutput (w : World) (p : GdbPacket) (action : Server.Action) :
    (w.withOutput p).perform action = (w.perform action).withOutput p := by
  cases action <;> first | rfl | exact send_withOutput w p _

@[simp] theorem performs_withOutput (w : World) (p : GdbPacket) (actions : List Server.Action) :
    (w.withOutput p).performs actions = (w.performs actions).withOutput p :=
  performs_comm (·.withOutput p) (perform_withOutput · p) w actions

@[simp] theorem perform_withInput (w : World) (p : GdbPacket) (action : Server.Action) :
    (w.withInput p).perform action = (w.perform action).withInput p := by
  cases action <;> first | rfl | exact send_withInput w p _

@[simp] theorem performs_withInput (w : World) (p : GdbPacket) (actions : List Server.Action) :
    (w.withInput p).performs actions = (w.performs actions).withInput p :=
  performs_comm (·.withInput p) (perform_withInput · p) w actions

@[simp] theorem perform_pWriteCb (w : World) (action : Server.Action) :
    (w.perform action).gdbSession.pWriteCb = w.gdbSession.pWriteCb := by
  cases action <;> simp [perform]

@[simp] theorem performs_pWriteCb (w : World) (actions : List Server.Action) :
    (w.performs actions).gdbSession.pWriteCb = w.gdbSession.pWriteCb :=
  performs_unchanged (·.gdbSession.pWriteCb) perform_pWriteCb w actions

@[simp] theorem perform_transport (w : World) (action : Server.Action) :
    (w.perform action).gdbSession.transport = w.gdbSession.transport := by
  cases action <;> simp [perform]

theorem performs_transport (w : World) (actions : List Server.Action) :
    (w.performs actions).gdbSession.transport = w.gdbSession.transport :=
  performs_unchanged (·.gdbSession.transport) perform_transport w actions

theorem performs_lock (w : World) (actions : List Server.Action) :
    (w.performs actions).gdbSession.lock = w.gdbSession.lock :=
  performs_unchanged (·.gdbSession.lock) (fun _ action => by cases action <;> simp [perform]) w
    actions

theorem performs_pTarget (w : World) (actions : List Server.Action) :
    (w.performs actions).gdbSession.pTarget = w.gdbSession.pTarget :=
  performs_unchanged (·.gdbSession.pTarget) (fun _ action => by cases action <;> simp [perform]) w
    actions

theorem performs_noAckMode (w : World) (actions : List Server.Action) :
    (w.performs actions).gdbSession.properties.noAckMode = w.gdbSession.properties.noAckMode :=
  performs_unchanged (·.gdbSession.properties.noAckMode)
    (fun _ action => by cases action <;> simp [perform]) w actions

@[simp] theorem sendReplies_withOutput (w : World) (p : GdbPacket) (replies : List (List UInt8)) :
    (w.withOutput p).sendReplies replies = (w.sendReplies replies).withOutput p :=
  performs_withOutput w p _

theorem sendReplies_append (w : World) (xs ys : List (List UInt8)) :
    w.sendReplies (xs ++ ys) = (w.sendReplies xs).sendReplies ys := by
  rw [sendReplies, List.map_append, performs_append]
  rfl

end World

theorem run_record_consumed (length : ℕ) (w : World) :
    (record (.consumed length)).run w = .ok () (w.perform (.consumed length)) := rfl

namespace Server

/-- A routine that is run on a flushed output packet sends these replies, or trips an assertion
before the first of them. -/
def Replies (x : Routine Unit) (w : World) (r : Except String (List (List UInt8))) : Prop :=
  ∃ o : GdbPacket,
    match r with
    | .ok replies =>
      o.state = .sent ∧ 0 < o.length ∧ x.run w = .ok () ((w.sendReplies replies).withOutput o)
    | .error e => x.run w = .error e (w.withOutput o)

theorem replies_gdbReply {w : World} (h : Flushed w) (reply : CString)
    (hl : reply.chars.length ≤ 2043) : Replies (gdbReply reply) w (.ok [reply.chars]) :=
  run_gdbReply h.ready reply hl

theorem Replies.seq {x y : Routine Unit} {w : World} {xs ys : List (List UInt8)}
    (hcb : w.gdbSession.pWriteCb ≠ none) (hx : Replies x w (.ok xs))
    (hy : ∀ w', Flushed w' → Replies y w' (.ok ys)) :
    Replies (do x; y) w (.ok (xs ++ ys)) := by
  obtain ⟨o, hs, hl, hrun⟩ := hx
  obtain ⟨o', hs', hl', hrun'⟩ := hy ((w.sendReplies xs).withOutput o)
    ⟨by simpa [World.sendReplies] using hcb, hs, hl⟩
  refine ⟨o', hs', hl', ?_⟩
  rw [run_bind_of_ok hrun, hrun', World.sendReplies_append]
  simp

/-- Work on the output packet does not change what is sent later. -/
theorem Replies.after_output {x y : Routine Unit} {w : World} {p : GdbPacket}
    {r : Except String (List (List UInt8))} (hx : x.run w = .ok () (w.withOutput p))
    (hy : Replies y (w.withOutput p) r) : Replies (do x; y) w r := by
  cases r with
  | ok replies =>
    obtain ⟨o, hs, hl, hrun⟩ := hy
    refine ⟨o, hs, hl, ?_⟩
    rw [run_bind_of_ok hx, hrun]
    simp
  | error e =>
    obtain ⟨o, hrun⟩ := hy
    exact ⟨o, by rw [run_bind_of_ok hx, hrun]; rfl⟩

/-- A routine that writes a text as hex digits into the packet that is being collected. -/
def Collects (x : Routine Unit) (text : List UInt8) : Prop :=
  ∀ (w : World) (before : List UInt8), Collecting (hexOf before) w.gdbSession.outputPacket →
    ∃ q, x.run w = .ok () (w.withOutput q) ∧ Collecting (hexOf (before ++ text)) q

/-- A routine that writes the rest of a text and sends the packet. -/
def Finishes (x : Routine Unit) (text : List UInt8) : Prop :=
  ∀ (w : World) (before : List UInt8), w.gdbSession.pWriteCb ≠ none →
    Collecting (hexOf before) w.gdbSession.outputPacket → Replies x w (hexReply (before ++ text))

theorem collects_writeOutputAsHex (s : CString) : Collects (writeOutputAsHex s) s.chars := by
  intro w before h
  obtain ⟨q, hq, hcollect⟩ := writePayloadAsHex_collecting h s
  exact ⟨q, run_writeOutput hq, by rwa [hexOf_append]⟩

theorem Collects.seq {x y : Routine Unit} {s t : List UInt8} (hx : Collects x s)
    (hy : Collects y t) : Collects (do x; y) (s ++ t) := by
  intro w before h
  obtain ⟨p, hp, hcollect⟩ := hx w before h
  obtain ⟨q, hq, hdone⟩ := hy (w.withOutput p) (before ++ s) hcollect
  exact ⟨q, by rw [run_bind_of_ok hp, hq]; rfl, by rwa [← List.append_assoc]⟩

theorem collects_forM {α : Type} (l : List α) {f : α → Routine Unit} {g : α → List UInt8}
    (h : ∀ a, Collects (f a) (g a)) : Collects (l.forM f) (l.flatMap g) := by
  induction l with
  | nil => exact fun w before hc => ⟨w.gdbSession.outputPacket, rfl, by simpa using hc⟩
  | cons a l ih => exact (h a).seq ih

theorem Collects.finishes {x y : Routine Unit} {s t : List UInt8} (hx : Collects x s)
    (hy : Finishes y t) : Finishes (do x; y) (s ++ t) := by
  intro w before hcb h
  obtain ⟨p, hp, hcollect⟩ := hx w before h
  have hrest := hy (w.withOutput p) (before ++ s) hcb hcollect
  rw [← List.append_assoc]
  exact Replies.after_output hp hrest

theorem finishes_writeStop :
    Finishes (do writeOutput gdbPacketWriteStop; gdbSessionFlush) [] := by
  intro w before hcb h
  obtain ⟨q, hq, hwritten⟩ := writeStop_written h
  have hflush := run_flush_written hcb hwritten
  rw [length_hexOf before] at hflush
  rw [List.append_nil, hexReply]
  apply Replies.after_output (run_writeOutput hq)
  split_ifs at hflush ⊢ with hl
  · obtain ⟨o, hs, hpos, hrun⟩ := hflush
    exact ⟨o, hs, hpos, by rw [hrun]; simp [World.sendReplies, World.performs, World.perform]⟩
  · exact ⟨q, hflush⟩

theorem Finishes.replies {x : Routine Unit} {text : List UInt8} (hx : Finishes x text)
    {w : World} (h : Flushed w) :
    Replies (do writeOutput gdbPacketWriteStart; x) w (hexReply text) := by
  obtain ⟨q, hq, hcollect⟩ := writeStart_collecting h.ready.writable
  exact Replies.after_output (run_writeOutput hq) (hx (w.withOutput q) [] h.callback hcollect)

theorem replies_help {w : World} (h : Flushed w) (argc : ℕ) (argv : List (List UInt8)) :
    Replies (gdbQueryRemoteHelp argc argv) w (hexReply helpText) := by
  have htexts := collects_forM gQueryRemoteTexts fun text : CString × CString =>
    (collects_writeOutputAsHex text.1).seq ((collects_writeOutputAsHex (.lit ": ")).seq
      ((collects_writeOutputAsHex text.2).seq (collects_writeOutputAsHex (.lit "\n"))))
  have hfinish := (collects_writeOutputAsHex (.lit "Supported monitor commands:\n\n")).finishes
    (htexts.finishes finishes_writeStop)
  rw [List.append_nil] at hfinish
  have hreply := hfinish.replies h
  simp only [CString.lit] at hreply
  rw [gdbQueryRemoteHelp, helpText]
  simp only [CString.lit, List.append_assoc]
  exact hreply

theorem replies_version {w : World} (h : Flushed w) (build : Build) (argc : ℕ)
    (argv : List (List UInt8)) :
    Replies (gdbQueryRemoteVersion build argc argv) w (hexReply (versionText build)) := by
  have hfinish := (collects_writeOutputAsHex (.lit "Version: ")).finishes
    ((collects_writeOutputAsHex build.version).finishes
      ((collects_writeOutputAsHex (.lit "-")).finishes
        ((collects_writeOutputAsHex build.commitHash).finishes
          ((collects_writeOutputAsHex (.lit "\n")).finishes finishes_writeStop))))
  rw [List.append_nil] at hfinish
  rw [gdbQueryRemoteVersion, versionText]
  simpa only [CString.lit, List.append_assoc] using hfinish.replies h

end Server
end NetBmp
