import NetBmp.Effects

/-!
# Cutting a stream into chunks

Every chunk is read from a fresh start, so a packet that is cut in two is lost, and its second
part is read as if it stood alone. Cuts make no difference where nothing but Ctrl-C is left open.
-/

namespace NetBmp
namespace Segmentation

open Hex Halting Framing Server SessionStream Serve Effects

theorem continues_of_lock {build : Build} {w₀ w : World} (hr : Reachable build w₀)
    (hlock : (gdbSessionLock .tcpIp .networkGdbWriteCb).run w₀ = .ok true w)
    (hreliable : w.Reliable) : Continues w.gdbSession.pTarget .networkGdbWriteCb w := by
  obtain ⟨-, hactive, -, hcb⟩ := gdbSessionLock_true hlock
  exact ⟨(Reachable.lock hr _ _ hlock).serving hactive, hreliable, rfl, hcb⟩

theorem handle_rest {target : Option ℕ} {writeCb : GdbWriteCb} {w : World}
    (h : Continues target writeCb w) (build : Build) {input : List UInt8}
    (hend : packetEnd input = none) (hdigits : ∀ d ∈ digits .body input, Accepted d) :
    ∃ w', (gdbSessionHandle build input).run w = .ok input.length w' ∧
      Continues target writeCb w' ∧ observed w'.trace = observed w.trace := by
  obtain ⟨w', hrun, hcontinues, -, htrace⟩ := h.handle_ok (answer_rest build target hend hdigits)
  refine ⟨w', hrun, hcontinues, ?_⟩
  rw [htrace, observed_append]
  exact List.append_nil _

theorem handle_packet {target : Option ℕ} {w : World}
    (h : Continues target .networkGdbWriteCb w) {build : Build} {input : List UInt8} {n : ℕ}
    (hend : packetEnd input = some n) (hharmless : HarmlessPacket build target (input.take n)) :
    ∃ w', (gdbSessionHandle build input).run w = .ok n w' ∧
      Continues target .networkGdbWriteCb w' ∧ w'.networkErr = .ok ∧
      observed w'.trace = observed w.trace ++
        packetEvents build target .networkGdbWriteCb (input.take n) := by
  obtain ⟨w', hrun, hcontinues, ⟨i, o, rfl⟩, htrace⟩ :=
    h.handle_ok (answer_packet hend hharmless)
  refine ⟨_, hrun, hcontinues, ?_, ?_⟩
  · obtain ⟨data, rest, hsend⟩ := packetActions_eq build target (input.take n)
    exact performs_networkErr h.writeCb_eq (calm_of_reliable h.reliable _ _)
      (Or.inl ⟨data, by simp [hsend]⟩)
  · have hevents : (Action.handle input :: packetActions build target (input.take n) ++
        [Action.consumed n]).map (Action.event .networkGdbWriteCb) =
        .handle input :: packetEvents build target .networkGdbWriteCb (input.take n) ++
          [.consumed n] := by
      simp only [List.map_append, List.map_cons]
      rfl
    have hobserved : observed (.handle input :: packetEvents build target .networkGdbWriteCb
        (input.take n) ++ [.consumed n]) =
        packetEvents build target .networkGdbWriteCb (input.take n) := by
      rw [observed_append]
      exact (List.append_nil _).trans (observed_packetEvents build target _ _)
    rw [htrace, hevents, observed_append, hobserved]

theorem handle_trips {target : Option ℕ} {writeCb : GdbWriteCb} {w : World}
    (h : Continues target writeCb w) (build : Build) {input : List UInt8}
    (hharm : ¬((∀ d ∈ digits .body input, Accepted d) ∧
      ∀ n, packetEnd input = some n → HarmlessPacket build target (input.take n))) :
    ∃ e w', (gdbSessionHandle build input).run w = .error e w' := by
  match ha : answer build target input with
  | (actions, .ok k) => exact absurd (harmless_of_answer ha) hharm
  | (actions, .error e) =>
    obtain ⟨w', hrun, -⟩ := h.toServing.handle_error (h.target_eq.symm ▸ ha)
    exact ⟨e, w', hrun⟩

/-- What a loop over `input` has to do: execute and answer the packets, and nothing else. -/
structure Served (build : Build) (target : Option ℕ) (input : List UInt8) (w w' : World) :
    Prop where
  harmless : Harmless build target input
  continues : Continues target .networkGdbWriteCb w'
  observed_eq : observed w'.trace = observed w.trace ++
    (packetFramer.frames input).1.flatMap (packetEvents build target .networkGdbWriteCb)

/-- The loop serves its data, or it trips an assertion and the data are to blame. -/
def LoopServes (build : Build) (target : Option ℕ) (input : List UInt8) (w : World)
    (r : EStateM.Result String World ErrT) : Prop :=
  (∃ w', r = .ok .ok w' ∧ Served build target input w w') ∨
    (¬Harmless build target input ∧ ∃ e w', r = .error e w')

theorem run_loop_rest (build : Build) {target : Option ℕ} {input data : List UInt8} {total : ℕ}
    {w : World} (hend : packetEnd input = none) (hinput : data.drop total = input)
    (hle : total ≤ data.length) (h : Continues target .networkGdbWriteCb w) :
    LoopServes build target input w ((networkServeGdbLoop build data total).run w) := by
  have hharmless := harmless_of_none build target hend
  have hframes := packetFramer.frames_of_none hend
  rcases Nat.eq_or_lt_of_le hle with hdone | hlt
  · have hnil : input = [] := by rw [← hinput, hdone, List.drop_length]
    refine Or.inl ⟨w, run_loop_done build hdone w, ?_, h, by simp [hframes]⟩
    rw [hharmless, hnil]
    simp [digits]
  by_cases hdigits : ∀ d ∈ digits .body input, Accepted d
  · obtain ⟨w₁, hrun, hcontinues, hobserved⟩ := handle_rest h build hend hdigits
    rw [← hinput] at hrun
    have hlength : (data.drop total).length = data.length - total := List.length_drop
    have hactive : w₁.gdbSession.state ≠ .aborted := by simp [hcontinues.active]
    refine Or.inl ⟨w₁, ?_, hharmless.mpr hdigits, hcontinues, by simpa [hframes] using hobserved⟩
    rw [run_loop_ok hlt hrun (by omega), run_loop_done build (by omega), if_neg hactive, ite_self]
  · obtain ⟨e, w₁, hrun⟩ := handle_trips h build fun hh => hdigits hh.1
    rw [← hinput] at hrun
    exact Or.inr ⟨fun hh => hdigits (hharmless.mp hh), e, w₁, run_loop_error hlt hrun⟩

/-- The loop over all packets, by induction on the packets. -/
theorem run_loop (build : Build) {target : Option ℕ} (input : List UInt8) :
    ∀ {data : List UInt8} {total : ℕ} {w : World},
      data.drop total = input → total ≤ data.length → Continues target .networkGdbWriteCb w →
      LoopServes build target input w ((networkServeGdbLoop build data total).run w) := by
  induction input using Framer.frames.induct packetFramer with
  | case1 input hend => exact fun hinput hle h => run_loop_rest build hend hinput hle h
  | case2 input n hend ih =>
    intro data total w hinput hle h
    have hharmless := harmless_of_some build target hend
    have hframes := packetFramer.frames_of_some hend
    have hn := packetFramer.frameEnd_pos hend
    have hnle := packetFramer.frameEnd_le hend
    rw [← hinput, List.length_drop] at hnle
    have hlt : total < data.length := by omega
    by_cases hpacket : HarmlessPacket build target (input.take n)
    · obtain ⟨w₁, hrun, hcontinues, herr, hobserved⟩ := handle_packet h hend hpacket
      rw [← hinput] at hrun
      have hdrop : data.drop (total + n) = input.drop n := by
        rw [← hinput, List.drop_drop]
      have hnext : (networkServeGdbLoop build data total).run w =
          (networkServeGdbLoop build data (total + n)).run w₁ := by
        have hactive : w₁.gdbSession.state ≠ .aborted := by simp [hcontinues.active]
        rw [run_loop_ok hlt hrun hn.ne', if_neg (not_not.mpr herr), if_neg hactive]
      rcases ih hdrop (by omega) hcontinues with ⟨w', hrest, hserved⟩ | ⟨hharm, e, w', hrest⟩
      · refine Or.inl ⟨w', hnext.trans hrest, hharmless.mpr ⟨hpacket, hserved.harmless⟩,
          hserved.continues, ?_⟩
        rw [hserved.observed_eq, hobserved, hframes, List.flatMap_cons, List.append_assoc]
      · exact Or.inr ⟨fun hh => hharm (hharmless.mp hh).2, e, w', hnext.trans hrest⟩
    · obtain ⟨e, w₁, hrun⟩ := handle_trips h build fun hh => hpacket (hh.2 n hend)
      rw [← hinput] at hrun
      exact Or.inr ⟨fun hh => hpacket (hharmless.mp hh).1, e, w₁, run_loop_error hlt hrun⟩

structure Chunk where
  bytes : List UInt8
  nonempty : bytes ≠ []
  size_le : bytes.length ≤ 65535

def Chunk.netbuf (chunk : Chunk) : Netbuf := .single chunk.bytes chunk.size_le

/-- A connection on which the chunks are received one after the other. -/
def serveChunks (build : Build) (chunks : List Chunk) : Routine (Option ErrT) :=
  networkServe build (chunks.map fun chunk => .received chunk.netbuf)

/-- The packets that are complete within their chunk. -/
def chunkPackets (chunks : List Chunk) : List (List UInt8) :=
  chunks.flatMap fun chunk => (packetFramer.frames chunk.bytes).1

theorem chunkPackets_cons (chunk : Chunk) (chunks : List Chunk) :
    chunkPackets (chunk :: chunks) = (packetFramer.frames chunk.bytes).1 ++ chunkPackets chunks :=
  rfl

theorem run_serveChunks_cons (build : Build) (chunk : Chunk) (chunks : List Chunk) (w : World) :
    (serveChunks build (chunk :: chunks)).run w =
      (networkServeGdbLoop build chunk.bytes 0 >>= fun err =>
        if err = .ok then serveChunks build chunks else return some err).run w := rfl

theorem run_serveChunks (build : Build) {target : Option ℕ} {chunks : List Chunk} {w w' : World}
    {r : Option ErrT} (h : Continues target .networkGdbWriteCb w)
    (hrun : (serveChunks build chunks).run w = .ok r w') :
    observed w'.trace = observed w.trace ++
      (chunkPackets chunks).flatMap (packetEvents build target .networkGdbWriteCb) := by
  induction chunks generalizing w with
  | nil =>
    cases hrun
    simp [chunkPackets]
  | cons chunk chunks ih =>
    rw [run_serveChunks_cons] at hrun
    rcases run_loop build chunk.bytes rfl (Nat.zero_le _) h with ⟨w₁, hloop, hserved⟩ | ⟨-, e, w₁, hloop⟩
    · rw [run_bind_of_ok hloop, if_pos rfl] at hrun
      rw [ih hserved.continues hrun, hserved.observed_eq, chunkPackets_cons, List.flatMap_append,
        List.append_assoc]
    · rw [run_bind_of_error hloop] at hrun
      cases hrun

theorem serveChunks_ok (build : Build) {target : Option ℕ} {chunks : List Chunk} {w : World}
    (h : Continues target .networkGdbWriteCb w)
    (hharmless : ∀ chunk ∈ chunks, Harmless build target chunk.bytes) :
    ∃ w', (serveChunks build chunks).run w = .ok none w' := by
  induction chunks generalizing w with
  | nil => exact ⟨w, rfl⟩
  | cons chunk chunks ih =>
    rcases run_loop build chunk.bytes rfl (Nat.zero_le _) h with ⟨w₁, hloop, hserved⟩ | ⟨hharm, -⟩
    · obtain ⟨w', hrest⟩ := ih hserved.continues fun c hc => hharmless c (by simp [hc])
      exact ⟨w', by rw [run_serveChunks_cons, run_bind_of_ok hloop, if_pos rfl, hrest]⟩
    · exact absurd (hharmless chunk (by simp)) hharm

/-- Between two packets, Ctrl-C bytes may be read with the next packet or without it. -/
theorem packetEvents_frames_append (build : Build) (target : Option ℕ) (writeCb : GdbWriteCb)
    {j : List UInt8} (h : ∀ c ∈ j, c = GdbPacketChar.ctrlC) (ys : List UInt8) :
    (packetFramer.frames (j ++ ys)).1.flatMap (packetEvents build target writeCb) =
      (packetFramer.frames ys).1.flatMap (packetEvents build target writeCb) := by
  have hend := packetFramer.frameEnd_append_of_after ys (after_ctrlC h)
  cases hys : packetFramer.frameEnd .body ys with
  | none =>
    rw [hys] at hend
    rw [packetFramer.frames_of_none hys, packetFramer.frames_of_none hend]
  | some n =>
    rw [hys] at hend
    have hsame : packetEvents build target writeCb (j ++ ys.take n) =
        packetEvents build target writeCb (ys.take n) := by
      simp only [packetEvents, packetActions, verdict_ctrlC_append h, storedBytes_ctrlC_append h]
    have htake : (j ++ ys).take (n + j.length) = j ++ ys.take n := by
      rw [Nat.add_comm, List.take_length_add_append]
    have hdrop : (j ++ ys).drop (n + j.length) = ys.drop n := by
      rw [Nat.add_comm, List.drop_length_add_append]
    rw [packetFramer.frames_of_some hys, packetFramer.frames_of_some hend, htake, hdrop,
      List.flatMap_cons, List.flatMap_cons, hsame]

/-- Every chunk but the last leaves nothing open but Ctrl-C. -/
def CleanCuts (chunks : List Chunk) : Prop :=
  ∀ chunk ∈ chunks.dropLast, ∀ c ∈ (packetFramer.frames chunk.bytes).2, c = GdbPacketChar.ctrlC

/-- Chunks with clean cuts have the packets of the whole stream. -/
theorem packetEvents_chunkPackets (build : Build) (target : Option ℕ) (writeCb : GdbWriteCb)
    {chunks : List Chunk} (h : CleanCuts chunks) :
    (chunkPackets chunks).flatMap (packetEvents build target writeCb) =
      (packetFramer.frames (chunks.flatMap Chunk.bytes)).1.flatMap
        (packetEvents build target writeCb) := by
  induction chunks with
  | nil => simp [chunkPackets]
  | cons chunk chunks ih =>
    rw [chunkPackets_cons, List.flatMap_cons, List.flatMap_append, packetFramer.frames_append,
      List.flatMap_append]
    cases chunks with
    | nil =>
      have hopen := packetFramer.frames_of_none (packetFramer.frameEnd_frames_snd chunk.bytes)
      simp [chunkPackets, hopen]
    | cons next chunks =>
      have hclean : ∀ c ∈ (packetFramer.frames chunk.bytes).2, c = GdbPacketChar.ctrlC :=
        h chunk (by simp)
      have hrest : CleanCuts (next :: chunks) := fun c hc => h c (by simp [hc])
      rw [ih hrest, packetEvents_frames_append build target writeCb hclean]

/-- The same packets are executed and the same data are written. -/
def SameRun (w w' : World) : Prop :=
  executed w.trace = executed w'.trace ∧ written w.trace = written w'.trace

/-- Two ways of cutting a stream, both with clean cuts, make no difference to what a session
executes and writes. -/
theorem sameRun_of_cleanCuts (build : Build) {w₀ w : World} (hr : Reachable build w₀)
    (hlock : (gdbSessionLock .tcpIp .networkGdbWriteCb).run w₀ = .ok true w)
    (hreliable : w.Reliable) {chunks₁ chunks₂ : List Chunk}
    (hstream : chunks₁.flatMap Chunk.bytes = chunks₂.flatMap Chunk.bytes)
    (hclean₁ : CleanCuts chunks₁) (hclean₂ : CleanCuts chunks₂) {r₁ r₂ : Option ErrT}
    {w₁ w₂ : World} (hrun₁ : (serveChunks build chunks₁).run w = .ok r₁ w₁)
    (hrun₂ : (serveChunks build chunks₂).run w = .ok r₂ w₂) : SameRun w₁ w₂ := by
  have h := continues_of_lock hr hlock hreliable
  have hobserved : observed w₁.trace = observed w₂.trace := by
    rw [run_serveChunks build h hrun₁, run_serveChunks build h hrun₂,
      packetEvents_chunkPackets build _ _ hclean₁, packetEvents_chunkPackets build _ _ hclean₂,
      hstream]
  refine ⟨?_, ?_⟩
  · rw [← executed_observed, hobserved, executed_observed]
  · rw [← written_observed, hobserved, written_observed]

def Chunk.ofFrames (fs : List Frame) (nonempty : fs.flatMap Frame.bytes ≠ [] := by decide)
    (size_le : (fs.flatMap Frame.bytes).length ≤ 65535 := by decide) : Chunk :=
  ⟨fs.flatMap Frame.bytes, nonempty, size_le⟩

theorem sameRun_two_frames :
    ∃ w₁ w₂, (serveChunks .release [.ofFrames [.carrying (bytes "?"), .carrying (bytes "g")]]).run
        (.locked fun _ => .ok) = .ok none w₁ ∧
      (serveChunks .release [.ofFrames [.carrying (bytes "?")],
        .ofFrames [.carrying (bytes "g")]]).run (.locked fun _ => .ok) = .ok none w₂ ∧
      SameRun w₁ w₂ := by
  let first := Chunk.ofFrames [.carrying (bytes "?")]
  let second := Chunk.ofFrames [.carrying (bytes "g")]
  let whole := Chunk.ofFrames [.carrying (bytes "?"), .carrying (bytes "g")]
  have hfirst : Harmless .release none first.bytes :=
    harmless_frames .release none (by decide) (by decide)
  have hsecond : Harmless .release none second.bytes :=
    harmless_frames .release none (by decide) (by decide)
  have hwhole : Harmless .release none whole.bytes :=
    harmless_frames .release none (by decide) (by decide)
  obtain ⟨w₁, hrun₁⟩ := serveChunks_ok .release continues_locked (List.forall_mem_singleton.mpr hwhole)
  obtain ⟨w₂, hrun₂⟩ := serveChunks_ok .release continues_locked
    (List.forall_mem_cons.mpr ⟨hfirst, List.forall_mem_singleton.mpr hsecond⟩)
  have hopen : (packetFramer.frames first.bytes).2 = [] := congrArg Prod.snd (frames_flatMap_bytes _)
  have hclean : CleanCuts [whole] := fun _ h => (by cases h)
  have hclean' : CleanCuts [first, second] :=
    List.forall_mem_singleton.mpr fun c hc => (by rw [hopen] at hc; cases hc)
  obtain ⟨w₀, hr, hlock⟩ := locks_locked .release fun _ => .ok
  have hstream : [whole].flatMap Chunk.bytes = [first, second].flatMap Chunk.bytes := by decide
  exact ⟨w₁, w₂, hrun₁, hrun₂,
    sameRun_of_cleanCuts .release hr hlock (fun _ => rfl) hstream hclean hclean' hrun₁ hrun₂⟩

/-- A frame that is cut in two is not executed. -/
theorem cut_frame_not_executed :
    bytes "$?#3F" = bytes "$?" ++ bytes "#3F" ∧
    ∃ w₁ w₂, (serveChunks .release [⟨bytes "$?#3F", by decide, by decide⟩]).run
        (.locked fun _ => .ok) = .ok none w₁ ∧
      (serveChunks .release [⟨bytes "$?", by decide, by decide⟩,
        ⟨bytes "#3F", by decide, by decide⟩]).run (.locked fun _ => .ok) = .ok none w₂ ∧
      ¬SameRun w₁ w₂ := by
  let whole : Chunk := ⟨bytes "$?#3F", by decide, by decide⟩
  let first : Chunk := ⟨bytes "$?", by decide, by decide⟩
  let second : Chunk := ⟨bytes "#3F", by decide, by decide⟩
  have hwhole : packetFramer.IsFrame whole.bytes := by decide
  have hfirst : packetEnd first.bytes = none := by decide
  have hsecond : packetFramer.IsFrame second.bytes := by decide
  have hharmless : Harmless .release none whole.bytes :=
    harmless_of_isFrame hwhole ⟨by decide +kernel, fun _ => ⟨[bytes "W00"], by decide +kernel⟩⟩
  have hharmless₁ : Harmless .release none first.bytes :=
    (harmless_of_none _ _ hfirst).mpr (by decide +kernel)
  have hharmless₂ : Harmless .release none second.bytes :=
    harmless_of_isFrame hsecond ⟨by decide +kernel, fun h => absurd h (by decide)⟩
  have hpackets : chunkPackets [whole] = [whole.bytes] := by
    rw [chunkPackets_cons, packetFramer.frames_of_isFrame hwhole]
    rfl
  have hpackets' : chunkPackets [first, second] = [second.bytes] := by
    rw [chunkPackets_cons, chunkPackets_cons, packetFramer.frames_of_none hfirst,
      packetFramer.frames_of_isFrame hsecond]
    rfl
  obtain ⟨w₁, hrun₁⟩ := serveChunks_ok .release continues_locked
    (List.forall_mem_singleton.mpr hharmless)
  obtain ⟨w₂, hrun₂⟩ := serveChunks_ok .release continues_locked
    (List.forall_mem_cons.mpr ⟨hharmless₁, List.forall_mem_singleton.mpr hharmless₂⟩)
  refine ⟨by decide, w₁, w₂, hrun₁, hrun₂, fun hsame => ?_⟩
  have hexecuted := hsame.1
  rw [← executed_observed w₁.trace, ← executed_observed w₂.trace,
    run_serveChunks .release continues_locked hrun₁, run_serveChunks .release continues_locked hrun₂,
    hpackets, hpackets'] at hexecuted
  exact absurd hexecuted (by decide +kernel)

end Segmentation
end NetBmp
