import NetBmp.Segmentation

/-!
# Acknowledgements in front of packets

The reader takes an acknowledgement that comes in together with the next packet for a part of it and
refuses the packet. A client that then sends the packet again has it executed once all the same.
-/

namespace NetBmp
namespace Retransmission

open Hex Halting Framing Server SessionStream Serve Segmentation

/-- A packet, with the acknowledgements that the client sends before it. They may come in together
with the packet. -/
structure Request where
  acks : ℕ
  frame : Frame
  joined : Bool
  correct : frame.Correct
  acks_le : acks ≤ 255
  length_le : acks + frame.payload.length ≤ 2043

/-- Send data, and hear what is written in return. -/
def exchange (build : Build) (netbuf : Netbuf) : Routine (List (List UInt8)) := do
  let before := (written (← get).trace).length
  let _ ← networkServeGdb build netbuf
  return (written (← get).trace).drop before

namespace Request

variable (r : Request)

def acknowledgements : List UInt8 := List.replicate r.acks GdbPacketChar.ack

theorem length_joined : (r.acknowledgements ++ r.frame.bytes).length ≤ 2047 := by
  have hlength := r.length_le
  rw [acknowledgements, List.length_append, List.length_replicate, Frame.length_bytes]
  omega

theorem length_bytes_le : r.frame.bytes.length ≤ 2047 := by
  have hlength := r.length_joined
  rw [List.length_append] at hlength
  omega

def acksAlone : Netbuf := .single r.acknowledgements (by
  have hlength := r.acks_le
  rw [acknowledgements, List.length_replicate]
  omega)

def alone : Netbuf := .single r.frame.bytes (r.length_bytes_le.trans (by decide))

def together : Netbuf :=
  .single (r.acknowledgements ++ r.frame.bytes) (r.length_joined.trans (by decide))

/-- Send a packet until it is not refused, with a number of tries. -/
def deliver (build : Build) : ℕ → Netbuf → Routine Bool
  | 0, _ => return false
  | tries + 1, netbuf => do
    if (← exchange build netbuf).head? = some [GdbPacketChar.nack] then deliver build tries r.alone
    else return true

def send (build : Build) (tries : ℕ) : Routine Bool := do
  if r.joined then r.deliver build tries r.together
  else
    let _ ← exchange build r.acksAlone
    r.deliver build tries r.alone

/-- Whether the packet is refused at first. -/
def Refused : Prop := r.joined = true ∧ r.acks ≠ 0

instance : Decidable r.Refused := by unfold Refused; infer_instance

end Request

/-- The client sends its requests, one after the other. -/
def talk (build : Build) (tries : ℕ) : List Request → Routine Bool
  | [] => return true
  | r :: rs => do
    if ← r.send build tries then talk build tries rs else return false

theorem counted_acknowledgements (k : ℕ) :
    counted .body (List.replicate k GdbPacketChar.ack) = UInt8.ofNat k * GdbPacketChar.ack := by
  induction k with
  | zero => rfl
  | succ k ih =>
    have hfirst : counted .body (GdbPacketChar.ack :: List.replicate k GdbPacketChar.ack) =
        GdbPacketChar.ack + counted .body (List.replicate k GdbPacketChar.ack) := rfl
    rw [List.replicate_succ, hfirst, ih, UInt8.ofNat_add, UInt8.add_mul, UInt8.add_comm]
    rfl

theorem counted_ne_zero {k : ℕ} (hk : k ≠ 0) (hle : k ≤ 255) :
    UInt8.ofNat k * GdbPacketChar.ack ≠ 0 := by
  have hall : ∀ k < 256, k ≠ 0 → UInt8.ofNat k * GdbPacketChar.ack ≠ 0 := by decide +kernel
  exact hall k (by omega) hk

theorem stop_notMem_acknowledgements (r : Request) : GdbPacketChar.stop ∉ r.acknowledgements :=
  fun h => absurd (List.mem_replicate.mp h).2 (by decide)

theorem verdict_joined (r : Request) (hacks : r.acks ≠ 0) :
    verdict (r.acknowledgements ++ r.frame.bytes) = .checksumError := by
  obtain ⟨-, hcounted, -, hreference⟩ :=
    r.frame.packetEnd_append (stop_notMem_acknowledgements r) []
  rw [List.append_nil] at hcounted hreference
  have hkept : (kept (r.acknowledgements ++ r.frame.bytes)).length < gdbPacketMaxBufferLength :=
    Nat.lt_of_le_of_lt ((List.length_filter_le ..).trans r.length_joined) (by decide)
  have hcorrect := r.frame.correct_iff.mp r.correct
  rw [r.frame.reference_bytes, r.frame.counted_bytes] at hcorrect
  have hne : reference 0 .body (r.acknowledgements ++ r.frame.bytes) ≠
      counted .body (r.acknowledgements ++ r.frame.bytes) := by
    rw [hreference, hcounted, hcorrect, Request.acknowledgements, counted_acknowledgements]
    intro hsame
    exact counted_ne_zero hacks r.acks_le (by simpa using hsame)
  exact if_pos ⟨hkept, hne⟩

theorem frames_joined (r : Request) :
    packetFramer.frames (r.acknowledgements ++ r.frame.bytes) =
      ([r.acknowledgements ++ r.frame.bytes], []) := by
  obtain ⟨hend, -⟩ := r.frame.packetEnd_append (stop_notMem_acknowledgements r) []
  rw [List.append_nil] at hend
  exact packetFramer.frames_of_isFrame hend

theorem frames_acknowledgements (r : Request) :
    packetFramer.frames r.acknowledgements = ([], r.acknowledgements) := by
  obtain ⟨hafter, -⟩ := scan_of_no_stop (stop_notMem_acknowledgements r)
  have hend := packetFramer.frameEnd_append_of_after [] hafter
  rw [List.append_nil] at hend
  exact packetFramer.frames_of_none hend

/-- How the client fares: it gets what it has asked for, and the server has handled these packets,
or the server trips an assertion and a packet is to blame. -/
def Fares {α : Type} (build : Build) (target : Option ℕ) (packets : List (List UInt8)) (w : World)
    (P : α → Prop) : EStateM.Result String World α → Prop
  | .ok a w' => P a ∧ (∀ raw ∈ packets, HarmlessPacket build target raw) ∧
      Continues target .networkGdbWriteCb w' ∧
      observed w'.trace = observed w.trace ++
        packets.flatMap (packetEvents build target .networkGdbWriteCb)
  | .error _ _ => ∃ raw ∈ packets, ¬HarmlessPacket build target raw

section

variable {build : Build} {target : Option ℕ} {w : World}

theorem Fares.bind {α β : Type} {x : Routine α} {f : α → Routine β} {xs ys : List (List UInt8)}
    {P : α → Prop} {Q : β → Prop} (hx : Fares build target xs w P (x.run w))
    (hf : ∀ a w₁, P a → Continues target .networkGdbWriteCb w₁ →
      Fares build target ys w₁ Q ((f a).run w₁)) :
    Fares build target (xs ++ ys) w Q ((x >>= f).run w) := by
  cases hrun : x.run w with
  | error e w₁ =>
    rw [hrun] at hx
    obtain ⟨raw, hraw, hharm⟩ := hx
    rw [run_bind_of_error hrun]
    exact ⟨raw, List.mem_append_left _ hraw, hharm⟩
  | ok a w₁ =>
    rw [hrun] at hx
    obtain ⟨hP, hharmless, hcontinues, htrace⟩ := hx
    have hrest := hf a w₁ hP hcontinues
    rw [run_bind_of_ok hrun]
    cases hlast : (f a).run w₁ with
    | error e w' =>
      rw [hlast] at hrest
      obtain ⟨raw, hraw, hharm⟩ := hrest
      exact ⟨raw, List.mem_append_right _ hraw, hharm⟩
    | ok b w' =>
      rw [hlast] at hrest
      obtain ⟨hQ, hharmless', hcontinues', htrace'⟩ := hrest
      refine ⟨hQ, List.forall_mem_append.mpr ⟨hharmless, hharmless'⟩, hcontinues', ?_⟩
      rw [htrace', htrace, List.flatMap_append, List.append_assoc]

def answers (build : Build) (target : Option ℕ) (packets : List (List UInt8)) : List (List UInt8) :=
  written (packets.flatMap (packetEvents build target .networkGdbWriteCb))

theorem fares_exchange (build : Build) (h : Continues target .networkGdbWriteCb w)
    {data rest : List UInt8}
    (hsize : data.length ≤ 65535) {packets : List (List UInt8)}
    (hframes : packetFramer.frames data = (packets, rest))
    (hrest : ∀ d ∈ digits .body rest, Accepted d) :
    Fares build target packets w (· = answers build target packets)
      ((exchange build (.single data hsize)).run w) := by
  have hharmless : Harmless build target data ↔
      ∀ raw ∈ packets, HarmlessPacket build target raw := by
    constructor
    · intro hall
      have hpackets := hall.packets
      rwa [hframes] at hpackets
    · intro hall
      refine ⟨?_, ?_⟩
      · rwa [hframes]
      · rwa [hframes]
  have hstep : (exchange build (.single data hsize)).run w =
      (networkServeGdbLoop build data 0 >>= fun _ => do
        return (written (← get).trace).drop (written w.trace).length).run w := rfl
  rw [hstep]
  rcases run_loop build data rfl (Nat.zero_le _) h with ⟨w', hloop, hserved⟩ | ⟨hharm, e, w', hloop⟩
  · have htrace := hserved.observed_eq
    rw [hframes] at htrace
    have hwritten : written w'.trace = written w.trace ++ answers build target packets := by
      rw [← written_observed, htrace, written, List.filterMap_append]
      exact congrArg (· ++ _) (written_observed w.trace)
    rw [run_bind_of_ok hloop]
    refine ⟨?_, hharmless.mp hserved.harmless, hserved.continues, htrace⟩
    exact (congrArg (List.drop _) hwritten).trans List.drop_left
  · rw [run_bind_of_error hloop]
    by_contra hnone
    exact hharm (hharmless.mpr fun raw hraw => by_contra fun hbad => hnone ⟨raw, hraw, hbad⟩)

theorem Fares.pure {α : Type} {a : α} {P : α → Prop} (h : Continues target .networkGdbWriteCb w)
    (hP : P a) : Fares build target [] w P ((pure a : Routine α).run w) :=
  ⟨hP, List.forall_mem_nil _, h, (List.append_nil _).symm⟩

theorem head?_answers (raw : List UInt8) : (answers build target [raw]).head? =
    some [if verdict raw = .ok then GdbPacketChar.ack else GdbPacketChar.nack] := by
  rw [answers, List.flatMap_singleton, packetEvents, packetActions]
  by_cases hok : verdict raw = .ok
  · rw [if_pos hok, if_pos hok]
    cases respond build target (storedBytes raw) <;> rfl
  · rw [if_neg hok, if_neg hok]
    rfl

namespace Request

variable (r : Request)

theorem verdict_bytes : verdict r.frame.bytes = .ok := by
  have hlength := r.length_le
  rw [r.frame.verdict_bytes (by omega), if_pos r.correct]

def packets : List (List UInt8) :=
  if r.Refused then [r.acknowledgements ++ r.frame.bytes, r.frame.bytes] else [r.frame.bytes]

theorem fares_alone (h : Continues target .networkGdbWriteCb w) (tries : ℕ) :
    Fares build target [r.frame.bytes] w (· = true)
      ((r.deliver build (tries + 1) r.alone).run w) := by
  have hexchange := fares_exchange build h (r.length_bytes_le.trans (by decide))
    (packetFramer.frames_of_isFrame r.frame.isFrame_bytes) (List.forall_mem_nil _)
  change Fares build target ([r.frame.bytes] ++ []) w _ _
  refine hexchange.bind ?_
  rintro _ w₁ rfl hcontinues
  rw [head?_answers, if_pos r.verdict_bytes, if_neg (by decide)]
  exact .pure hcontinues rfl

theorem fares_together (h : Continues target .networkGdbWriteCb w) (hacks : r.acks ≠ 0)
    (tries : ℕ) :
    Fares build target [r.acknowledgements ++ r.frame.bytes, r.frame.bytes] w (· = true)
      ((r.deliver build (tries + 2) r.together).run w) := by
  have hexchange := fares_exchange build h (r.length_joined.trans (by decide))
    (frames_joined r) (List.forall_mem_nil _)
  change Fares build target ([r.acknowledgements ++ r.frame.bytes] ++ [r.frame.bytes]) w _ _
  refine hexchange.bind ?_
  rintro _ w₁ rfl hcontinues
  rw [head?_answers, verdict_joined r hacks, if_pos (by decide)]
  exact r.fares_alone hcontinues tries

theorem fares_apart (h : Continues target .networkGdbWriteCb w) (tries : ℕ) :
    Fares build target [r.frame.bytes] w (· = true)
      ((do
        let _ ← exchange build r.acksAlone
        r.deliver build (tries + 2) r.alone : Routine Bool).run w) := by
  have hsize : r.acknowledgements.length ≤ 65535 := by
    have hlength := r.length_joined
    rw [List.length_append] at hlength
    omega
  have hdigits := (scan_of_no_stop (stop_notMem_acknowledgements r)).2
  have hexchange := fares_exchange build h hsize (frames_acknowledgements r)
    (by simp [hdigits])
  change Fares build target ([] ++ [r.frame.bytes]) w _ _
  exact hexchange.bind fun _ w₁ _ hcontinues => r.fares_alone hcontinues (tries + 1)

theorem fares_send (h : Continues target .networkGdbWriteCb w) (tries : ℕ) :
    Fares build target r.packets w (· = true) ((r.send build (tries + 2)).run w) := by
  unfold send packets
  by_cases hjoined : r.joined = true
  · rw [if_pos hjoined]
    by_cases hacks : r.acks = 0
    · have hsame : r.together = r.alone := by
        simp [together, alone, acknowledgements, hacks]
      rw [if_neg fun hrefused => hrefused.2 hacks, hsame]
      exact r.fares_alone h (tries + 1)
    · rw [if_pos ⟨hjoined, hacks⟩]
      exact r.fares_together h hacks tries
  · rw [if_neg fun hrefused => hjoined hrefused.1, if_neg hjoined]
    exact r.fares_apart h tries

end Request

end

theorem fares_talk (build : Build) {target : Option ℕ} (tries : ℕ) (rs : List Request) {w : World}
    (h : Continues target .networkGdbWriteCb w) :
    Fares build target (rs.flatMap Request.packets) w (· = true)
      ((talk build (tries + 2) rs).run w) := by
  induction rs generalizing w with
  | nil => exact .pure h rfl
  | cons r rs ih =>
    refine (r.fares_send h tries).bind ?_
    rintro _ w₁ rfl hcontinues
    exact ih hcontinues

def Request.heard (build : Build) (target : Option ℕ) (r : Request) : List (List UInt8) :=
  (if r.Refused then [[GdbPacketChar.nack]] else []) ++ answers build target [r.frame.bytes]

/-- Every request has been executed once, as it was sent, in order, and has been answered. -/
def Delivered (build : Build) (rs : List Request) (w : World) :
    EStateM.Result String World Bool → Prop
  | .ok delivered w' => delivered = true ∧
      executed w'.trace = executed w.trace ++ rs.map (fun r => r.frame.bytes ++ [0]) ∧
      written w'.trace = written w.trace ++ rs.flatMap (Request.heard build w.gdbSession.pTarget)
  | .error _ _ => ∃ r ∈ rs, ¬HarmlessPacket build w.gdbSession.pTarget r.frame.bytes

theorem harmless_packets {build : Build} {target : Option ℕ} {r : Request}
    (h : HarmlessPacket build target r.frame.bytes) :
    ∀ raw ∈ r.packets, HarmlessPacket build target raw := by
  unfold Request.packets
  split_ifs with hrefused
  · refine List.forall_mem_cons.mpr ⟨⟨?_, fun hok => ?_⟩, List.forall_mem_singleton.mpr h⟩
    · obtain ⟨-, -, hdigits, -⟩ := r.frame.packetEnd_append (stop_notMem_acknowledgements r) []
      rw [List.append_nil] at hdigits
      simp [hdigits, r.frame.digit₁.accepted, r.frame.digit₂.accepted]
    · rw [verdict_joined r hrefused.2] at hok
      cases hok
  · exact List.forall_mem_singleton.mpr h

theorem packetEvents_joined (build : Build) (target : Option ℕ) {r : Request} (hacks : r.acks ≠ 0) :
    packetEvents build target .networkGdbWriteCb (r.acknowledgements ++ r.frame.bytes) =
      [.write .networkGdbWriteCb [GdbPacketChar.nack] .ok] := by
  rw [packetEvents, packetActions, verdict_joined r hacks, if_neg (by decide)]
  rfl

theorem executed_packets (build : Build) (target : Option ℕ) (r : Request) :
    executed (r.packets.flatMap (packetEvents build target .networkGdbWriteCb)) =
      [r.frame.bytes ++ [0]] := by
  have hlength := r.length_le
  have halone : executed (packetEvents build target .networkGdbWriteCb r.frame.bytes) =
      [r.frame.bytes ++ [0]] := by
    rw [packetEvents, packetActions, if_pos r.verdict_bytes, r.frame.storedBytes_bytes (by omega)]
    cases respond build target (r.frame.bytes ++ [0]) with
    | error e => rfl
    | ok replies =>
      have hreplies : executed ((replies.map fun reply => Action.send (wire reply ++ [0])).map
          (·.event .networkGdbWriteCb)) = [] := by
        rw [executed, List.map_map, List.filterMap_map]
        exact List.filterMap_eq_nil_iff.mpr fun _ _ => rfl
      exact congrArg ((r.frame.bytes ++ [0]) :: ·) hreplies
  unfold Request.packets
  split_ifs with hrefused
  · rw [List.flatMap_cons, packetEvents_joined build target hrefused.2, List.flatMap_singleton]
    exact halone
  · rw [List.flatMap_singleton, halone]

theorem written_packets (build : Build) (target : Option ℕ) (r : Request) :
    written (r.packets.flatMap (packetEvents build target .networkGdbWriteCb)) =
      r.heard build target := by
  unfold Request.packets Request.heard
  split_ifs with hrefused
  · rw [List.flatMap_cons, packetEvents_joined build target hrefused.2]
    rfl
  · rfl

end Retransmission
end NetBmp
