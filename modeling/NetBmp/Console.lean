import NetBmp.Answers
import NetBmp.HexRoundTrip
import NetBmp.Segmentation

/-!
# The monitor console from end to end

A command that is sent as hex digits is read, decoded, split and dispatched, and its reply is encoded
and framed. Whoever reads and decodes the reply with the same functions has the text of the
subcommand.
-/

namespace NetBmp
namespace Console

open Hex Halting Framing Server SessionStream Serve Segmentation Answers
open HexRoundTrip

/-- A command for the monitor: any correct frame whose payload spells its text, with digits of either
case. -/
structure Request where
  text : List UInt8
  hexDigits : List UInt8
  token : List UInt8
  frame : Frame
  spells : Encodes hexDigits text
  payload_eq : frame.payload = bytes "qRcmd," ++ hexDigits
  correct : frame.Correct
  length_le : text.length ≤ 255
  no_nul : 0 ∉ text
  first : firstToken text = some token
  no_start : token.headD 0 ≠ GdbPacketChar.start

namespace Request

variable (r : Request)

theorem length_payload : r.frame.payload.length ≤ 2043 := by
  have hname : (bytes "qRcmd,").length = 6 := by decide
  have hdigits := r.spells.decodes.1
  have hlength := r.length_le
  rw [r.payload_eq, List.length_append, hname]
  omega

/-- The text that a request is answered with. -/
def answer (build : Build) : List UInt8 :=
  if bytes "help" <+: r.token then helpText
  else if bytes "version" <+: r.token then versionText build
  else []

def reply (build : Build) : List UInt8 := wire (hexOf (r.answer build)) ++ [0]

end Request

/-- The strings of the build that fit into the reply to the command `version`. -/
def Fits (build : Build) : Prop :=
  build.version.chars.length + build.commitHash.chars.length ≤ 1010

instance (build : Build) : Decidable (Fits build) := by unfold Fits; infer_instance

variable {build : Build}

theorem length_answer (h : Fits build) (r : Request) : 2 * (r.answer build).length ≤ 2043 := by
  have hhelp : helpText.length ≤ 1021 := by decide +kernel
  have hversion := length_versionText build
  unfold Fits at h
  unfold Request.answer
  split_ifs
  · omega
  · omega
  · exact Nat.zero_le _

theorem respond_request (h : Fits build) (target : Option ℕ) (r : Request) :
    respond build target (r.frame.bytes ++ [0]) = .ok [hexOf (r.answer build)] := by
  obtain ⟨args, hrespond, hhead⟩ :=
    respond_remote build target r.frame r.payload_eq r.spells r.no_nul r.length_le
  rw [r.first] at hhead
  obtain ⟨rest, rfl⟩ : ∃ rest, args = r.token :: rest := by
    cases args with
    | nil => cases hhead
    | cons token rest =>
      cases hhead
      exact ⟨rest, rfl⟩
  have hlength := length_answer h r
  rw [hrespond, monitor, if_neg r.no_start]
  unfold Request.answer at hlength ⊢
  split_ifs with hhelp hversion
  · rw [if_pos hhelp] at hlength
    rw [hexReply, if_pos hlength]
  · rw [if_neg hhelp, if_pos hversion] at hlength
    rw [hexReply, if_pos hlength]
  · rfl

theorem not_mem_of_special {hs : List UInt8} (h : ∀ d ∈ hs, IsHexDigit d) {c : UInt8}
    (hc : Special c) : c ∉ hs := fun hmem => not_special_of_isHexDigit (h c hmem) hc

/-- The other end: it reads a packet and decodes its payload. -/
def hear (data : List UInt8) : Except String (Option (List UInt8)) := do
  let (result, q, _) ← gdbPacketReadStream .zero data
  if result ≠ .ok then return none
  let hexDigits := (q.stored.drop 1).take (q.stored.length - 5)
  if hexDigits = [] then return some []
  let text ← strFromHex hexDigits hexDigits.length (List.replicate (hexDigits.length / 2 + 1) 0)
  return some (text.take (hexDigits.length / 2))

theorem hear_reply {text : List UInt8} (h : 2 * text.length ≤ 2043) :
    hear (wire (hexOf text) ++ [0]) = .ok (some text) := by
  have hspecial : ∀ {c}, Special c → c ∉ hexOf text := not_mem_of_special (digits_hexOf text)
  let f : Frame := .carrying (hexOf text) (hspecial (Or.inl rfl)) (hspecial (Or.inr (Or.inl rfl)))
    (hspecial (Or.inr (Or.inr rfl)))
  have hlength : f.payload.length = 2 * text.length := length_hexOf text
  have hfits : f.payload.length ≤ 2043 := hlength.trans_le h
  obtain ⟨q, hread, hbuilt⟩ :=
    Frame.readStream_correct .zero (f := f) (Frame.carrying_correct ..) hfits [0]
  have hstored : q.stored = f.bytes ++ [0] := by
    rw [hbuilt.stored, f.storedBytes_bytes hfits]
  have hdigits : (q.stored.drop 1).take (q.stored.length - 5) = hexOf text := by
    have hcount : q.stored.length - 5 = f.payload.length := by
      rw [hstored, List.length_append, f.length_bytes, List.length_singleton]
      omega
    rw [hcount, hstored, drop_one_stored, List.take_left]
    rfl
  change (gdbPacketReadStream .zero (f.bytes ++ [0]) >>= _) = _
  rw [hread, ok_bind]
  simp only [hdigits, ne_eq, not_true_eq_false, ↓reduceIte]
  cases text with
  | nil => rfl
  | cons c cs =>
    have hne : hexOf (c :: cs) ≠ [] := List.cons_ne_nil _ _
    have hhalf : (hexOf (c :: cs)).length / 2 = (c :: cs).length := by
      rw [length_hexOf]
      omega
    have hdecode := strFromHex_decodes [] (List.replicate ((c :: cs).length + 1) 0)
      (length_hexOf (c :: cs)) hhalf (List.length_pos_iff.mpr hne)
      (fun d hd => (digits_hexOf _ d hd).accepted) (by rw [List.length_replicate])
    rw [List.append_nil, decoded_hexOf] at hdecode
    simp only [if_neg hne, hhalf, hdecode, ok_bind, List.take_left]
    rfl

theorem packetActions_request (h : Fits build) (target : Option ℕ) (r : Request) :
    packetActions build target r.frame.bytes = [.send [GdbPacketChar.ack],
      .execute (r.frame.bytes ++ [0]), .send (r.reply build)] := by
  have hok : verdict r.frame.bytes = .ok := by
    rw [r.frame.verdict_bytes r.length_payload, if_pos r.correct]
  rw [packetActions, if_pos hok, r.frame.storedBytes_bytes r.length_payload, respond_request h]
  rfl

theorem harmless_requests (h : Fits build) (target : Option ℕ) (rs : List Request) :
    Harmless build target (rs.flatMap fun r => r.frame.bytes) := by
  have hframes := frames_flatMap_bytes (rs.map Request.frame)
  rw [List.flatMap_map, List.map_map] at hframes
  refine ⟨fun raw hraw => ?_, by simp [hframes, digits]⟩
  rw [hframes] at hraw
  obtain ⟨r, -, rfl⟩ := List.mem_map.mp hraw
  refine ⟨by simpa using r.frame.digits_accepted [], fun _ => ⟨[hexOf (r.answer build)], ?_⟩⟩
  rw [Function.comp_apply, r.frame.storedBytes_bytes r.length_payload, respond_request h]

/-- Chunks that hold whole requests. -/
def Carry (chunks : List Chunk) (groups : List (List Request)) : Prop :=
  chunks.map Chunk.bytes = groups.map fun group => group.flatMap fun r => r.frame.bytes

theorem chunkPackets_of_carry {chunks : List Chunk} {groups : List (List Request)}
    (h : Carry chunks groups) :
    chunkPackets chunks = groups.flatten.map fun r => r.frame.bytes := by
  have hpackets : ∀ group : List Request,
      (packetFramer.frames (group.flatMap fun r => r.frame.bytes)).1 =
        group.map fun r => r.frame.bytes := fun group => by
    have hframes := frames_flatMap_bytes (group.map Request.frame)
    rw [List.flatMap_map, List.map_map] at hframes
    rw [hframes]
    rfl
  have hchunks : chunkPackets chunks =
      (chunks.map Chunk.bytes).flatMap fun bytes => (packetFramer.frames bytes).1 := by
    rw [List.flatMap_map]
    rfl
  rw [hchunks, h, List.flatMap_map, List.map_flatten]
  exact congrArg List.flatten (List.map_congr_left fun group _ => hpackets group)

def dialogue (build : Build) (rs : List Request) : List (List UInt8) :=
  rs.flatMap fun r => [[GdbPacketChar.ack], r.reply build]

theorem written_requests (h : Fits build) (target : Option ℕ) (rs : List Request) :
    written ((rs.map fun r => r.frame.bytes).flatMap
      (packetEvents build target .networkGdbWriteCb)) = dialogue build rs := by
  induction rs with
  | nil => rfl
  | cons r rs ih =>
    have hfirst : written (packetEvents build target .networkGdbWriteCb r.frame.bytes) =
        [[GdbPacketChar.ack], r.reply build] := by
      rw [packetEvents, packetActions_request h]
      rfl
    rw [List.map_cons, List.flatMap_cons, written, List.filterMap_append]
    exact congrArg₂ (· ++ ·) hfirst ih

end Console
end NetBmp
