import NetBmp.Network
import NetBmp.SessionStream

/-!
# What one receive does

`network_serve_gdb` hands the packets of its data to the session one by one. What is left
unfinished at the end of the data is read and forgotten.
-/

namespace NetBmp
namespace Serve

open Hex Halting Framing Server SessionStream

theorem run_loop_done (build : Build) {data : List UInt8} {total : ℕ} (h : total = data.length)
    (w : World) : (networkServeGdbLoop build data total).run w = .ok .ok w := by
  rw [networkServeGdbLoop, dif_pos h]
  rfl

theorem run_loop_step {build : Build} {data : List UInt8} {total k : ℕ} (h : total < data.length)
    {w w' : World} (hrun : (gdbSessionHandle build (data.drop total)).run w = .ok k w') :
    (networkServeGdbLoop build data total).run w =
      if w'.networkErr ≠ .ok then .ok .ok w'
      else if w'.gdbSession.state = .aborted then .ok .abrt w'
      else if k = 0 then .error "No data consumed." w'
      else (networkServeGdbLoop build data (total + k)).run w' := by
  rw [networkServeGdbLoop, dif_neg h.ne, dif_pos h.le, run_bind_of_ok hrun]
  by_cases herr : w'.networkErr = .ok
  · by_cases hstate : w'.gdbSession.state = .aborted
    · simp [herr, hstate, gdbSessionGetState]
    · by_cases hk : k = 0 <;> simp [herr, hstate, gdbSessionGetState, hk]
  · simp [herr]

theorem run_loop_ok {build : Build} {data : List UInt8} {total k : ℕ} (h : total < data.length)
    {w w' : World} (hrun : (gdbSessionHandle build (data.drop total)).run w = .ok k w')
    (hk : k ≠ 0) :
    (networkServeGdbLoop build data total).run w =
      if w'.networkErr ≠ .ok then .ok .ok w'
      else if w'.gdbSession.state = .aborted then .ok .abrt w'
      else (networkServeGdbLoop build data (total + k)).run w' := by
  rw [run_loop_step h hrun, if_neg hk]

theorem run_loop_error {build : Build} {data : List UInt8} {total : ℕ} (h : total < data.length)
    {w w' : World} {e : String}
    (hrun : (gdbSessionHandle build (data.drop total)).run w = .error e w') :
    (networkServeGdbLoop build data total).run w = .error e w' := by
  rw [networkServeGdbLoop, dif_neg h.ne, dif_pos h.le, run_bind_of_error hrun]

/-- What every call that returns preserves holds after the loop. -/
theorem loop_preserves {build : Build} {P : World → Prop}
    (hstep : ∀ {w w' input k}, P w → (gdbSessionHandle build input).run w = .ok k w' → P w')
    {data : List UInt8} {total : ℕ} {w w' : World} {err : ErrT} (h : P w)
    (hrun : (networkServeGdbLoop build data total).run w = .ok err w') : P w' := by
  induction hm : data.length - total using Nat.strong_induction_on generalizing total w with
  | _ m ih =>
    rcases Nat.lt_trichotomy total data.length with hlt | hdone | hover
    · cases hhandle : (gdbSessionHandle build (data.drop total)).run w with
      | error e w₁ =>
        rw [run_loop_error hlt hhandle] at hrun
        cases hrun
      | ok k w₁ =>
        have h₁ := hstep h hhandle
        rw [run_loop_step hlt hhandle] at hrun
        split_ifs at hrun with herr hstate hk
        · cases hrun
          exact h₁
        · cases hrun
          exact h₁
        · exact ih _ (by omega) h₁ hrun rfl
    · rw [run_loop_done build hdone] at hrun
      cases hrun
      exact h
    · rw [networkServeGdbLoop, dif_neg hover.ne', dif_neg (not_le.mpr hover)] at hrun
      cases hrun

theorem networkServe_preserves {build : Build} {P : World → Prop}
    (hstep : ∀ {w w' input k}, P w → (gdbSessionHandle build input).run w = .ok k w' → P w')
    {results : List RecvResult} {w w' : World} {r : Option ErrT} (h : P w)
    (hrun : (networkServe build results).run w = .ok r w') : P w' := by
  induction results generalizing w with
  | nil =>
    cases hrun
    exact h
  | cons result results ih =>
    cases result with
    | failed err herr =>
      cases hrun
      exact h
    | received netbuf =>
      cases hserve : (networkServeGdb build netbuf).run w with
      | error e w₁ =>
        rw [networkServe, run_bind_of_error hserve] at hrun
        cases hrun
      | ok err w₁ =>
        have h₁ : P w₁ := by
          unfold networkServeGdb at hserve
          cases hdata : netbufData netbuf with
          | none =>
            rw [hdata] at hserve
            cases hserve
            exact h
          | some data =>
            rw [hdata] at hserve
            exact loop_preserves hstep h hserve
        rw [networkServe, run_bind_of_ok hserve] at hrun
        split_ifs at hrun
        · exact ih h₁ hrun
        · cases hrun
          exact h₁

/-- A packet that trips no assertion when it is read and executed. -/
structure HarmlessPacket (build : Build) (target : Option ℕ) (raw : List UInt8) : Prop where
  digits : ∀ d ∈ digits .body raw, Accepted d
  command : verdict raw = .ok → ∃ replies, respond build target (storedBytes raw) = .ok replies

/-- Data that trip no assertion: the packets do not, and neither do the digits of what is left
unfinished. -/
structure Harmless (build : Build) (target : Option ℕ) (input : List UInt8) : Prop where
  packets : ∀ raw ∈ (packetFramer.frames input).1, HarmlessPacket build target raw
  rest : ∀ d ∈ digits .body (packetFramer.frames input).2, Accepted d

theorem harmless_of_none {input : List UInt8} (build : Build) (target : Option ℕ)
    (hend : packetEnd input = none) :
    Harmless build target input ↔ ∀ d ∈ digits .body input, Accepted d := by
  have hframes := packetFramer.frames_of_none hend
  exact ⟨fun h => by simpa [hframes] using h.rest,
    fun h => ⟨by simp [hframes], by simpa [hframes] using h⟩⟩

theorem harmless_of_some {input : List UInt8} {n : ℕ} (build : Build) (target : Option ℕ)
    (hend : packetEnd input = some n) :
    Harmless build target input ↔
      HarmlessPacket build target (input.take n) ∧ Harmless build target (input.drop n) := by
  have hframes := packetFramer.frames_of_some hend
  constructor
  · intro h
    refine ⟨h.packets _ (by simp [hframes]), fun raw hraw => h.packets raw (by simp [hframes, hraw]),
      ?_⟩
    simpa [hframes] using h.rest
  · rintro ⟨hfirst, hrest⟩
    refine ⟨fun raw hraw => ?_, by simpa [hframes] using hrest.rest⟩
    rw [hframes] at hraw
    rcases List.mem_cons.mp hraw with rfl | hraw
    · exact hfirst
    · exact hrest.packets raw hraw

theorem harmless_of_isFrame {build : Build} {target : Option ℕ} {raw : List UInt8}
    (hraw : packetFramer.IsFrame raw) (h : HarmlessPacket build target raw) :
    Harmless build target raw := by
  have hframes := packetFramer.frames_of_isFrame hraw
  exact ⟨by simpa [hframes] using h, by simp [hframes, digits]⟩

theorem frames_flatMap_bytes (fs : List Frame) :
    packetFramer.frames (fs.flatMap Frame.bytes) = (fs.map Frame.bytes, []) := by
  have hframes : ∀ f ∈ fs.map Frame.bytes, packetFramer.IsFrame f := by
    intro raw hraw
    obtain ⟨f, -, rfl⟩ := List.mem_map.mp hraw
    exact f.isFrame_bytes
  have h := packetFramer.frames_flatten_append [] hframes
  rwa [packetFramer.frames_nil, List.append_nil, List.append_nil, ← List.flatMap_def] at h

theorem harmless_frames (build : Build) (target : Option ℕ) {fs : List Frame}
    (hlen : ∀ f ∈ fs, f.payload.length ≤ 2043)
    (hremote : ∀ f ∈ fs, ¬bytes "qRcmd," <+: f.payload) :
    Harmless build target (fs.flatMap Frame.bytes) := by
  have hframes := frames_flatMap_bytes fs
  refine ⟨fun raw hraw => ?_, by simp [hframes, digits]⟩
  rw [hframes] at hraw
  obtain ⟨f, hf, rfl⟩ := List.mem_map.mp hraw
  refine ⟨by simpa using f.digits_accepted [], fun _ => ?_⟩
  rw [f.storedBytes_bytes (hlen f hf)]
  apply respond_ok build target
  rw [drop_one_stored, prefix_append_cons_iff (by decide)]
  exact hremote f hf

/-- The sends and executions for a packet. -/
def packetActions (build : Build) (target : Option ℕ) (raw : List UInt8) : List Action :=
  if verdict raw = .ok then
    match respond build target (storedBytes raw) with
    | .ok replies => .send [GdbPacketChar.ack] :: .execute (storedBytes raw) ::
        replies.map fun reply => .send (wire reply ++ [0])
    | .error _ => [.send [GdbPacketChar.ack], .execute (storedBytes raw)]
  else [.send [GdbPacketChar.nack]]

theorem packetActions_eq (build : Build) (target : Option ℕ) (raw : List UInt8) :
    ∃ data actions, packetActions build target raw = .send data :: actions := by
  unfold packetActions
  split_ifs
  · cases respond build target (storedBytes raw) <;> exact ⟨_, _, rfl⟩
  · exact ⟨_, _, rfl⟩

theorem mem_packetActions {build : Build} {target : Option ℕ} {raw : List UInt8} {a : Action}
    (h : a ∈ packetActions build target raw) :
    (∃ data, a = .send data) ∨ ∃ stored, a = .execute stored := by
  unfold packetActions at h
  split_ifs at h
  · cases hr : respond build target (storedBytes raw) with
    | ok replies =>
      rw [hr] at h
      rcases List.mem_cons.mp h with rfl | h
      · exact Or.inl ⟨_, rfl⟩
      rcases List.mem_cons.mp h with rfl | h
      · exact Or.inr ⟨_, rfl⟩
      obtain ⟨reply, -, rfl⟩ := List.mem_map.mp h
      exact Or.inl ⟨_, rfl⟩
    | error _ =>
      rw [hr] at h
      rcases List.mem_pair.mp h with rfl | rfl
      · exact Or.inl ⟨_, rfl⟩
      · exact Or.inr ⟨_, rfl⟩
  · exact Or.inl ⟨_, List.mem_singleton.mp h⟩

theorem answer_packet {build : Build} {target : Option ℕ} {input : List UInt8} {n : ℕ}
    (hend : packetEnd input = some n) (h : HarmlessPacket build target (input.take n)) :
    answer build target input =
      (.handle input :: packetActions build target (input.take n) ++ [.consumed n], .ok n) := by
  have hdigits : ¬∃ d ∈ digits .body input, ¬Accepted d := by
    push Not
    rw [← (scan_take hend).2.1]
    exact h.digits
  rw [answer, if_neg hdigits, hend, packetActions]
  by_cases hok : verdict (input.take n) = .ok
  · obtain ⟨replies, hr⟩ := h.command hok
    simp only [hok, hr, ↓reduceIte, List.cons_append]
  · simp only [hok, ↓reduceIte, List.cons_append, List.nil_append]

theorem answer_rest {input : List UInt8} (build : Build) (target : Option ℕ)
    (hend : packetEnd input = none) (h : ∀ d ∈ digits .body input, Accepted d) :
    answer build target input = ([.handle input, .consumed input.length], .ok input.length) := by
  rw [answer, if_neg (by push Not; exact h), hend]

/-- A call that returns has met only bytes and commands that trip no assertion. -/
theorem harmless_of_answer {build : Build} {target : Option ℕ} {input : List UInt8}
    {actions : List Action} {k : ℕ} (h : answer build target input = (actions, .ok k)) :
    (∀ d ∈ digits .body input, Accepted d) ∧
      ∀ n, packetEnd input = some n → HarmlessPacket build target (input.take n) := by
  have hdigits : ∀ d ∈ digits .body input, Accepted d := by
    by_contra hbad
    push Not at hbad
    rw [answer, if_pos hbad] at h
    cases h
  rw [answer, if_neg (by push Not; exact hdigits)] at h
  refine ⟨hdigits, fun n hend => ⟨?_, fun hok => ?_⟩⟩
  · rwa [(scan_take hend).2.1]
  · rw [hend] at h
    simp only [hok, ↓reduceIte] at h
    cases hr : respond build target (storedBytes (input.take n)) with
    | ok replies => exact ⟨replies, rfl⟩
    | error e =>
      rw [hr] at h
      cases h

/-- The events of a packet whose writes succeed. -/
def packetEvents (build : Build) (target : Option ℕ) (writeCb : GdbWriteCb)
    (raw : List UInt8) : List Event :=
  (packetActions build target raw).map (·.event writeCb)

/-- Packets that are executed and data that are written. -/
def isObserved : Event → Bool
  | .execute _ | .write _ _ _ => true
  | _ => false

def observed (trace : List Event) : List Event := trace.filter isObserved

theorem observed_append (xs ys : List Event) : observed (xs ++ ys) = observed xs ++ observed ys :=
  List.filter_append ..

theorem written_observed (trace : List Event) : written (observed trace) = written trace := by
  rw [written, observed, List.filterMap_filter]
  refine List.filterMap_congr fun e _ => ?_
  cases e <;> rfl

theorem executed_observed (trace : List Event) : executed (observed trace) = executed trace := by
  rw [executed, observed, List.filterMap_filter]
  refine List.filterMap_congr fun e _ => ?_
  cases e <;> rfl

theorem observed_packetEvents (build : Build) (target : Option ℕ) (writeCb : GdbWriteCb)
    (raw : List UInt8) :
    observed (packetEvents build target writeCb raw) = packetEvents build target writeCb raw := by
  refine List.filter_eq_self.mpr fun e he => ?_
  obtain ⟨action, haction, rfl⟩ := List.mem_map.mp he
  rcases mem_packetActions haction with ⟨data, rfl⟩ | ⟨stored, rfl⟩ <;> rfl

end Serve
end NetBmp
