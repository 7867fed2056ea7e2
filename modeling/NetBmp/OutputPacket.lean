import NetBmp.Answers

/-!
# The protocol of the output packet

All replies share one packet, which is started, filled, stopped and flushed in this order. Between
two calls it has been initialized or sent. If the strings of the build fit, no call of
`gdb_session_handle` trips an assertion about it.
-/

namespace NetBmp
namespace OutputPacket

open Hex Halting Server Answers

/-- The output packet is not in use. -/
def Settled (w : World) : Prop :=
  w.gdbSession.outputPacket.state = .init ∨ w.gdbSession.outputPacket.state = .sent

def outputAssertions : List String :=
  ["Complete packet was not sent yet.", "Invalid packet state.", "Unsupported character.",
    "Packet not complete.", "Offset exceeds buffer length.",
    "Incomplete packet cannot have been sent."]

def inputAssertions : List String :=
  ["Invalid hex nibble.", "Target buffer length exceeded.", "Invalid input length.",
    "GDB packet start delimiter is invalid in commands names."]

theorem not_outputAssertion {e : String} (h : e ∈ inputAssertions) : e ∉ outputAssertions := by
  have hall : ∀ e ∈ inputAssertions, e ∉ outputAssertions := by decide
  exact hall e h

theorem hexReply_of_fits {text : List UInt8} (h : 2 * text.length ≤ 2043) :
    hexReply text = .ok [hexOf text] := if_pos h

theorem monitor_eq_error_of_fits {build : Build}
    (hfits : build.version.chars.length + build.commitHash.chars.length ≤ 1010)
    {args : List (List UInt8)} {e : String} (h : monitor build args = .error e) :
    e = "GDB packet start delimiter is invalid in commands names." := by
  have hhelp : 2 * helpText.length ≤ 2043 := by decide +kernel
  have hversion : 2 * (versionText build).length ≤ 2043 := by
    rw [length_versionText]
    omega
  cases args with
  | nil => cases h
  | cons command args =>
    rw [monitor, hexReply_of_fits hhelp, hexReply_of_fits hversion] at h
    split_ifs at h
    exact (Except.error.inj h).symm

theorem respond_eq_error_of_fits {build : Build}
    (hfits : build.version.chars.length + build.commitHash.chars.length ≤ 1010)
    {target : Option ℕ} {stored : List UInt8} {e : String}
    (h : respond build target stored = .error e) : e ∈ inputAssertions := by
  rw [respond] at h
  split_ifs at h
  rw [query] at h
  split_ifs at h
  rcases bind_eq_error h with hdecode | ⟨message, -, hmonitor⟩
  · have hmessages := strFromHex_eq_error hdecode
    simp only [List.mem_cons, List.not_mem_nil, or_false] at hmessages
    rcases hmessages with rfl | rfl | rfl <;> decide
  · rw [monitor_eq_error_of_fits hfits hmonitor]
    decide

theorem answer_eq_error_of_fits {build : Build}
    (hfits : build.version.chars.length + build.commitHash.chars.length ≤ 1010)
    {target : Option ℕ} {input : List UInt8} {actions : List Action} {e : String}
    (h : answer build target input = (actions, .error e)) : e ∈ inputAssertions := by
  rcases answer_eq_error h with rfl | ⟨stored, hr⟩
  · decide
  · exact respond_eq_error_of_fits hfits hr

theorem settled_handle {build : Build} {w w' : World} {input : List UInt8} {k : ℕ}
    (h : Serving w) (hsettled : Settled w)
    (hrun : (gdbSessionHandle build input).run w = .ok k w') : Settled w' := by
  obtain ⟨q, o, ho⟩ := run_gdbSessionHandle h.toReady h.active h.acks build input
  rcases ha : answer build w.gdbSession.pTarget input with ⟨actions, e | k'⟩
  · rw [ha] at ho
    rw [hrun] at ho
    cases ho
  · rw [ha] at ho
    obtain ⟨hout, hrun'⟩ := ho
    rw [hrun] at hrun'
    cases hrun'
    rcases hout with hsent | rfl
    · exact Or.inr hsent
    · exact hsettled

/-- The invariant of the output packet between the calls. -/
theorem settled_of_reachable {build : Build} {w : World} (h : Reachable build w) : Settled w := by
  induction h with
  | init writeResults h =>
    cases h
    exact Or.inl rfl
  | lock _ transport writeCb h ih =>
    rw [run_gdbSessionLock] at h
    split_ifs at h
    · cases h
      exact ih
    · cases h
      exact Or.inl rfl
  | handle hw hactive input h ih => exact settled_handle (hw.serving hactive) ih h
  | release _ _ h ih =>
    cases h
    exact ih

/-- No call in an active session trips an assertion about the output packet, and every call
leaves the packet initialized or sent. -/
theorem output_packet_protocol (build : Build)
    (hfits : build.version.chars.length + build.commitHash.chars.length ≤ 1010) {w : World}
    (hr : Reachable build w) (hactive : w.gdbSession.state = .active) (input : List UInt8) :
    (∀ e w', (gdbSessionHandle build input).run w = .error e w' → e ∉ outputAssertions) ∧
      ∀ k w', (gdbSessionHandle build input).run w = .ok k w' → Settled w' := by
  have hserving := hr.serving hactive
  refine ⟨fun e w' hrun => ?_, fun k w' hrun => ?_⟩
  · obtain ⟨actions, ha⟩ := hserving.of_handle_error hrun
    exact not_outputAssertion (answer_eq_error_of_fits hfits ha)
  · exact settled_handle hserving (settled_of_reachable hr) hrun

theorem output_packet_protocol_locked :
    (∀ e w', (gdbSessionHandle .release (bytes "$Z0,0,4#46")).run (.locked fun _ => .abrt) =
        .error e w' → e ∉ outputAssertions) ∧
      ∀ k w', (gdbSessionHandle .release (bytes "$Z0,0,4#46")).run (.locked fun _ => .abrt) =
        .ok k w' → Settled w' :=
  output_packet_protocol .release (by decide) (reachable_locked .release _) rfl _

end OutputPacket
end NetBmp
