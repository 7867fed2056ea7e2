import NetBmp.Lifetime
import NetBmp.SessionMachine

/-!
# Connections that are cut short

A failed write cuts a connection after the packet that it belongs to. Up to there the packets are
executed and answered as if all was well, and the rest of the chunk is dropped.
-/

namespace NetBmp
namespace Interruption

open Hex Halting Framing Server SessionStream Serve Segmentation Abort Effects Connections Lifetime
open SessionMachine

variable {build : Build} {results : ℕ → ErrT} {w w₁ w' : World}

/-- The executions and the writes for some packets. -/
def actionsFor (build : Build) (packets : List (List UInt8)) : List Action :=
  packets.flatMap (packetActions build none)

def eventsFor (build : Build) (results : ℕ → ErrT) (packets : List (List UInt8)) : List Event :=
  eventsOf .networkGdbWriteCb results (actionsFor build packets)

/-- The results that are left for what comes after some packets. -/
def resultsAfter (build : Build) (results : ℕ → ErrT) (packets : List (List UInt8)) : ℕ → ErrT :=
  fun n => results (n + (sentBy (actionsFor build packets)).length)

/-- All writes for some packets succeed. -/
def Through (build : Build) (results : ℕ → ErrT) (packets : List (List UInt8)) : Prop :=
  ∀ n < (sentBy (actionsFor build packets)).length, results n = .ok

instance (build : Build) (results : ℕ → ErrT) (packets : List (List UInt8)) :
    Decidable (Through build results packets) := by unfold Through; infer_instance

/-- The packets up to the first one for which a write fails. -/
def taken (build : Build) : (ℕ → ErrT) → List (List UInt8) → List (List UInt8)
  | _, [] => []
  | results, raw :: packets =>
    raw :: if Through build results [raw] then taken build (resultsAfter build results [raw]) packets
      else []

theorem eventsOf_append (writeCb : GdbWriteCb) (results : ℕ → ErrT) (xs ys : List Action) :
    eventsOf writeCb results (xs ++ ys) =
      eventsOf writeCb results xs ++ eventsOf writeCb (fun n => results (n + (sentBy xs).length)) ys := by
  induction xs generalizing results with
  | nil => rfl
  | cons action xs ih =>
    cases action with
    | send data =>
      have hlength : (sentBy (.send data :: xs)).length = (sentBy xs).length + 1 := rfl
      simp only [List.cons_append, eventsOf, ih, hlength, Nat.add_assoc]
    | _ => exact congrArg (_ :: ·) (ih results)

theorem actionsFor_append (build : Build) (xs ys : List (List UInt8)) :
    actionsFor build (xs ++ ys) = actionsFor build xs ++ actionsFor build ys :=
  List.flatMap_append

theorem eventsFor_append (build : Build) (results : ℕ → ErrT) (xs ys : List (List UInt8)) :
    eventsFor build results (xs ++ ys) =
      eventsFor build results xs ++ eventsFor build (resultsAfter build results xs) ys := by
  rw [eventsFor, actionsFor_append, eventsOf_append]
  rfl

theorem length_sentBy_append (xs ys : List Action) :
    (sentBy (xs ++ ys)).length = (sentBy xs).length + (sentBy ys).length := by
  rw [sentBy, List.filterMap_append, List.length_append]
  rfl

theorem resultsAfter_append (build : Build) (results : ℕ → ErrT) (xs ys : List (List UInt8)) :
    resultsAfter build results (xs ++ ys) =
      resultsAfter build (resultsAfter build results xs) ys := by
  funext n
  simp only [resultsAfter, actionsFor_append, length_sentBy_append]
  congr 1
  omega

theorem through_nil : Through build results [] := fun n hn => absurd hn (Nat.not_lt_zero n)

theorem through_append {xs ys : List (List UInt8)} :
    Through build results (xs ++ ys) ↔
      Through build results xs ∧ Through build (resultsAfter build results xs) ys := by
  simp only [Through, resultsAfter, actionsFor_append, length_sentBy_append]
  constructor
  · exact fun h => ⟨fun n hn => h n (by omega), fun n hn => h _ (by omega)⟩
  · rintro ⟨hx, hy⟩ n hn
    by_cases hfirst : n < (sentBy (actionsFor build xs)).length
    · exact hx n hfirst
    · have hrest := hy (n - (sentBy (actionsFor build xs)).length) (by omega)
      rwa [Nat.sub_add_cancel (not_lt.mp hfirst)] at hrest

theorem through_cons {raw : List UInt8} {packets : List (List UInt8)} :
    Through build results (raw :: packets) ↔
      Through build results [raw] ∧ Through build (resultsAfter build results [raw]) packets := by
  rw [← List.singleton_append, through_append]

theorem taken_of_through {packets : List (List UInt8)} (h : Through build results packets) :
    taken build results packets = packets := by
  induction packets generalizing results with
  | nil => rfl
  | cons raw packets ih =>
    obtain ⟨hraw, hrest⟩ := through_cons.mp h
    rw [taken, if_pos hraw, ih hrest]

theorem taken_append (xs ys : List (List UInt8)) :
    taken build results (xs ++ ys) =
      if Through build results xs then xs ++ taken build (resultsAfter build results xs) ys
      else taken build results xs := by
  induction xs generalizing results with
  | nil => exact (if_pos through_nil).symm
  | cons raw xs ih =>
    have hsplit : Through build results (raw :: xs) ↔ _ := through_cons
    rw [List.cons_append, taken, taken, ih, ← resultsAfter_append]
    by_cases hraw : Through build results [raw]
    · by_cases hxs : Through build (resultsAfter build results [raw]) xs
      · simp [hsplit, hraw, hxs]
      · simp [hsplit, hraw, hxs]
    · simp [hsplit, hraw]

/-- From one world to another, some packets have been executed and answered. -/
structure After (build : Build) (packets : List (List UInt8)) (w w' : World) : Prop where
  observed_eq : observed w'.trace =
    observed w.trace ++ eventsFor build w.writeResults packets
  writeResults_eq : w'.writeResults = resultsAfter build w.writeResults packets

theorem After.refl (w : World) : After build [] w w := ⟨(List.append_nil _).symm, rfl⟩

theorem After.trans {xs ys : List (List UInt8)} (h : After build xs w w₁)
    (h' : After build ys w₁ w') : After build (xs ++ ys) w w' where
  observed_eq := by
    rw [h'.observed_eq, h.observed_eq, h.writeResults_eq, eventsFor_append, List.append_assoc]
  writeResults_eq := by
    rw [h'.writeResults_eq, h.writeResults_eq, resultsAfter_append]

/-- An active session of the network module, without a target. -/
structure Going (w : World) : Prop extends Attached w where
  target : w.gdbSession.pTarget = none

theorem observed_packetActions (build : Build) (results : ℕ → ErrT) (raw : List UInt8) :
    observed (eventsOf .networkGdbWriteCb results (packetActions build none raw)) =
      eventsOf .networkGdbWriteCb results (packetActions build none raw) := by
  have hactions : ∀ a ∈ packetActions build none raw,
      (∃ data, a = .send data) ∨ ∃ stored, a = .execute stored := fun a ha => mem_packetActions ha
  generalize packetActions build none raw = actions at hactions
  induction actions generalizing results with
  | nil => rfl
  | cons action actions ih =>
    have hrest := fun results => ih results fun a ha => hactions a (List.mem_cons_of_mem _ ha)
    rcases hactions action (List.mem_cons_self ..) with ⟨data, rfl⟩ | ⟨stored, rfl⟩
    · exact congrArg (_ :: ·) (hrest _)
    · exact congrArg (_ :: ·) (hrest _)

theorem After.of_performs (hcb : w.gdbSession.pWriteCb = some .networkGdbWriteCb)
    {actions : List Action} (hagrees : (w.performs actions).Agrees w')
    {packets : List (List UInt8)}
    (hobserved : observed (eventsOf .networkGdbWriteCb w.writeResults actions) =
      eventsFor build w.writeResults packets)
    (hsent : (sentBy actions).length = (sentBy (actionsFor build packets)).length) :
    After build packets w w' := by
  obtain ⟨i, o, rfl⟩ := hagrees
  refine ⟨?_, ?_⟩
  · rw [← hobserved, ← observed_append, ← performs_trace hcb]
    rfl
  · have hresults := performs_writeResults hcb actions
    rw [hsent] at hresults
    exact hresults

theorem Going.of_agrees (h : Going w) {actions : List Action}
    (hagrees : (w.performs actions).Agrees w') (hready : Ready w')
    (hacks : w'.gdbSession.properties.noAckMode = false)
    (hcalm : Calm (eventsOf .networkGdbWriteCb w.writeResults actions)) : Going w' := by
  have hstate : (w.performs actions).gdbSession.state = .active := by
    rcases performs_state h.network actions with ⟨-, hfailed, -⟩ | ⟨-, hstate⟩
    · exact absurd hcalm hfailed
    · exact hstate.trans h.active
  have htransport := (World.performs_transport w actions).trans h.tcp
  have hcb := (World.performs_pWriteCb w actions).trans h.network
  have htarget := (World.performs_pTarget w actions).trans h.target
  obtain ⟨i, o, rfl⟩ := hagrees
  exact ⟨⟨⟨hready, hstate, hacks⟩, htransport, hcb⟩, htarget⟩

theorem Going.reads (h : Going w) (build : Build) {input : List UInt8}
    (hend : packetEnd input = none) (hdigits : ∀ d ∈ digits .body input, Accepted d) :
    ∃ w', (gdbSessionHandle build input).run w = .ok input.length w' ∧ After build [] w w' ∧
      Going w' := by
  have ha := answer_rest build none hend hdigits
  obtain ⟨w', hrun, hagrees, hready, hacks⟩ := h.toServing.handle_ok (h.target ▸ ha)
  refine ⟨w', hrun, .of_performs h.network hagrees rfl rfl, h.of_agrees hagrees hready hacks ?_⟩
  simp [Calm, Failed, eventsOf, Action.event]

/-- A call that takes a packet. The session goes on if all its writes succeed, and is aborted if
not. -/
theorem Going.takes (h : Going w) {input : List UInt8} {n : ℕ}
    (hend : packetEnd input = some n) (hpacket : HarmlessPacket build none (input.take n)) :
    ∃ w', (gdbSessionHandle build input).run w = .ok n w' ∧ After build [input.take n] w w' ∧
      if Through build w.writeResults [input.take n] then Going w' ∧ w'.networkErr = .ok
      else w'.gdbSession.state = .aborted := by
  let inner := packetActions build none (input.take n)
  have ha : answer build none input = (.handle input :: inner ++ [.consumed n], .ok n) :=
    answer_packet hend hpacket
  have hinner : actionsFor build [input.take n] = inner := List.flatMap_singleton ..
  have hsent : sentBy (.handle input :: inner ++ [.consumed n]) = sentBy inner :=
    List.filterMap_append.trans (List.append_nil _)
  have hevents : eventsOf .networkGdbWriteCb w.writeResults (.handle input :: inner ++ [.consumed n]) =
      .handle input :: eventsOf .networkGdbWriteCb w.writeResults inner ++ [.consumed n] := by
    rw [eventsOf_append]
    rfl
  have hcalm : Calm (eventsOf .networkGdbWriteCb w.writeResults
      (.handle input :: inner ++ [.consumed n])) ↔
        Through build w.writeResults [input.take n] := by
    rw [calm_eventsOf, hsent, Through, hinner]
  obtain ⟨w', hrun, hagrees, hready, hacks⟩ := h.toServing.handle_ok (h.target ▸ ha)
  refine ⟨w', hrun, .of_performs h.network hagrees ?_ (by rw [hsent, hinner]), ?_⟩
  · rw [hevents, observed_append, eventsFor, hinner]
    exact (List.append_nil _).trans (observed_packetActions build w.writeResults (input.take n))
  · split_ifs with hthrough
    · have herr : w'.networkErr = .ok := by
        obtain ⟨data, rest, hsend⟩ := packetActions_eq build none (input.take n)
        have hlast := performs_networkErr h.network (hcalm.mpr hthrough)
          (Or.inl ⟨data, by simp [inner, hsend]⟩)
        obtain ⟨i, o, rfl⟩ := hagrees
        exact hlast
      exact ⟨h.of_agrees hagrees hready hacks (hcalm.mpr hthrough), herr⟩
    · obtain ⟨i, o, rfl⟩ := hagrees
      rcases performs_state h.network (.handle input :: inner ++ [.consumed n]) with
        ⟨-, -, hstate⟩ | ⟨hquiet, -⟩
      · exact hstate
      · exact absurd (hcalm.mp (hquiet h.tcp)) hthrough

/-- A call that trips an assertion, before or behind the acknowledgement of its packet. -/
theorem Going.trips (build : Build) (h : Going w) {input : List UInt8}
    (hharm : ¬((∀ d ∈ digits .body input, Accepted d) ∧
      ∀ n, packetEnd input = some n → HarmlessPacket build none (input.take n))) :
    ∃ e w' packets, (gdbSessionHandle build input).run w = .error e w' ∧
      packets <+: taken build w.writeResults (packetFramer.frames input).1 ∧
      After build packets w w' := by
  rcases answer_cases build none input with ha | ⟨actions, ha, -⟩ | ⟨n, e, hend, hok, hr, ha⟩
  · obtain ⟨w', hrun, hagrees⟩ := h.toServing.handle_error (h.target ▸ ha)
    exact ⟨_, w', [], hrun, List.nil_prefix, .of_performs h.network hagrees rfl rfl⟩
  · exact absurd (harmless_of_answer ha) hharm
  · obtain ⟨w', hrun, hagrees⟩ := h.toServing.handle_error (h.target ▸ ha)
    have hinner : actionsFor build [input.take n] =
        [.send [GdbPacketChar.ack], .execute (storedBytes (input.take n))] := by
      rw [actionsFor, List.flatMap_singleton, packetActions, if_pos hok, hr]
    refine ⟨e, w', [input.take n], hrun, ?_, .of_performs h.network hagrees ?_ (by rw [hinner]; rfl)⟩
    · rw [packetFramer.frames_of_some hend]
      exact List.cons_prefix_cons.mpr ⟨rfl, List.nil_prefix⟩
    · rw [eventsFor, hinner]
      rfl

/-- How code ends that has some packets to serve. If all writes succeed, then all of them have been
served, and `P` holds. If not, then those up to the failure have been served, and `Q` holds. It may
halt because an assertion is tripped by the data, or because data are left for an aborted session
whose last write has failed. -/
def Cut {α : Type} (build : Build) (packets : List (List UInt8)) (harmless : Prop)
    (P Q : α → World → Prop) (w : World) : EStateM.Result String World α → Prop
  | .ok a w' => After build (taken build w.writeResults packets) w w' ∧
      if Through build w.writeResults packets then harmless ∧ P a w' else Q a w'
  | .error e w' =>
    (∃ served, served <+: taken build w.writeResults packets ∧ After build served w w') ∧
      (¬harmless ∨ e = "Session inactive." ∧ w'.networkErr ≠ .ok)

theorem Cut.whole {α : Type} {packets : List (List UInt8)} {harmless : Prop}
    {P Q : α → World → Prop} {a : α} (h : After build packets w w')
    (hthrough : Through build w.writeResults packets) (hharmless : harmless) (hP : P a w') :
    Cut build packets harmless P Q w (.ok a w') := by
  rw [← taken_of_through hthrough] at h
  exact ⟨h, (if_pos hthrough).mpr ⟨hharmless, hP⟩⟩

theorem Cut.dropped {α : Type} {xs ys : List (List UInt8)} {harmless : Prop}
    {P Q : α → World → Prop} {a : α} (h : After build (taken build w.writeResults xs) w w')
    (hfailed : ¬Through build w.writeResults xs) (hQ : Q a w') :
    Cut build (xs ++ ys) harmless P Q w (.ok a w') := by
  refine ⟨?_, (if_neg fun hall => hfailed (through_append.mp hall).1).mpr hQ⟩
  rwa [taken_append, if_neg hfailed]

theorem Cut.after {α : Type} {xs ys : List (List UInt8)} {harmlessx harmlessy : Prop}
    {P Q : α → World → Prop} (hx : After build xs w w₁) (hthrough : Through build w.writeResults xs)
    (hharmless : harmlessx) {r : EStateM.Result String World α}
    (h : Cut build ys harmlessy P Q w₁ r) :
    Cut build (xs ++ ys) (harmlessx ∧ harmlessy) P Q w r := by
  have htaken : taken build w.writeResults (xs ++ ys) =
      xs ++ taken build w₁.writeResults ys := by
    rw [taken_append, if_pos hthrough, hx.writeResults_eq]
  have hsame : Through build w.writeResults (xs ++ ys) ↔ Through build w₁.writeResults ys := by
    rw [through_append, hx.writeResults_eq, and_iff_right hthrough]
  cases r with
  | ok a w' =>
    obtain ⟨hafter, hend⟩ := h
    refine ⟨htaken ▸ hx.trans hafter, ?_⟩
    simp only [hsame]
    split_ifs at hend ⊢
    · exact ⟨⟨hharmless, hend.1⟩, hend.2⟩
    · exact hend
  | error e w' =>
    obtain ⟨⟨served, hprefix, hafter⟩, hwhy⟩ := h
    refine ⟨⟨xs ++ served, ?_, hx.trans hafter⟩, hwhy.imp_left fun hn hall => hn hall.2⟩
    rw [htaken]
    exact (List.prefix_append_right_inj xs).mpr hprefix

abbrev LoopCut (build : Build) (input : List UInt8) (w : World) :
    EStateM.Result String World ErrT → Prop :=
  Cut build (packetFramer.frames input).1 (Harmless build none input)
    (fun err w' => err = .ok ∧ Going w')
    (fun err w' => w'.gdbSession.state = .aborted ∧
      err = if w'.networkErr = .ok then .abrt else .ok) w

theorem loop_cut_rest (build : Build) {input data : List UInt8} {total : ℕ} {w : World}
    (hend : packetEnd input = none) (hinput : data.drop total = input) (hle : total ≤ data.length)
    (h : Going w) : LoopCut build input w ((networkServeGdbLoop build data total).run w) := by
  have hharmless := harmless_of_none build none hend
  have hframes := packetFramer.frames_of_none hend
  rw [LoopCut, hframes]
  rcases Nat.eq_or_lt_of_le hle with hdone | hlt
  · have hnil : input = [] := by rw [← hinput, hdone, List.drop_length]
    rw [run_loop_done build hdone]
    exact .whole (.refl w) through_nil (hharmless.mpr (by simp [hnil, digits])) ⟨rfl, h⟩
  by_cases hdigits : ∀ d ∈ digits .body input, Accepted d
  · obtain ⟨w₁, hrun, hafter, hgoing⟩ := h.reads build hend hdigits
    rw [← hinput] at hrun
    have hlength : (data.drop total).length = data.length - total := List.length_drop
    have hactive : w₁.gdbSession.state ≠ .aborted := by simp [hgoing.active]
    rw [run_loop_ok hlt hrun (by omega), run_loop_done build (by omega), if_neg hactive, ite_self]
    exact .whole hafter through_nil (hharmless.mpr hdigits) ⟨rfl, hgoing⟩
  · obtain ⟨e, w₁, packets, hrun, hprefix, hafter⟩ :=
      h.trips build fun hh => hdigits hh.1
    rw [← hinput] at hrun
    rw [run_loop_error hlt hrun]
    rw [hframes] at hprefix
    exact ⟨⟨packets, hprefix, hafter⟩, Or.inl fun hh => hdigits (hharmless.mp hh)⟩

theorem loop_cut (build : Build) (input : List UInt8) :
    ∀ {data : List UInt8} {total : ℕ} {w : World},
      data.drop total = input → total ≤ data.length → Going w →
      LoopCut build input w ((networkServeGdbLoop build data total).run w) := by
  induction input using Framer.frames.induct packetFramer with
  | case1 input hend => exact fun hinput hle h => loop_cut_rest build hend hinput hle h
  | case2 input n hend ih =>
    intro data total w hinput hle h
    have hharmless := harmless_of_some build none hend
    have hframes := packetFramer.frames_of_some hend
    have hn := packetFramer.frameEnd_pos hend
    have hnle := packetFramer.frameEnd_le hend
    rw [← hinput, List.length_drop] at hnle
    have hlt : total < data.length := by omega
    have hdrop : data.drop (total + n) = input.drop n := by
      rw [← hinput, List.drop_drop]
    by_cases hpacket : HarmlessPacket build none (input.take n)
    · obtain ⟨w₁, hrun, hafter, hend'⟩ := h.takes hend hpacket
      rw [← hinput] at hrun
      rw [run_loop_ok hlt hrun hn.ne', LoopCut, hframes, hharmless]
      show Cut build ([input.take n] ++ _) _ _ _ _ _
      split_ifs at hend' with hthrough
      · obtain ⟨hgoing, herr⟩ := hend'
        have hactive : w₁.gdbSession.state ≠ .aborted := by simp [hgoing.active]
        rw [if_neg (not_not.mpr herr), if_neg hactive]
        exact (ih hdrop (by omega) hgoing).after hafter hthrough hpacket
      · -- the session is aborted, so one of the two early returns is taken
        have htaken : taken build w.writeResults [input.take n] = [input.take n] := by
          rw [taken, if_neg hthrough]
        rw [← htaken] at hafter
        by_cases herr : w₁.networkErr = .ok
        · rw [if_neg (not_not.mpr herr), if_pos hend']
          exact .dropped hafter hthrough ⟨hend', (if_pos herr).symm⟩
        · rw [if_pos herr]
          exact .dropped hafter hthrough ⟨hend', (if_neg herr).symm⟩
    · obtain ⟨e, w₁, packets, hrun, hprefix, hafter⟩ :=
        h.trips build fun hh => hpacket (hh.2 n hend)
      rw [← hinput] at hrun
      rw [run_loop_error hlt hrun]
      exact ⟨⟨packets, hprefix, hafter⟩, Or.inl fun hh => hpacket (hharmless.mp hh).1⟩

theorem serve_stalls (build : Build) (chunk : Chunk) (rest : List RecvResult) {w : World}
    (h : w.gdbSession.state = .aborted) :
    (networkServe build (.received chunk.netbuf :: rest)).run w =
      .error "Session inactive." (w.perform (.handle chunk.bytes)) := by
  have hhandle := run_handle_inactive build (w := w) (by simp [h]) chunk.bytes
  have hpos : 0 < chunk.bytes.length := List.length_pos_iff.mpr chunk.nonempty
  have hloop := run_loop_error hpos hhandle
  exact run_bind_of_error hloop _

abbrev ServeCut (build : Build) (chunks : List Chunk) (err : ErrT) (w : World) :
    EStateM.Result String World (Option ErrT) → Prop :=
  Cut build (chunkPackets chunks) (AllHarmless build chunks) (fun r _ => r = some err)
    (fun r w' => r = some (if w'.networkErr = .ok then .abrt else err)) w

theorem serve_cut (build : Build) (chunks : List Chunk) {err : ErrT} (herr : err ≠ .ok)
    {w : World} (h : Going w) :
    ServeCut build chunks err w ((networkServe build (resultsOf chunks err herr)).run w) := by
  induction chunks generalizing w with
  | nil => exact .whole (.refl w) through_nil (List.forall_mem_nil _) rfl
  | cons chunk chunks ih =>
    have hloop := loop_cut build chunk.bytes rfl (Nat.zero_le _) h
    have hstep : (networkServe build (resultsOf (chunk :: chunks) err herr)).run w =
        (networkServeGdbLoop build chunk.bytes 0 >>= fun err' =>
          if err' = .ok then networkServe build (resultsOf chunks err herr)
          else return some err').run w := rfl
    have hall : AllHarmless build (chunk :: chunks) ↔
        Harmless build none chunk.bytes ∧ AllHarmless build chunks := List.forall_mem_cons
    rw [hstep, ServeCut, chunkPackets_cons, hall]
    cases hrun : (networkServeGdbLoop build chunk.bytes 0).run w with
    | error e w₁ =>
      rw [hrun] at hloop
      obtain ⟨⟨served, hprefix, hafter⟩, hwhy⟩ := hloop
      rw [run_bind_of_error hrun]
      refine ⟨⟨served, ?_, hafter⟩, hwhy.imp_left fun hn hh => hn hh.1⟩
      rw [taken_append]
      split_ifs with hthrough
      · rw [taken_of_through hthrough] at hprefix
        exact hprefix.trans (List.prefix_append ..)
      · exact hprefix
    | ok err' w₁ =>
      rw [hrun] at hloop
      obtain ⟨hafter, hend⟩ := hloop
      rw [run_bind_of_ok hrun]
      by_cases hthrough : Through build w.writeResults (packetFramer.frames chunk.bytes).1
      · rw [if_pos hthrough] at hend
        obtain ⟨hharmless, rfl, hgoing⟩ := hend
        rw [taken_of_through hthrough] at hafter
        rw [if_pos rfl]
        exact (ih hgoing).after hafter hthrough hharmless
      · rw [if_neg hthrough] at hend
        obtain ⟨haborted, rfl⟩ := hend
        by_cases hlast : w₁.networkErr = .ok
        · rw [if_pos hlast, if_neg (by decide)]
          exact .dropped hafter hthrough (congrArg some (if_pos hlast).symm)
        rw [if_neg hlast, if_pos rfl]
        cases chunks with
        | nil => exact .dropped hafter hthrough (congrArg some (if_neg hlast).symm)
        | cons next chunks =>
          have hresults : resultsOf (next :: chunks) err herr =
              .received next.netbuf :: resultsOf chunks err herr := rfl
          have hsilent : After build [] w₁ (w₁.perform (.handle next.bytes)) :=
            ⟨observed_append _ _, rfl⟩
          have hserved := hafter.trans hsilent
          rw [List.append_nil] at hserved
          rw [hresults, serve_stalls build next _ haborted]
          refine ⟨⟨_, ?_, hserved⟩, Or.inr ⟨rfl, hlast⟩⟩
          rw [taken_append, if_neg hthrough]

/-- A connection: it ends with the error of `netconn_recv`, unless a write has failed and the last
write for the same packet has succeeded. -/
theorem connection_cut (build : Build) (chunks : List Chunk) {err : ErrT} (herr : err ≠ .ok)
    {w : World} (h : History build w) :
    Cut build (chunkPackets chunks) (AllHarmless build chunks)
      (fun connection _ => connection = .closed err)
      (fun connection w' => connection = .closed (if w'.networkErr = .ok then .abrt else err)) w
      ((networkTcpServer build (resultsOf chunks err herr)).run w) := by
  have hvacated := h.vacated
  have hlock := run_gdbSessionLock_free hvacated.free .tcpIp .networkGdbWriteCb
  have hsound := sound_gdbSessionLock hvacated.sound hlock
  have hgoing : Going (w.lockBy .tcpIp .networkGdbWriteCb) :=
    ⟨⟨hsound.serving rfl, rfl, rfl⟩, hvacated.target⟩
  have hserve := serve_cut build chunks herr hgoing
  rw [run_networkTcpServer hlock]
  cases hrun : (networkServe build (resultsOf chunks err herr)).run
      (w.lockBy .tcpIp .networkGdbWriteCb) with
  | error e w₁ =>
    rw [hrun] at hserve
    exact ⟨hserve.1.imp fun _ hs => ⟨hs.1, hs.2.1, hs.2.2⟩, hserve.2⟩
  | ok r w₁ =>
    rw [hrun] at hserve
    obtain ⟨⟨htrace, hresults⟩, hend⟩ := hserve
    by_cases hthrough : Through build w.writeResults (chunkPackets chunks)
    · obtain ⟨hharmless, rfl⟩ := (if_pos hthrough).mp hend
      refine ⟨⟨htrace, hresults⟩, ?_⟩
      rw [if_pos hthrough]
      exact ⟨hharmless, rfl⟩
    · obtain rfl := (if_neg hthrough).mp hend
      refine ⟨⟨htrace, hresults⟩, ?_⟩
      rw [if_neg hthrough]

/-- The packets that are taken from all connections, each of which is cut on its own. -/
def takenOf (build : Build) : (ℕ → ErrT) → List Visit → List (List UInt8)
  | _, [] => []
  | results, visit :: visits =>
    let packets := taken build results (chunkPackets visit.chunks)
    packets ++ takenOf build (resultsAfter build results packets) visits

/-- How the server ends: it has served what is taken from all connections, or it halts at data that
trip an assertion or at data for an aborted session. -/
def Ends {α : Type} (build : Build) (visits : List Visit) (w : World) (P : α → Prop) :
    EStateM.Result String World α → Prop
  | .ok a w' => After build (takenOf build w.writeResults visits) w w' ∧ P a
  | .error e w' =>
    (∃ served, served <+: takenOf build w.writeResults visits ∧ After build served w w') ∧
      (¬AllHarmless build (visits.flatMap Visit.chunks) ∨
        e = "Session inactive." ∧ w'.networkErr ≠ .ok)

theorem Ends.cons {visit : Visit} {visits : List Visit}
    (hfirst : After build (taken build w.writeResults (chunkPackets visit.chunks)) w w₁)
    {y : Routine (List Connection)}
    (h : Ends build visits w₁ (.waiting ∉ ·) (y.run w₁)) {connection : Connection}
    (hne : connection ≠ .waiting) :
    Ends build (visit :: visits) w (.waiting ∉ ·) ((do return connection :: (← y)).run w₁) := by
  have htaken : takenOf build w.writeResults (visit :: visits) =
      taken build w.writeResults (chunkPackets visit.chunks) ++
        takenOf build w₁.writeResults visits := by
    rw [takenOf, hfirst.writeResults_eq]
  cases hrun : y.run w₁ with
  | ok connections w' =>
    rw [hrun] at h
    obtain ⟨hafter, hserved⟩ := h
    rw [run_bind_of_ok hrun]
    exact ⟨htaken ▸ hfirst.trans hafter, by simp [hne.symm, hserved]⟩
  | error e w' =>
    rw [hrun] at h
    obtain ⟨⟨served, hprefix, hafter⟩, hwhy⟩ := h
    rw [run_bind_of_error hrun]
    refine ⟨⟨_, ?_, hfirst.trans hafter⟩, hwhy.imp_left fun hn hall => hn ?_⟩
    · rw [htaken]
      exact (List.prefix_append_right_inj _).mpr hprefix
    · exact (allHarmless_append.mp hall).2

theorem serveConnections_cut (build : Build) (visits : List Visit) {w : World}
    (h : History build w) : Ends build visits w (.waiting ∉ ·)
      ((TcpServer.serveConnections build
        ((visits.map Visit.accept).filterMap TcpServer.acceptedOf)).run w) := by
  induction visits generalizing w with
  | nil => exact ⟨.refl w, List.not_mem_nil⟩
  | cons visit visits ih =>
    cases visit with
    | failed err herr => exact ih h
    | connection chunks err herr =>
      have hfirst := connection_cut build chunks herr h
      have hconnections : ((Visit.connection chunks err herr :: visits).map Visit.accept).filterMap
          TcpServer.acceptedOf = resultsOf chunks err herr ::
            (visits.map Visit.accept).filterMap TcpServer.acceptedOf := rfl
      rw [hconnections, TcpServer.serveConnections]
      cases hrun : (networkTcpServer build (resultsOf chunks err herr)).run w with
      | error e w₁ =>
        rw [hrun] at hfirst
        obtain ⟨⟨served, hprefix, hafter⟩, hwhy⟩ := hfirst
        rw [run_bind_of_error hrun]
        refine ⟨⟨served, hprefix.trans (List.prefix_append ..), hafter⟩, ?_⟩
        exact hwhy.imp_left fun hn hall => hn (allHarmless_append.mp hall).1
      | ok connection w₁ =>
        rw [hrun] at hfirst
        obtain ⟨hafter, hend⟩ := hfirst
        obtain ⟨err', rfl⟩ : ∃ err', connection = .closed err' := by
          split_ifs at hend
          · exact ⟨_, hend.2⟩
          · exact ⟨_, hend⟩
          · exact ⟨_, hend⟩
        rw [run_bind_of_ok hrun]
        exact (ih (h.connection _ hrun)).cons hafter (by simp)

def EndsThread (build : Build) (writeResults : ℕ → ErrT) (visits : List Visit) :
    EStateM.Result String TcpServer.Station TcpServer.Awaits → Prop
  | .ok awaits t => awaits = .accept ∧ observed t.world.trace =
      eventsFor build writeResults (takenOf build writeResults visits)
  | .error e t =>
    (∃ served, served <+: takenOf build writeResults visits ∧
      observed t.world.trace = eventsFor build writeResults served) ∧
    (¬AllHarmless build (visits.flatMap Visit.chunks) ∨
      e = "Session inactive." ∧ t.world.networkErr ≠ .ok)

end Interruption
end NetBmp
