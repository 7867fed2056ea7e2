import NetBmp.Segmentation
import NetBmp.TcpServer

/-!
# The life of the server

As long as all writes succeed, the thread executes and answers the packets of all connections, in
the order in which they are received, and comes to an end only by an assertion that the data trip.
-/

namespace NetBmp
namespace Lifetime

open Hex Halting Framing Server SessionStream Serve Segmentation Abort Connections TcpServer

/-- What comes to the server: a connection that sends chunks until it fails, or none. -/
inductive Visit
  | failed (err : ErrT) (h : err ≠ .ok)
  | connection (chunks : List Chunk) (err : ErrT) (h : err ≠ .ok)

def resultsOf (chunks : List Chunk) (err : ErrT) (h : err ≠ .ok) : List RecvResult :=
  (chunks.map fun chunk => .received chunk.netbuf) ++ [.failed err h]

def Visit.accept : Visit → AcceptResult
  | .failed err h => .failed err h
  | .connection chunks err h => .accepted (resultsOf chunks err h)

def Visit.chunks : Visit → List Chunk
  | .failed _ _ => []
  | .connection chunks _ _ => chunks

def AllHarmless (build : Build) (chunks : List Chunk) : Prop :=
  ∀ chunk ∈ chunks, Harmless build none chunk.bytes

/-- The events of all packets that are complete within their chunk. -/
def eventsOfChunks (build : Build) (chunks : List Chunk) : List Event :=
  (chunkPackets chunks).flatMap (packetEvents build none .networkGdbWriteCb)

theorem eventsOfChunks_append (build : Build) (xs ys : List Chunk) :
    eventsOfChunks build (xs ++ ys) = eventsOfChunks build xs ++ eventsOfChunks build ys := by
  simp only [eventsOfChunks, chunkPackets, List.flatMap_append]

theorem allHarmless_append {build : Build} {xs ys : List Chunk} :
    AllHarmless build (xs ++ ys) ↔ AllHarmless build xs ∧ AllHarmless build ys :=
  List.forall_mem_append

/-- Code over some chunks comes to its end if they are harmless, with their events and where `Q`
holds, and trips an assertion if they are not. -/
def Covers {α : Type} (build : Build) (chunks : List Chunk) (w : World) (Q : α → World → Prop) :
    EStateM.Result String World α → Prop
  | .ok a w' => AllHarmless build chunks ∧
      observed w'.trace = observed w.trace ++ eventsOfChunks build chunks ∧ Q a w'
  | .error _ _ => ¬AllHarmless build chunks

theorem Covers.append {α : Type} {build : Build} {xs ys : List Chunk} {w w₁ : World}
    {Q : α → World → Prop} (hx : AllHarmless build xs)
    (htrace : observed w₁.trace = observed w.trace ++ eventsOfChunks build xs)
    {r : EStateM.Result String World α} (h : Covers build ys w₁ Q r) :
    Covers build (xs ++ ys) w Q r := by
  cases r with
  | ok a w' =>
    obtain ⟨hy, hrest, hQ⟩ := h
    refine ⟨allHarmless_append.mpr ⟨hx, hy⟩, ?_, hQ⟩
    rw [hrest, htrace, eventsOfChunks_append, List.append_assoc]
  | error e w' => exact fun hxy => h (allHarmless_append.mp hxy).2

theorem Covers.cons {build : Build} {chunks : List Chunk} {w : World}
    {y : Routine (List Connection)}
    (h : Covers build chunks w (fun connections _ => .waiting ∉ connections) (y.run w))
    {connection : Connection} (hne : connection ≠ .waiting) :
    Covers build chunks w (fun connections _ => .waiting ∉ connections)
      ((do return connection :: (← y) : Routine (List Connection)).run w) := by
  cases hrun : y.run w with
  | error e w₁ =>
    rw [hrun] at h
    rw [run_bind_of_error hrun]
    exact h
  | ok connections w₁ =>
    rw [hrun] at h
    obtain ⟨hall, htrace, hserved⟩ := h
    rw [run_bind_of_ok hrun]
    exact ⟨hall, htrace, by simp [hne.symm, hserved]⟩

theorem covers_networkServe (build : Build) (chunks : List Chunk) {err : ErrT} (herr : err ≠ .ok)
    {w : World} (h : Continues none .networkGdbWriteCb w) :
    Covers build chunks w (fun r w' => r = some err ∧ Continues none .networkGdbWriteCb w')
      ((NetBmp.networkServe build (resultsOf chunks err herr)).run w) := by
  induction chunks generalizing w with
  | nil => exact ⟨fun _ hc => (by cases hc), (List.append_nil _).symm, rfl, h⟩
  | cons chunk chunks ih =>
    have hstep : (NetBmp.networkServe build (resultsOf (chunk :: chunks) err herr)).run w =
        (networkServeGdbLoop build chunk.bytes 0 >>= fun err' =>
          if err' = .ok then NetBmp.networkServe build (resultsOf chunks err herr)
          else return some err').run w := rfl
    rcases run_loop build chunk.bytes rfl (Nat.zero_le _) h with
      ⟨w₁, hloop, hserved⟩ | ⟨hharm, e, w₁, hloop⟩
    · rw [hstep, run_bind_of_ok hloop, if_pos rfl]
      have hfirst : AllHarmless build [chunk] :=
        List.forall_mem_singleton.mpr hserved.harmless
      have htrace : observed w₁.trace = observed w.trace ++ eventsOfChunks build [chunk] := by
        rw [hserved.observed_eq, eventsOfChunks, chunkPackets, List.flatMap_singleton]
      exact .append hfirst htrace (ih hserved.continues)
    · rw [hstep, run_bind_of_error hloop]
      exact fun hall => hharm (hall chunk (List.mem_cons_self ..))

/-- A session between two connections, with reliable writes. -/
structure Open (w : World) : Prop extends Vacated w where
  reliable : w.Reliable

theorem Open.locked {w : World} (h : Open w) :
    Continues none .networkGdbWriteCb (w.lockBy .tcpIp .networkGdbWriteCb) := by
  have hsound := sound_gdbSessionLock h.sound
    (run_gdbSessionLock_free h.free .tcpIp .networkGdbWriteCb)
  exact ⟨hsound.serving rfl, h.reliable, h.target, rfl⟩

theorem covers_connection (build : Build) (chunks : List Chunk) {err : ErrT} (herr : err ≠ .ok)
    {w : World} (h : Open w) :
    Covers build chunks w (fun connection w' => connection = .closed err ∧ Open w')
      ((NetBmp.networkTcpServer build (resultsOf chunks err herr)).run w) := by
  have hserve := covers_networkServe build chunks herr h.locked
  rw [run_networkTcpServer (run_gdbSessionLock_free h.free .tcpIp .networkGdbWriteCb)]
  cases hrun : (NetBmp.networkServe build (resultsOf chunks err herr)).run
      (w.lockBy .tcpIp .networkGdbWriteCb) with
  | error e w₁ =>
    rw [hrun] at hserve
    exact hserve
  | ok r w₁ =>
    rw [hrun] at hserve
    obtain ⟨hall, htrace, rfl, hcontinues⟩ := hserve
    exact ⟨hall, htrace, rfl, ⟨⟨⟨rfl, hcontinues.writable, by simp⟩, rfl, hcontinues.target_eq⟩,
      hcontinues.reliable⟩⟩

theorem covers_serveConnections (build : Build) (visits : List Visit) {w : World} (h : Open w) :
    Covers build (visits.flatMap Visit.chunks) w (fun connections _ => .waiting ∉ connections)
      ((serveConnections build ((visits.map Visit.accept).filterMap acceptedOf)).run w) := by
  induction visits generalizing w with
  | nil => exact ⟨fun _ hc => (by cases hc), (List.append_nil _).symm, List.not_mem_nil⟩
  | cons visit visits ih =>
    cases visit with
    | failed err herr => exact ih h
    | connection chunks err herr =>
      have hfirst := covers_connection build chunks herr h
      have hconnections : ((Visit.connection chunks err herr :: visits).map Visit.accept).filterMap
          acceptedOf = resultsOf chunks err herr ::
            (visits.map Visit.accept).filterMap acceptedOf := rfl
      rw [hconnections, serveConnections, List.flatMap_cons]
      cases hrun : (NetBmp.networkTcpServer build (resultsOf chunks err herr)).run w with
      | error e w₁ =>
        rw [hrun] at hfirst
        rw [run_bind_of_error hrun]
        exact fun hall => hfirst (allHarmless_append.mp hall).1
      | ok connection w₁ =>
        rw [hrun] at hfirst
        obtain ⟨hall, htrace, rfl, hopen⟩ := hfirst
        rw [run_bind_of_ok hrun]
        exact .append hall htrace ((ih hopen).cons (by simp))

/-- How the thread ends: it has executed and answered all packets and waits for a connection, or it
has met data that trip an assertion. -/
def Lives (build : Build) (chunks : List Chunk) : EStateM.Result String Station Awaits → Prop
  | .ok awaits t => AllHarmless build chunks ∧ awaits = .accept ∧
      observed t.world.trace = eventsOfChunks build chunks
  | .error _ _ => ¬AllHarmless build chunks

end Lifetime
end NetBmp
