import NetBmp.Connections
import NetBmp.Monitors

/-!
# The thread of the TCP server

All of `network_tcp_server`, with the calls that it makes to lwIP. The results of these calls are
given, and so are the numbers by which connections and buffers are told apart. The session runs on
its own world; what it writes through the callback of the network module goes to the connection.
-/

namespace NetBmp
namespace TcpServer

open Hex Halting Server Abort Effects Connections Monitors

/-- The calls to lwIP. A connection or a buffer is `none` where the pointer is `NULL`. -/
inductive NetCall
  | new (success : Bool)
  | bind (port : ℕ) (err : ErrT)
  | listen
  | accept (conn : Option ℕ)
  | recv (conn netbuf : Option ℕ)
  | write (conn : Option ℕ) (data : List UInt8)
  | netbufDelete (netbuf : Option ℕ)
  | close (conn : Option ℕ)
  | delete (conn : Option ℕ)
  deriving DecidableEq, Repr

/-- The network module with its calls so far, and how many connections and buffers it has been
handed. -/
structure Station where
  world : World
  pConn : Option ℕ
  handed : ℕ
  calls : List NetCall

abbrev Thread := EStateM String Station

def call (c : NetCall) : Thread Unit := modify fun s => { s with calls := s.calls ++ [c] }

/-- The number of the next connection or buffer. -/
def handOut : Thread ℕ := do
  let s ← get
  set { s with handed := s.handed + 1 }
  return s.handed

def getConn : Thread (Option ℕ) := do return (← get).pConn

def setConn (conn : Option ℕ) : Thread Unit := modify fun s => { s with pConn := conn }

def netWrite (conn : Option ℕ) : Event → Option NetCall
  | .write .networkGdbWriteCb data _ => some (.write conn data)
  | _ => none

/-- The session has gone on to `w`. -/
def Station.after (s : Station) (w : World) : Station :=
  { s with
    world := w
    calls := s.calls ++ (w.trace.drop s.world.trace.length).filterMap (netWrite s.pConn) }

def onSession {α : Type} (x : Routine α) : Thread α := fun s =>
  match x.run s.world with
  | .ok a w => .ok a (s.after w)
  | .error e w => .error e (s.after w)

/-- Serve the connection until there is an error. `netconn_recv` leaves `NULL` behind when it
fails, and `netbuf_delete` is called on whatever it has left. -/
def networkServe (build : Build) : List RecvResult → Thread (Option ErrT)
  | [] => return none
  | .failed err _ :: _ => do
    call (.recv (← getConn) none)
    call (.netbufDelete none)
    return some err
  | .received netbuf :: results => do
    let p ← handOut
    call (.recv (← getConn) (some p))
    let err ← onSession (networkServeGdb build netbuf)
    call (.netbufDelete (some p))
    if err = .ok then networkServe build results else return some err

/-- The result of `netconn_accept`, with those of `netconn_recv` on the connection. -/
inductive AcceptResult
  | accepted (results : List RecvResult)
  | failed (err : ErrT) (h : err ≠ .ok)

/-- Where the thread is when the given results have been used up, or that it has exited. -/
inductive Awaits
  | accept | recv | nothing
  deriving DecidableEq, Repr

/-- The endless loop of `network_tcp_server`. -/
def networkTcpServerLoop (build : Build) : List AcceptResult → Thread Awaits
  | [] => do
    setConn none
    return .accept
  | .failed _ _ :: accepts => do
    setConn none
    call (.accept none)
    networkTcpServerLoop build accepts
  | .accepted results :: accepts => do
    setConn none
    let conn ← handOut
    setConn (some conn)
    call (.accept (some conn))
    if !(← onSession (gdbSessionLock .tcpIp .networkGdbWriteCb)) then
      call (.close (← getConn))
      call (.delete (← getConn))
      networkTcpServerLoop build accepts
    else
      match ← networkServe build results with
      | none => return .recv
      | some _ =>
        call (.close (← getConn))
        call (.delete (← getConn))
        onSession gdbSessionRelease
        networkTcpServerLoop build accepts

def networkTcpServer (build : Build) (new : Bool) (bind : ErrT) (accepts : List AcceptResult) :
    Thread Awaits := do
  call (.new new)
  if !new then return .nothing
  call (.bind 2000 bind)
  if bind ≠ .ok then return .nothing
  call .listen
  networkTcpServerLoop build accepts

/-- What lwIP makes of the calls so far. -/
inductive Net
  | start | created | bound | listening | exited
  | accepted (conn : ℕ)
  | held (conn netbuf : ℕ)
  | broken (conn : ℕ)
  | drained (conn : ℕ)
  | closed (conn : ℕ)
  deriving DecidableEq, Repr

/-- The discipline that lwIP asks for: a connection is used between its accept and its close and
then deleted, a buffer is deleted before the next one is received, data are written only while
one is held, and nothing is received any more once that has failed. -/
def netMonitor : Monitor Net NetCall where
  start := .start
  next
    | .start, .new success => some (if success then .created else .exited)
    | .created, .bind _ err => some (if err = .ok then .bound else .exited)
    | .bound, .listen => some .listening
    | .listening, .accept none => some .listening
    | .listening, .accept (some conn) => some (.accepted conn)
    | .accepted conn, .recv conn' (some netbuf) =>
      if conn' = some conn then some (.held conn netbuf) else none
    | .accepted conn, .recv conn' none => if conn' = some conn then some (.broken conn) else none
    | .held conn netbuf, .write conn' _ =>
      if conn' = some conn then some (.held conn netbuf) else none
    | .held conn netbuf, .netbufDelete netbuf' =>
      if netbuf' = some netbuf then some (.accepted conn) else none
    | .broken conn, .netbufDelete none => some (.drained conn)
    | .accepted conn, .close conn' => if conn' = some conn then some (.closed conn) else none
    | .drained conn, .close conn' => if conn' = some conn then some (.closed conn) else none
    | .closed conn, .delete conn' => if conn' = some conn then some .listening else none
    | _, _ => none

/-- Where the monitor is, and what the pointer to the connection is. -/
def Stands (m : Net) (conn : Option ℕ) : Net → Station → Prop := fun n s => n = m ∧ s.pConn = conn

/-- Code between two points of the discipline. -/
abbrev Disciplined {α : Type} (P : Net → Station → Prop) (x : Thread α)
    (Q : α → Net → Station → Prop) : Prop := Guarded netMonitor Station.calls P x Q

variable {m n : Net} {conn : Option ℕ}

theorem disciplined_call {c : NetCall} (h : netMonitor.next m c = some n) :
    Disciplined (Stands m conn) (call c) fun _ => Stands n conn := by
  refine .step fun _ s hs => ?_
  obtain ⟨rfl, hconn⟩ := hs
  exact ⟨(), { s with calls := s.calls ++ [c] }, [c], n, rfl, rfl, by simp [Monitor.watch, h], rfl,
    hconn⟩

theorem disciplined_handOut : Disciplined (Stands m conn) handOut fun _ => Stands m conn :=
  .step fun m' s hs => ⟨s.handed, { s with handed := s.handed + 1 }, [], m', rfl,
    (List.append_nil _).symm, rfl, hs⟩

theorem disciplined_getConn :
    Disciplined (Stands m conn) getConn fun a m' s => a = conn ∧ Stands m conn m' s :=
  .step fun m' s hs => ⟨s.pConn, s, [], m', rfl, (List.append_nil _).symm, rfl, hs.2, hs⟩

theorem disciplined_setConn (conn' : Option ℕ) :
    Disciplined (fun m' _ => m' = m) (setConn conn') fun _ => Stands m conn' :=
  .step fun m' s hs => ⟨(), { s with pConn := conn' }, [], m', rfl, (List.append_nil _).symm, rfl,
    hs, rfl⟩

/-- A call that is made on the current connection, and what comes after it. -/
theorem disciplined_call_conn {α : Type} {c : Option ℕ → NetCall} {x : Thread α}
    {Q : α → Net → Station → Prop} (h : netMonitor.next m (c conn) = some n)
    (hx : Disciplined (Stands n conn) x Q) :
    Disciplined (Stands m conn) (do call (c (← getConn)); x) Q := by
  refine disciplined_getConn.bind fun conn' => .of_fact ?_
  rintro rfl
  exact (disciplined_call h).bind fun _ => hx

theorem run_onSession_ok {α : Type} {x : Routine α} {s : Station} {a : α} {w : World}
    (h : x.run s.world = .ok a w) : (onSession x).run s = .ok a (s.after w) := by
  change (match x.run s.world with | .ok a w => _ | .error e w => _) = _
  rw [h]

theorem run_onSession_error {α : Type} {x : Routine α} {s : Station} {e : String} {w : World}
    (h : x.run s.world = .error e w) : (onSession x).run s = .error e (s.after w) := by
  change (match x.run s.world with | .ok a w => _ | .error e w => _) = _
  rw [h]

/-- The session may write while a buffer is held, and only then. -/
theorem disciplined_onSession {α : Type} (x : Routine α) {c p : ℕ} :
    Disciplined (Stands (.held c p) (some c)) (onSession x) fun _ =>
      Stands (.held c p) (some c) := by
  rintro m s hm ⟨rfl, hconn⟩
  have hstays : ∀ events : List Event,
      netMonitor.watch (.held c p) (events.filterMap (netWrite s.pConn)) = some (.held c p) := by
    refine fun events => watch_stays fun i hi => ?_
    obtain ⟨e, -, he⟩ := List.mem_filterMap.mp hi
    unfold netWrite at he
    split at he
    · cases he
      simp [netMonitor, hconn]
    · cases he
  have hafter : ∀ w, At netMonitor Station.calls (.held c p) (s.after w) := fun w =>
    hm.append rfl (hstays (w.trace.drop s.world.trace.length))
  cases hrun : x.run s.world with
  | ok a w =>
    rw [run_onSession_ok hrun]
    exact ⟨_, hafter w, rfl, hconn⟩
  | error e w =>
    rw [run_onSession_error hrun]
    exact ⟨_, hafter w⟩

theorem disciplined_silent {α : Type} {x : Routine α}
    (h : ∀ w, ∃ a w', x.run w = .ok a w' ∧ w'.trace = w.trace) :
    Disciplined (Stands m conn) (onSession x) fun _ => Stands m conn := by
  refine .step fun m' s hs => ?_
  obtain ⟨a, w, hrun, htrace⟩ := h s.world
  refine ⟨a, s.after w, [], m', run_onSession_ok hrun, ?_, rfl, hs⟩
  rw [Station.after, htrace, List.drop_length]
  rfl

theorem silent_lock (w : World) : ∃ a w',
    (gdbSessionLock .tcpIp .networkGdbWriteCb).run w = .ok a w' ∧ w'.trace = w.trace := by
  rw [run_gdbSessionLock]
  split_ifs
  · exact ⟨_, _, rfl, rfl⟩
  · exact ⟨_, _, rfl, rfl⟩

theorem disciplined_finish {c : ℕ} {α : Type} {x : Thread α} {Q : α → Net → Station → Prop}
    (hm : m = .accepted c ∨ m = .drained c)
    (h : Disciplined (Stands .listening (some c)) x Q) :
    Disciplined (Stands m (some c)) (do call (.close (← getConn)); call (.delete (← getConn)); x)
      Q := by
  have hclose : netMonitor.next m (.close (some c)) = some (.closed c) := by
    rcases hm with rfl | rfl <;> simp [netMonitor]
  have hdelete : netMonitor.next (.closed c) (.delete (some c)) = some .listening := by
    simp [netMonitor]
  exact disciplined_call_conn hclose (disciplined_call_conn hdelete h)

theorem disciplined_networkServe (build : Build) (results : List RecvResult) {c : ℕ} :
    Disciplined (Stands (.accepted c) (some c)) (networkServe build results) fun r m s =>
      (m = .accepted c ∨ (r ≠ none ∧ m = .drained c)) ∧ s.pConn = some c := by
  induction results with
  | nil => exact .pure fun m s hs => ⟨Or.inl hs.1, hs.2⟩
  | cons result results ih =>
    cases result with
    | failed err herr =>
      have hrecv : netMonitor.next (.accepted c) (.recv (some c) none) = some (.broken c) := by
        simp [netMonitor]
      refine disciplined_call_conn hrecv <|
        (disciplined_call (n := .drained c) rfl).bind fun _ => .pure fun m s hs => ?_
      exact ⟨Or.inr ⟨by simp, hs.1⟩, hs.2⟩
    | received netbuf =>
      have hrecv : ∀ p, netMonitor.next (.accepted c) (.recv (some c) (some p)) =
          some (.held c p) := by
        simp [netMonitor]
      have hdelete : ∀ p, netMonitor.next (.held c p) (.netbufDelete (some p)) =
          some (.accepted c) := by
        simp [netMonitor]
      refine disciplined_handOut.bind fun p => disciplined_call_conn (hrecv p) <|
        (disciplined_onSession _).bind fun err => (disciplined_call (hdelete p)).bind fun _ => ?_
      split_ifs with herr
      · exact ih
      · exact .pure fun m s hs => ⟨Or.inl hs.1, hs.2⟩

/-- Where the monitor is when the thread waits or has exited. -/
def Rests : Awaits → Net → Prop
  | .accept, m => m = .listening
  | .recv, m => ∃ conn, m = .accepted conn
  | .nothing, m => m = .exited

theorem disciplined_loop (build : Build) (accepts : List AcceptResult) :
    Disciplined (fun m _ => m = .listening) (networkTcpServerLoop build accepts)
      fun awaits m _ => Rests awaits m := by
  induction accepts with
  | nil => exact (disciplined_setConn none).bind fun _ => .pure fun m s hs => hs.1
  | cons accept accepts ih =>
    have hloop : ∀ {conn}, Disciplined (Stands .listening conn) (networkTcpServerLoop build accepts)
        fun awaits m _ => Rests awaits m := fun m s hm hs => ih m s hm hs.1
    cases accept with
    | failed err herr =>
      exact (disciplined_setConn none).bind fun _ =>
        (disciplined_call (n := .listening) rfl).bind fun _ => hloop
    | accepted results =>
      refine (disciplined_setConn none).bind fun _ => disciplined_handOut.bind fun c =>
        Guarded.bind (fun m s hm hs => disciplined_setConn (some c) m s hm hs.1) fun _ =>
        (disciplined_call (n := .accepted c) rfl).bind fun _ =>
        (disciplined_silent silent_lock).bind fun locked => ?_
      cases locked with
      | false => exact disciplined_finish (Or.inl rfl) hloop
      | true =>
        refine (disciplined_networkServe build results).bind fun r => ?_
        cases r with
        | none =>
          refine .pure fun m s hs => ⟨c, hs.1.resolve_right fun h => h.1 rfl⟩
        | some err =>
          rintro m s hm ⟨hstands, hconn⟩
          have hrelease : ∀ w, ∃ a w', gdbSessionRelease.run w = .ok a w' ∧ w'.trace = w.trace :=
            fun w => ⟨_, _, rfl, rfl⟩
          exact disciplined_finish (hstands.imp_right And.right)
            ((disciplined_silent hrelease).bind fun _ => hloop) m s hm ⟨rfl, hconn⟩

def Station.initial (w : World) : Station := ⟨w, none, 0, []⟩

/-- Whatever lwIP reports and whatever has become of the session, the thread keeps to the
discipline of lwIP, also up to an assertion that halts it. -/
theorem thread_disciplined (build : Build) (new : Bool) (bind : ErrT)
    (accepts : List AcceptResult) (w : World) :
    Keeps netMonitor Station.calls (fun awaits m _ => Rests awaits m)
      ((networkTcpServer build new bind accepts).run (.initial w)) := by
  have hthread : Disciplined (Stands .start none) (networkTcpServer build new bind accepts)
      fun awaits m _ => Rests awaits m := by
    refine (disciplined_call (n := if new then .created else .exited) rfl).bind fun _ => ?_
    cases new with
    | false => exact .pure fun m s hs => hs.1
    | true =>
      refine (disciplined_call (n := if bind = .ok then .bound else .exited) rfl).bind fun _ => ?_
      by_cases hbind : bind = .ok
      · simp only [hbind, ne_eq, not_true_eq_false, ↓reduceIte]
        refine (disciplined_call (n := .listening) rfl).bind fun _ => ?_
        exact fun m s hm hs => disciplined_loop build accepts m s hm hs.1
      · simp only [hbind, ne_eq, not_false_eq_true, ↓reduceIte]
        exact .pure fun m s hs => hs.1
  exact hthread .start (.initial w) rfl ⟨rfl, rfl⟩

/-- Connections one after the other, as the session sees them, until one of them is left waiting. -/
def serveConnections (build : Build) : List (List RecvResult) → Routine (List Connection)
  | [] => return []
  | results :: rest => do
    match ← NetBmp.networkTcpServer build results with
    | .waiting => return [.waiting]
    | connection => do return connection :: (← serveConnections build rest)

def acceptedOf : AcceptResult → Option (List RecvResult)
  | .accepted results => some results
  | .failed _ _ => none

/-- Calls that do not concern the session. -/
def Apart {α : Type} (x : Thread α) : Prop :=
  ∀ s, ∃ a t, x.run s = .ok a t ∧ t.world = s.world

theorem apart_call (c : NetCall) : Apart (call c) := fun _ => ⟨_, _, rfl, rfl⟩

theorem apart_getConn : Apart getConn := fun _ => ⟨_, _, rfl, rfl⟩

theorem apart_setConn (conn : Option ℕ) : Apart (setConn conn) := fun _ => ⟨_, _, rfl, rfl⟩

theorem apart_handOut : Apart handOut := fun _ => ⟨_, _, rfl, rfl⟩

/-- The thread does to the session what the routine does to its world. -/
def Mirrors {α β : Type} (x : Thread α) (y : Routine β) (R : α → β → Prop) : Prop :=
  ∀ s, match x.run s with
    | .ok a t => ∃ b, y.run s.world = .ok b t.world ∧ R a b
    | .error e t => y.run s.world = .error e t.world

theorem Mirrors.bind {α β γ δ : Type} {x : Thread α} {y : Routine β} {R : α → β → Prop}
    {f : α → Thread γ} {g : β → Routine δ} {S : γ → δ → Prop} (h : Mirrors x y R)
    (hf : ∀ a b, R a b → Mirrors (f a) (g b) S) : Mirrors (x >>= f) (y >>= g) S := by
  intro s
  have hx := h s
  cases hrun : x.run s with
  | ok a t =>
    rw [hrun] at hx
    obtain ⟨b, hy, hR⟩ := hx
    rw [run_bind_of_ok hrun, run_bind_of_ok hy]
    exact hf a b hR t
  | error e t =>
    rw [hrun] at hx
    rw [run_bind_of_error hrun, run_bind_of_error hx]

theorem Apart.mirrors {α γ δ : Type} {x : Thread α} {f : α → Thread γ} {y : Routine δ}
    {S : γ → δ → Prop} (h : Apart x) (hf : ∀ a, Mirrors (f a) y S) : Mirrors (x >>= f) y S := by
  intro s
  obtain ⟨a, t, hrun, hworld⟩ := h s
  rw [run_bind_of_ok hrun, ← hworld]
  exact hf a t

theorem mirrors_pure {α β : Type} {a : α} {b : β} {R : α → β → Prop} (h : R a b) :
    Mirrors (pure a) (pure b) R := fun _ => ⟨b, rfl, h⟩

theorem mirrors_onSession {α : Type} (x : Routine α) : Mirrors (onSession x) x Eq := by
  intro s
  cases hrun : x.run s.world with
  | ok a w =>
    rw [run_onSession_ok hrun]
    exact ⟨a, rfl, rfl⟩
  | error e w =>
    rw [run_onSession_error hrun]
    rfl

theorem mirrors_networkServe (build : Build) (results : List RecvResult) :
    Mirrors (networkServe build results) (NetBmp.networkServe build results) Eq := by
  induction results with
  | nil => exact mirrors_pure rfl
  | cons result results ih =>
    cases result with
    | failed err herr =>
      exact apart_getConn.mirrors fun _ => (apart_call _).mirrors fun _ =>
        (apart_call _).mirrors fun _ => mirrors_pure rfl
    | received netbuf =>
      refine apart_handOut.mirrors fun p => apart_getConn.mirrors fun _ =>
        (apart_call _).mirrors fun _ => (mirrors_onSession _).bind fun err _ heq =>
        (apart_call _).mirrors fun _ => ?_
      subst heq
      split_ifs
      · exact ih
      · exact mirrors_pure rfl

/-- Where the thread waits when some connections have been served. -/
def WaitsFor (awaits : Awaits) (connections : List Connection) : Prop :=
  awaits = if .waiting ∈ connections then .recv else .accept

theorem WaitsFor.cons {awaits : Awaits} {connections : List Connection}
    (h : WaitsFor awaits connections) {connection : Connection} (hne : connection ≠ .waiting) :
    WaitsFor awaits (connection :: connections) := by
  rw [WaitsFor, h]
  simp [hne.symm]

theorem Mirrors.cons {x : Thread Awaits} {y : Routine (List Connection)}
    (h : Mirrors x y WaitsFor) {connection : Connection} (hne : connection ≠ .waiting) :
    Mirrors x (do return connection :: (← y)) WaitsFor := by
  intro s
  have hx := h s
  cases hrun : x.run s with
  | ok a t =>
    rw [hrun] at hx
    obtain ⟨connections, hy, hwaits⟩ := hx
    exact ⟨connection :: connections, run_bind_of_ok hy _, hwaits.cons hne⟩
  | error e t =>
    rw [hrun] at hx
    exact run_bind_of_error hx _

theorem serveConnections_cons (build : Build) (results : List RecvResult)
    (rest : List (List RecvResult)) :
    serveConnections build (results :: rest) = do
      let locked ← gdbSessionLock .tcpIp .networkGdbWriteCb
      if locked then
        match ← NetBmp.networkServe build results with
        | none => return [.waiting]
        | some err => do
          gdbSessionRelease
          return .closed err :: (← serveConnections build rest)
      else return .rejected :: (← serveConnections build rest) := by
  rw [serveConnections, NetBmp.networkTcpServer, bind_assoc]
  congr 1
  funext locked
  cases locked with
  | false => rfl
  | true =>
    simp only [Bool.not_true, Bool.false_eq_true, ↓reduceIte, bind_assoc]
    congr 1
    funext r
    cases r with
    | none => rfl
    | some err => simp only [bind_assoc, pure_bind]

theorem mirrors_loop (build : Build) (accepts : List AcceptResult) :
    Mirrors (networkTcpServerLoop build accepts)
      (serveConnections build (accepts.filterMap acceptedOf)) WaitsFor := by
  induction accepts with
  | nil => exact (apart_setConn none).mirrors fun _ => mirrors_pure rfl
  | cons accept accepts ih =>
    cases accept with
    | failed err herr =>
      exact (apart_setConn none).mirrors fun _ => (apart_call _).mirrors fun _ => ih
    | accepted results =>
      have hfirst : (AcceptResult.accepted results :: accepts).filterMap acceptedOf =
          results :: accepts.filterMap acceptedOf := rfl
      rw [hfirst, serveConnections_cons]
      refine (apart_setConn none).mirrors fun _ => apart_handOut.mirrors fun c =>
        (apart_setConn _).mirrors fun _ => (apart_call _).mirrors fun _ =>
        (mirrors_onSession _).bind fun locked _ heq => ?_
      subst heq
      cases locked with
      | false =>
        refine apart_getConn.mirrors fun _ => (apart_call _).mirrors fun _ =>
          apart_getConn.mirrors fun _ => (apart_call _).mirrors fun _ => ih.cons (by decide)
      | true =>
        refine (mirrors_networkServe build results).bind fun r _ heq => ?_
        subst heq
        cases r with
        | none => exact mirrors_pure rfl
        | some err =>
          refine apart_getConn.mirrors fun _ => (apart_call _).mirrors fun _ =>
            apart_getConn.mirrors fun _ => (apart_call _).mirrors fun _ =>
            (mirrors_onSession _).bind fun _ _ _ => ih.cons (by simp)

theorem mirrors_networkTcpServer (build : Build) (accepts : List AcceptResult) :
    Mirrors (networkTcpServer build true .ok accepts)
      (serveConnections build (accepts.filterMap acceptedOf)) WaitsFor :=
  (apart_call _).mirrors fun _ => (apart_call _).mirrors fun _ =>
    (apart_call _).mirrors fun _ => mirrors_loop build accepts

/-- From a session that is free, every connection gets it, and gives it back when it is closed. -/
theorem serveConnections_served {build : Build} {w w' : World} {results : List (List RecvResult)}
    {connections : List Connection} (h : History build w)
    (hrun : (serveConnections build results).run w = .ok connections w') :
    .rejected ∉ connections ∧ (.waiting ∉ connections → History build w') := by
  induction results generalizing w connections with
  | nil =>
    cases hrun
    exact ⟨List.not_mem_nil, fun _ => h⟩
  | cons first rest ih =>
    have hlock := run_gdbSessionLock_free h.vacated.free .tcpIp .networkGdbWriteCb
    have hserver := @run_networkTcpServer build first _ _ hlock
    cases hserve : (NetBmp.networkServe build first).run (w.lockBy .tcpIp .networkGdbWriteCb) with
    | error e w₁ =>
      rw [hserve] at hserver
      rw [serveConnections, run_bind_of_error hserver] at hrun
      cases hrun
    | ok r w₁ =>
      rw [hserve] at hserver
      cases r with
      | none =>
        rw [serveConnections, run_bind_of_ok hserver] at hrun
        cases hrun
        exact ⟨by decide, fun hn => absurd (List.mem_singleton_self _) hn⟩
      | some err =>
        rw [serveConnections, run_bind_of_ok hserver] at hrun
        have hnext := History.connection h first hserver
        cases hrest : (serveConnections build rest).run _ with
        | error e w₂ =>
          rw [run_bind_of_error hrest] at hrun
          cases hrun
        | ok later w₂ =>
          rw [run_bind_of_ok hrest] at hrun
          cases hrun
          obtain ⟨hserved, hhistory⟩ := ih hnext hrest
          refine ⟨?_, fun hn => hhistory fun hw => hn (List.mem_cons_of_mem _ hw)⟩
          simp [hserved]

def Station.boot (writeResults : ℕ → ErrT) : Station :=
  .initial (endOf (gdbSessionInit.run (.boot writeResults)))

/-- The thread gets as far as its loop. -/
def Listens (new : Bool) (bind : ErrT) : Prop := new = true ∧ bind = .ok

instance (new : Bool) (bind : ErrT) : Decidable (Listens new bind) := by
  unfold Listens; infer_instance

theorem networkTcpServer_exits (build : Build) {new : Bool} {bind : ErrT} (h : ¬Listens new bind)
    (accepts : List AcceptResult) (s : Station) :
    ∃ t, (networkTcpServer build new bind accepts).run s = .ok .nothing t ∧ t.world = s.world := by
  cases new with
  | false => exact ⟨_, rfl, rfl⟩
  | true =>
    cases bind with
    | ok => exact absurd ⟨rfl, rfl⟩ h
    | abrt => exact ⟨_, rfl, rfl⟩
    | other code => exact ⟨_, rfl, rfl⟩

/-- How the thread leaves the session: it has served the accepted connections one after the other,
and none of them was turned away. While it waits for a connection, the session is free. A thread that
cannot listen exits and has not touched the session. -/
def Serves (build : Build) (writeResults : ℕ → ErrT) (new : Bool) (bind : ErrT)
    (accepts : List AcceptResult) : EStateM.Result String Station Awaits → Prop
  | .ok awaits t =>
    if Listens new bind then
      ∃ connections, (serveConnections build (accepts.filterMap acceptedOf)).run
          (Station.boot writeResults).world = .ok connections t.world ∧
        .rejected ∉ connections ∧ WaitsFor awaits connections ∧
        (awaits = .accept → History build t.world)
    else awaits = .nothing ∧ t.world = (Station.boot writeResults).world
  | .error e t => Listens new bind ∧
      (serveConnections build (accepts.filterMap acceptedOf)).run (Station.boot writeResults).world =
        .error e t.world

/-- To the session, the thread is nothing but the connections that it accepts. -/
theorem thread_serves (build : Build) (writeResults : ℕ → ErrT) (new : Bool) (bind : ErrT)
    (accepts : List AcceptResult) : Serves build writeResults new bind accepts
      ((networkTcpServer build new bind accepts).run (.boot writeResults)) := by
  by_cases hlistens : Listens new bind
  · obtain ⟨rfl, rfl⟩ := hlistens
    have hthread := mirrors_networkTcpServer build accepts (.boot writeResults)
    cases hrun : (networkTcpServer build true .ok accepts).run (.boot writeResults) with
    | error e t =>
      rw [hrun] at hthread
      exact ⟨⟨rfl, rfl⟩, hthread⟩
    | ok awaits t =>
      rw [hrun] at hthread
      obtain ⟨connections, hserve, hwaits⟩ := hthread
      have hinit : History build (Station.boot writeResults).world := .init writeResults rfl
      obtain ⟨hserved, hhistory⟩ := serveConnections_served hinit hserve
      refine ⟨connections, hserve, hserved, hwaits, fun hawaits => hhistory fun hmem => ?_⟩
      rw [hwaits, if_pos hmem] at hawaits
      cases hawaits
  · obtain ⟨t, hrun, hworld⟩ :=
      networkTcpServer_exits build hlistens accepts (.boot writeResults)
    rw [hrun, Serves, if_neg hlistens]
    exact ⟨rfl, hworld⟩

end TcpServer
end NetBmp
