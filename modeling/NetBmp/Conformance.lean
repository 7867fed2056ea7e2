import NetBmp.SessionMachine

/-!
# The protocol of every run

Whatever is called, and whether it halts or not: what the session does follows one protocol, and
its executions, acknowledgements and replies balance with what it has received.
-/

namespace NetBmp
namespace Conformance

open Hex Halting Server SessionStream Serve Abort Effects WireFormat Machines SessionMachine

/-- What an event records, without the callback and the result of a write. -/
def actionOf : Event → Action
  | .handle input => .handle input
  | .consumed length => .consumed length
  | .execute stored => .execute stored
  | .write _ data _ => .send data

def Observation.action : Observation → List Action
  | .event e => [actionOf e]
  | _ => []

/-- All that a run of the session does. -/
def actionsOf (build : Build) (writeResults : ℕ → ErrT) (operations : List Operation) :
    List Action :=
  ((sessionMachine build).run (initialized writeResults) operations).1.flatMap Observation.action

def resultOf (build : Build) (writeResults : ℕ → ErrT) (operations : List Operation) :
    Except String World :=
  ((sessionMachine build).run (initialized writeResults) operations).2

def accepted (input : List UInt8) : List (List UInt8) :=
  match gdbPacketReadStream .zero input with
  | .ok (.ok, q, _) => [q.stored]
  | _ => []

def Refused (input : List UInt8) : Prop :=
  ∃ q k, gdbPacketReadStream .zero input = .ok (.checksumError, q, k)

instance (input : List UInt8) : Decidable (Refused input) :=
  match h : gdbPacketReadStream .zero input with
  | .ok (.checksumError, q, k) => .isTrue ⟨q, k, h⟩
  | .ok (.ok, q, k) | .ok (.collecting, q, k) | .ok (.overflow, q, k) =>
    .isFalse (by rintro ⟨_, _, hr⟩; rw [h] at hr; cases hr)
  | .error e => .isFalse (by rintro ⟨_, _, hr⟩; rw [h] at hr; cases hr)

def Unfinished (input : List UInt8) : Prop :=
  ∃ q k, gdbPacketReadStream .zero input = .ok (.collecting, q, k)

/-- A reply, as it is written. -/
def IsReply (data : List UInt8) : Prop := ∃ reply, data = wire reply ++ [0]

/-- The protocol: which action may follow which. -/
def Follows : Action → Action → Prop
  | .handle input, .send data => (data = [GdbPacketChar.ack] ∧ accepted input ≠ []) ∨
      (data = [GdbPacketChar.nack] ∧ Refused input)
  | .handle input, .consumed length => Unfinished input ∧ length = input.length
  | .send data, .execute _ => data = [GdbPacketChar.ack]
  | .execute _, .send data => IsReply data
  | .execute _, .consumed _ => True
  | .send data, .send data' => IsReply data ∧ IsReply data'
  | .send data, .consumed _ => IsReply data ∨ data = [GdbPacketChar.nack]
  | .consumed _, .handle _ => True
  | _, _ => False

def Begins : Action → Prop
  | .handle _ => True
  | _ => False

def Returns : Action → Prop
  | .consumed _ => True
  | _ => False

/-- A session halts when it is handed input, or when it executes a packet. -/
def Halts : Action → Prop
  | .handle _ | .execute _ => True
  | _ => False

theorem follows_of_returns (a b : Action) (ha : Returns a) (hb : Begins b) : Follows a b := by
  cases a with
  | consumed =>
    cases b with
    | handle => trivial
    | _ => cases hb
  | _ => cases ha

/-- The answers to an input, by what the reader makes of it. -/
inductive Answered (build : Build) (target : Option ℕ) (input : List UInt8) :
    List Action × Except String ℕ → Prop
  | halted (hread : ∃ e, gdbPacketReadStream .zero input = .error e) (e : String) :
    Answered build target input ([.handle input], .error e)
  | unfinished (hread : Unfinished input) :
    Answered build target input ([.handle input, .consumed input.length], .ok input.length)
  | refused (hread : Refused input) (k : ℕ) : Answered build target input
      ([.handle input, .send [GdbPacketChar.nack], .consumed k], .ok k)
  | replied {q : GdbPacket} {k : ℕ} {replies : List (List UInt8)}
      (hread : gdbPacketReadStream .zero input = .ok (.ok, q, k))
      (hrespond : respond build target q.stored = .ok replies) : Answered build target input
      (.handle input :: .send [GdbPacketChar.ack] :: .execute q.stored ::
        (replies.map fun reply => .send (wire reply ++ [0])) ++ [.consumed k], .ok k)
  | tripped {q : GdbPacket} {k : ℕ} {e : String}
      (hread : gdbPacketReadStream .zero input = .ok (.ok, q, k))
      (hrespond : respond build target q.stored = .error e) : Answered build target input
      ([.handle input, .send [GdbPacketChar.ack], .execute q.stored], .error e)

theorem answered (build : Build) (target : Option ℕ) (input : List UInt8) :
    Answered build target input (answer build target input) := by
  rcases readStream_cases .zero input with
    ⟨hbad, hread⟩ | ⟨hdigits, hend, q, hread, -⟩ | ⟨hdigits, k, hend, q, hread, hbuilt⟩
  · rw [answer, if_pos hbad]
    exact .halted ⟨_, hread⟩ _
  · rw [answer_rest build target hend hdigits]
    exact .unfinished ⟨_, _, hread⟩
  rw [answer, if_neg (by push Not; exact hdigits), hend]
  rcases verdict_cases (input.take k) with hok | hrefused
  · simp only [hok, ↓reduceIte, ← hbuilt.stored]
    rw [hok] at hread
    cases hr : respond build target q.stored with
    | ok replies => exact .replied hread hr
    | error e => exact .tripped hread hr
  · simp only [hrefused, reduceCtorEq, ↓reduceIte]
    rw [hrefused] at hread
    exact .refused ⟨_, _, hread⟩ k

theorem accepted_of_read {input : List UInt8} {q : GdbPacket} {k : ℕ}
    (h : gdbPacketReadStream .zero input = .ok (.ok, q, k)) : accepted input = [q.stored] := by
  rw [accepted, h]

theorem chain_replies (replies : List (List UInt8)) (k : ℕ) {a : Action}
    (ha : (∃ stored, a = .execute stored) ∨ ∃ data, a = .send data ∧ IsReply data) :
    List.IsChain Follows
      (a :: (replies.map fun reply => .send (wire reply ++ [0])) ++ [.consumed k]) := by
  induction replies generalizing a with
  | nil =>
    refine List.isChain_pair.mpr ?_
    rcases ha with ⟨stored, rfl⟩ | ⟨data, rfl, hreply⟩
    · trivial
    · exact Or.inl hreply
  | cons reply replies ih =>
    have hreply : IsReply (wire reply ++ [0]) := ⟨reply, rfl⟩
    refine List.isChain_cons_cons.mpr ⟨?_, ih (Or.inr ⟨_, rfl, hreply⟩)⟩
    rcases ha with ⟨stored, rfl⟩ | ⟨data, rfl, hdata⟩
    · exact hreply
    · exact ⟨hdata, hreply⟩

theorem follows_ack {input : List UInt8} {q : GdbPacket} {k : ℕ}
    (hread : gdbPacketReadStream .zero input = .ok (.ok, q, k)) :
    Follows (.handle input) (.send [GdbPacketChar.ack]) :=
  Or.inl ⟨rfl, by simp [accepted_of_read hread]⟩

theorem proper_answer (build : Build) (target : Option ℕ) (input : List UInt8) :
    Proper Follows Begins Returns Halts (answer build target input).1
      (answer build target input).2 := by
  have hbegins : ∀ actions : List Action, ∀ a ∈ (Action.handle input :: actions).head?, Begins a := by
    rintro actions a ⟨⟩
    trivial
  generalize answer build target input = answer, answered build target input = h
  cases h with
  | halted hread e =>
    exact ⟨⟨List.isChain_singleton _, hbegins _⟩, by rintro ⟨_, ⟨⟩⟩, fun _ => ⟨_, rfl, trivial⟩⟩
  | unfinished hread =>
    refine ⟨⟨List.isChain_pair.mpr ⟨hread, rfl⟩, hbegins _⟩, ?_, by rintro ⟨_, ⟨⟩⟩⟩
    rintro - a ⟨⟩
    trivial
  | refused hread k =>
    refine ⟨⟨List.isChain_cons_cons.mpr ⟨Or.inr ⟨rfl, hread⟩,
      List.isChain_pair.mpr (Or.inr rfl)⟩, hbegins _⟩, ?_, by rintro ⟨_, ⟨⟩⟩⟩
    rintro - a ⟨⟩
    trivial
  | @replied q k replies hread hrespond =>
    refine ⟨⟨List.isChain_cons_cons.mpr ⟨follows_ack hread, List.isChain_cons_cons.mpr ⟨rfl,
      chain_replies replies k (Or.inl ⟨_, rfl⟩)⟩⟩, hbegins _⟩, fun _ a ha => ?_, by rintro ⟨_, ⟨⟩⟩⟩
    rw [List.getLast?_concat] at ha
    cases ha
    trivial
  | @tripped q k e hread hrespond =>
    exact ⟨⟨List.isChain_cons_cons.mpr ⟨follows_ack hread, List.isChain_pair.mpr rfl⟩, hbegins _⟩,
      by rintro ⟨_, ⟨⟩⟩, fun _ => ⟨_, rfl, trivial⟩⟩

theorem map_actionOf_eventsOf (writeCb : GdbWriteCb) (writeResults : ℕ → ErrT)
    (actions : List Action) : (eventsOf writeCb writeResults actions).map actionOf = actions := by
  induction actions generalizing writeResults with
  | nil => rfl
  | cons action actions ih =>
    cases action with
    | send data => exact congrArg (_ :: ·) (ih _)
    | _ => exact congrArg (_ :: ·) (ih writeResults)

theorem actions_events (events : List Event) :
    (events.map Observation.event).flatMap Observation.action = events.map actionOf := by
  induction events with
  | nil => rfl
  | cons e events ih => exact congrArg (_ :: ·) ih

/-- What a slot does in one operation: nothing, or it halts because it is not active, or it does
what the server does. -/
theorem slot_step (build : Build) (s : Slot) (operation : Operation) :
    (((slotMachine build).step s operation).1.flatMap Observation.action = [] ∧
      ∃ s', ((slotMachine build).step s operation).2 = .ok s') ∨
    (∃ input, ((slotMachine build).step s operation).1.flatMap Observation.action =
        [.handle input] ∧
      ((slotMachine build).step s operation).2 = .error "Session inactive.") ∨
    ∃ input, ((slotMachine build).step s operation).1.flatMap Observation.action =
        (answer build none input).1 ∧
      SameEnd (fun _ _ => True) ((slotMachine build).step s operation).2
        (answer build none input).2 := by
  obtain ⟨holding, writeResults⟩ := s
  cases operation with
  | lock transport writeCb => cases holding <;> exact Or.inl ⟨rfl, _, rfl⟩
  | getState => exact Or.inl ⟨rfl, _, rfl⟩
  | release => exact Or.inl ⟨rfl, _, rfl⟩
  | handle input =>
    obtain _ | ⟨transport, writeCb, extended, _ | _⟩ := holding
    · exact Or.inr (Or.inl ⟨input, rfl, rfl⟩)
    · refine Or.inr (Or.inr ⟨input, ?_⟩)
      simp only [slotMachine, Slot.answer]
      rcases answer build none input with ⟨actions, e | k⟩
      · exact ⟨by rw [actions_events, map_actionOf_eventsOf], .error e⟩
      · refine ⟨?_, .ok trivial⟩
        rw [List.flatMap_append, actions_events, map_actionOf_eventsOf]
        exact List.append_nil _
    · exact Or.inr (Or.inl ⟨input, rfl, rfl⟩)

theorem proper_slot (build : Build) (s : Slot) (operation : Operation) :
    Proper Follows Begins Returns Halts
      (((slotMachine build).step s operation).1.flatMap Observation.action)
      ((slotMachine build).step s operation).2 := by
  rcases slot_step build s operation with
    ⟨hactions, s', hresult⟩ | ⟨input, hactions, hresult⟩ | ⟨input, hactions, hresult⟩
  · rw [hactions, hresult]
    exact ⟨.nil, fun _ _ h => (by cases h), by rintro ⟨e, ⟨⟩⟩⟩
  · rw [hactions, hresult]
    refine ⟨⟨List.isChain_singleton _, ?_⟩, by rintro ⟨_, ⟨⟩⟩, fun _ => ⟨_, rfl, trivial⟩⟩
    rintro a ⟨⟩
    trivial
  · rw [hactions]
    exact (proper_answer build none input).of_sameEnd hresult

theorem actionsOf_eq (build : Build) (writeResults : ℕ → ErrT) (operations : List Operation) :
    actionsOf build writeResults operations =
        ((slotMachine build).run ⟨none, writeResults⟩ operations).1.flatMap Observation.action ∧
      SameEnd Represents (resultOf build writeResults operations)
        ((slotMachine build).run ⟨none, writeResults⟩ operations).2 := by
  obtain ⟨hsame, hend⟩ := (simulates build).run_id (represents_initialized writeResults) operations
  exact ⟨congrArg (List.flatMap Observation.action) hsame, hend⟩

/-- Whatever is called and whatever becomes of the writes, the actions of the session follow the
protocol. A run that halts does so when the session is handed input or executes a packet. -/
theorem run_follows_protocol (build : Build) (writeResults : ℕ → ErrT)
    (operations : List Operation) :
    Proper Follows Begins Returns Halts (actionsOf build writeResults operations)
      (resultOf build writeResults operations) := by
  obtain ⟨hactions, hend⟩ := actionsOf_eq build writeResults operations
  rw [hactions]
  exact (run_proper follows_of_returns (proper_slot build) _ operations).of_sameEnd hend

def inputOf : Action → Option (List UInt8)
  | .handle input => some input
  | _ => none

def received (actions : List Action) : List (List UInt8) := actions.filterMap inputOf

def packetOf : Action → Option (List UInt8)
  | .execute stored => some stored
  | _ => none

def packets (actions : List Action) : List (List UInt8) := actions.filterMap packetOf

def replyData (build : Build) (stored : List UInt8) : List (List UInt8) :=
  match respond build none stored with
  | .ok replies => replies.map fun reply => wire reply ++ [0]
  | .error _ => []

def isReplyData (data : List UInt8) : Bool :=
  data ≠ [GdbPacketChar.ack] ∧ data ≠ [GdbPacketChar.nack]

/-- What is executed is what was accepted, with an acknowledgement each; each packet that was
refused has a negative acknowledgement; and all that is written besides are the replies. -/
structure Balances (build : Build) (actions : List Action) : Prop where
  executed : packets actions = (received actions).flatMap accepted
  acknowledged : (sentBy actions).count [GdbPacketChar.ack] = (packets actions).length
  refused : (sentBy actions).count [GdbPacketChar.nack] =
    (received actions).countP fun input => Refused input
  replied : (sentBy actions).filter isReplyData = (packets actions).flatMap (replyData build)

theorem Balances.nil (build : Build) : Balances build [] := ⟨rfl, rfl, rfl, rfl⟩

theorem Balances.append {build : Build} {xs ys : List Action} (hx : Balances build xs)
    (hy : Balances build ys) : Balances build (xs ++ ys) := by
  have hreceived : received (xs ++ ys) = received xs ++ received ys := List.filterMap_append ..
  have hpackets : packets (xs ++ ys) = packets xs ++ packets ys := List.filterMap_append ..
  have hsent : sentBy (xs ++ ys) = sentBy xs ++ sentBy ys := List.filterMap_append ..
  constructor
  · rw [hpackets, hreceived, List.flatMap_append, hx.executed, hy.executed]
  · rw [hpackets, hsent, List.count_append, List.length_append, hx.acknowledged, hy.acknowledged]
  · rw [hreceived, hsent, List.count_append, List.countP_append, hx.refused, hy.refused]
  · rw [hpackets, hsent, List.filter_append, List.flatMap_append, hx.replied, hy.replied]

theorem not_refused_of_read {input : List UInt8} {r : GdbPacketResult} {q : GdbPacket} {k : ℕ}
    (h : gdbPacketReadStream .zero input = .ok (r, q, k)) (hr : r ≠ .checksumError) :
    ¬Refused input := by
  rintro ⟨q', k', hrefused⟩
  rw [h] at hrefused
  cases hrefused
  exact hr rfl

theorem filter_replies (replies : List (List UInt8)) :
    (replies.map fun reply => wire reply ++ [0]).filter isReplyData =
      replies.map fun reply => wire reply ++ [0] := by
  refine List.filter_eq_self.mpr fun data hdata => ?_
  obtain ⟨reply, -, rfl⟩ := List.mem_map.mp hdata
  simp [isReplyData, wire]

theorem count_replies (replies : List (List UInt8)) {character : UInt8} :
    (replies.map fun reply => wire reply ++ [0]).count [character] = 0 := by
  refine List.count_eq_zero.mpr fun h => ?_
  obtain ⟨reply, -, hreply⟩ := List.mem_map.mp h
  simp [wire] at hreply

theorem balances_single {build : Build} {input : List UInt8} {actions : List Action}
    (hreceived : received actions = [input]) (hpackets : packets actions = accepted input)
    (hack : (sentBy actions).count [GdbPacketChar.ack] = (accepted input).length)
    (hnack : (sentBy actions).count [GdbPacketChar.nack] = if Refused input then 1 else 0)
    (hreplies : (sentBy actions).filter isReplyData =
      (accepted input).flatMap (replyData build)) : Balances build actions := by
  refine ⟨?_, by rw [hpackets, hack], ?_, by rw [hpackets, hreplies]⟩
  · rw [hreceived, hpackets, List.flatMap_singleton]
  · rw [hreceived, hnack, List.countP_singleton]
    simp

theorem balances_answer (build : Build) (input : List UInt8) :
    Balances build (answer build none input).1 := by
  generalize answer build none input = answer, answered build none input = h
  cases h with
  | halted hread e =>
    obtain ⟨e, hread⟩ := hread
    have haccepted : accepted input = [] := by rw [accepted, hread]
    have hrefused : ¬Refused input := by
      rintro ⟨q, k, h⟩
      rw [hread] at h
      cases h
    apply balances_single rfl <;> simp only [haccepted, hrefused] <;> rfl
  | unfinished hread =>
    obtain ⟨q, k, hread⟩ := hread
    have haccepted : accepted input = [] := by rw [accepted, hread]
    have hrefused := not_refused_of_read hread (by decide)
    apply balances_single rfl <;> simp only [haccepted, hrefused] <;> rfl
  | refused hrefused k =>
    have haccepted : accepted input = [] := by
      obtain ⟨q, k', hread⟩ := hrefused
      rw [accepted, hread]
    apply balances_single rfl <;> simp only [haccepted, hrefused] <;> rfl
  | @replied q k replies hread hrespond =>
    have hrefused := not_refused_of_read hread (by decide)
    have haccepted := accepted_of_read hread
    have hdata : replyData build q.stored = replies.map fun reply => wire reply ++ [0] := by
      rw [replyData, hrespond]
    let actions : List Action := .handle input :: .send [GdbPacketChar.ack] ::
      .execute q.stored :: (replies.map fun reply => .send (wire reply ++ [0])) ++ [.consumed k]
    have hsilent : ∀ f : Action → Option (List UInt8), (∀ data, f (.send data) = none) →
        f (.consumed k) = none → actions.filterMap f =
          [Action.handle input, .execute q.stored].filterMap f := by
      intro f hsend hconsumed
      simp [actions, hsend, hconsumed, List.filterMap_cons]
    have hsent : sentBy actions =
        [GdbPacketChar.ack] :: replies.map fun reply => wire reply ++ [0] :=
      congrArg ([GdbPacketChar.ack] :: ·) (sentBy_replies replies k)
    have hne : [GdbPacketChar.ack] ≠ [GdbPacketChar.nack] := by decide
    change Balances build actions
    apply balances_single
    · exact hsilent inputOf (fun _ => rfl) rfl
    · rw [haccepted]
      exact hsilent packetOf (fun _ => rfl) rfl
    · rw [haccepted, hsent, List.count_cons_self, count_replies]
      rfl
    · rw [if_neg hrefused, hsent, List.count_cons_of_ne hne, count_replies]
    · rw [haccepted, List.flatMap_singleton, hdata, hsent]
      exact filter_replies replies
  | @tripped q k e hread hrespond =>
    have hrefused := not_refused_of_read hread (by decide)
    have haccepted := accepted_of_read hread
    have hdata : replyData build q.stored = [] := by rw [replyData, hrespond]
    apply balances_single rfl <;>
      simp only [haccepted, hrefused, List.flatMap_singleton, hdata] <;> rfl

theorem balances_slot (build : Build) (s : Slot) (operation : Operation) :
    ((slotMachine build).step s operation).2 = .error "Session inactive." ∨
      Balances build (((slotMachine build).step s operation).1.flatMap Observation.action) := by
  rcases slot_step build s operation with
    ⟨hactions, -⟩ | ⟨input, -, hresult⟩ | ⟨input, hactions, -⟩
  · rw [hactions]
    exact Or.inr (.nil build)
  · exact Or.inl hresult
  · rw [hactions]
    exact Or.inr (balances_answer build input)

end Conformance
end NetBmp
