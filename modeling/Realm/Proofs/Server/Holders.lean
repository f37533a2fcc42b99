import Realm.Proofs.Net.Dealings
import Realm.Proofs.Server.Closing
import Realm.Proofs.Session.Feed

/-!
# The holders of a connection

A session, the login service, the simulation and the table of connections all hold on to a
connection, and each sends, flushes and closes as it sees fit. Main statement: whatever they do,
call by call in any order, and whatever the writer takes until it goes away, the writer gets what
was granted, in order, and behind the one close there is nothing.
-/

namespace Realm

inductive Hold where
  /-- Its session hands an event to the writer. -/
  | write (e : Event)
  /-- Its session hands an event to the writer and flushes. -/
  | send (e : Event)
  | flush
  /-- Its session drains its events. -/
  | drain (x : Session)
  /-- Its session ends. -/
  | hangUp (x : Session)
  /-- The login service or the simulation turns its client away. -/
  | dismiss (p : Wire.Packet)
  | close
  deriving DecidableEq, Repr

namespace Session

/-- Events are handed over one by one, up to the first that is refused. -/
theorem exists_writeAll_eq_useAll (events : List Event) (k : Connection) :
    ∃ offered, offered <+: events ∧
      (writeAll events k).2.1 = k.useAll (offered.map fun e => .send e.toPacket) := by
  induction events generalizing k with
  | nil => exact ⟨[], List.nil_prefix, rfl⟩
  | cons e rest ih =>
      cases haccepted : (write k e).1 with
      | false =>
          refine ⟨[e], List.prefix_append [e] rest, ?_⟩
          have hsame : (write k e).2 = k := Connection.offer_of_refused haccepted
          rw [writeAll_of_refused haccepted]
          exact hsame.symm
      | true =>
          obtain ⟨offered, hprefix, heq⟩ := ih (write k e).2
          refine ⟨e :: offered, (List.cons_prefix_cons).mpr ⟨rfl, hprefix⟩, ?_⟩
          rw [writeAll_of_accepted haccepted]
          exact heq

/-- To drain events is to send some of them and to flush. -/
theorem exists_drainEvents_eq_useAll (x : Session) (k : Connection) :
    ∃ us : List Use, (∀ n, .take n ∉ us) ∧ (x.drainEvents k).2 = k.useAll us := by
  obtain ⟨offered, -, heq⟩ := exists_writeAll_eq_useAll x.events.items k
  have hsends : ∀ n, .take n ∉ offered.map fun e => Use.send e.toPacket := by simp
  unfold drainEvents
  split
  · exact ⟨[], by simp, rfl⟩
  · by_cases hwritten : (writeAll x.events.items k).2.2 > 0
    · refine ⟨offered.map (fun e => .send e.toPacket) ++ [.flush], by simp, ?_⟩
      rw [Connection.useAll_append, ← heq]
      exact if_pos hwritten
    · exact ⟨_, hsends, (if_neg hwritten).trans heq⟩

end Session

namespace Connection

def hold (k : Connection) : Hold → Connection
  | .write e => (Session.write k e).2
  | .send e => (Session.send k e).2
  | .flush => k.flush.2
  | .drain x => (x.drainEvents k).2
  | .hangUp x => x.hangUp k
  | .dismiss p => k.dismiss p
  | .close => k.close

/-- Holders do nothing but send, flush and close; they never take what is for the writer. -/
theorem exists_hold_eq_useAll (k : Connection) (h : Hold) :
    ∃ us : List Use, (∀ n, .take n ∉ us) ∧ k.hold h = k.useAll us := by
  cases h with
  | write e => exact ⟨[.send e.toPacket], by simp, rfl⟩
  | send e => exact ⟨[.send e.toPacket, .flush], by simp, Session.send_eq_useAll k e⟩
  | flush => exact ⟨[.flush], by simp, rfl⟩
  | drain x => exact Session.exists_drainEvents_eq_useAll x k
  | hangUp x =>
      by_cases hx : x.terminated = true
      · exact ⟨[], by simp, if_pos hx⟩
      · exact ⟨[.close], by simp, if_neg hx⟩
  | dismiss p => exact ⟨[.send p, .flush, .close], by simp, rfl⟩
  | close => exact ⟨[.close], by simp, rfl⟩

theorem dealAll_use (k : Connection) (us : List Use) : k.dealAll (us.map .use) = k.useAll us :=
  List.foldl_map

end Connection

namespace Connections

variable {t : Connections} {id : ConnectionId} {k : Connection}

theorem find?_closeEach (ids : List ConnectionId) (t : Connections) (c : ConnectionId) :
    (ids.foldl (fun t id => t.modify id Connection.close) t).find? c =
      if c ∈ ids then (t.find? c).map Connection.close else t.find? c := by
  have hid : ∀ k : Connection, k.close.id = k.id := fun k => k.id_use .close
  induction ids generalizing t with
  | nil => simp
  | cons id ids ih =>
      have htwice : Connection.close ∘ Connection.close = Connection.close :=
        funext fun k => Connection.close_of_closed k.closed_close
      rw [List.foldl_cons, ih, find?_modify fun k _ => hid k]
      by_cases hc : c = id
      · subst hc
        rw [if_pos rfl, if_pos List.mem_cons_self, Option.map_map, htwice]
        split <;> rfl
      · simp only [List.mem_cons, hc, false_or, if_false]

theorem find?_closeAll (h : t.get? id = some k) : t.closeAll.2.find? id = some k.close := by
  obtain ⟨hregistered, hfound⟩ := Option.ite_none_right_eq_some.mp h
  rw [closeAll, find?_closeEach, if_pos hregistered, hfound, Option.map_some]

end Connections

/-! ## The main statement -/

namespace Connection

/-- How a connection with so many places stands after these dealings. -/
structure Orderly (start : Connection) (places : Nat) (ds : List Dealing) : Prop where
  /-- What the writer has taken, what was lost with it and what still waits is, in order, what was
  granted, and at most one close as the very last. -/
  items_eq : start.received ds ++ start.lost ds ++ (start.dealAll ds).queue.items =
    start.granted ds ++ start.sealed ds
  sealed_eq : start.sealed ds = [] ∨ start.sealed ds = [.close]
  close_notMem : .close ∉ start.granted ds
  /-- Nothing is lost while the writer is there. -/
  lost_eq : .leave ∉ ds → start.lost ds = []
  /-- The close is there if the first one found a writer and a place. -/
  sealed_iff : start.sealed ds = [.close] ↔ ∃ before after, ds = before ++ .use .close :: after ∧
    .use .close ∉ before ∧ .leave ∉ before ∧
      (start.dealAll before).queue.items.length < places
  closed_iff : (start.dealAll ds).closed = true ↔ .use .close ∈ ds
  writerGone_iff : (start.dealAll ds).writerGone = true ↔ .leave ∈ ds
  /-- An item is granted while the connection is open, its writer is there and its queue has room.
  A refused call changes nothing. -/
  send_iff : ∀ p, ((start.dealAll ds).send p).1 = true ↔
    .use .close ∉ ds ∧ .leave ∉ ds ∧ (start.dealAll ds).queue.items.length < places
  flush_iff : (start.dealAll ds).flush.1 = true ↔
    .use .close ∉ ds ∧ .leave ∉ ds ∧ (start.dealAll ds).queue.items.length < places
  send_eq : ∀ p, ((start.dealAll ds).send p).2 = if ((start.dealAll ds).send p).1 then
      { start.dealAll ds with queue := (start.dealAll ds).queue.push (.packet p) }
    else start.dealAll ds
  flush_eq : (start.dealAll ds).flush.2 = if (start.dealAll ds).flush.1 then
      { start.dealAll ds with queue := (start.dealAll ds).queue.push .flush }
    else start.dealAll ds
  /-- A connection that is closed stays closed and grants nothing more, -/
  final : .use .close ∈ ds → ∀ later, (start.dealAll (ds ++ later)).closed = true ∧
    start.granted (ds ++ later) = start.granted ds ∧ start.sealed (ds ++ later) = start.sealed ds
  /-- and closing it again has no effect. -/
  again : .use .close ∈ ds → (start.dealAll ds).close = start.dealAll ds
  /-- All that its holders do is such dealings. -/
  held : ∀ h : Hold, ∃ us : List Use, (∀ n, .take n ∉ us) ∧
    (start.dealAll ds).hold h = start.dealAll (ds ++ us.map .use)
  removed : ∀ t : Connections, t.get? start.id = some (start.dealAll ds) →
    (t.remove start.id).2.find? start.id = some (start.dealAll (ds ++ [.use .close]))
  closedAll : ∀ t : Connections, t.get? start.id = some (start.dealAll ds) →
    t.closeAll.2.find? start.id = some (start.dealAll (ds ++ [.use .close]))

variable {k : Connection} {places : Nat} {ds : List Dealing}

theorem offer_snd (k : Connection) (item : Outbound) : (k.offer item).2 =
    if (k.offer item).1 then { k with queue := k.queue.push item } else k := by
  cases haccepted : (k.offer item).1 with
  | true => exact offer_of_accepted haccepted
  | false => exact offer_of_refused haccepted

theorem sealed_iff (hopen : k.closed = false) (hthere : k.writerGone = false) :
    k.sealed ds = [.close] ↔ ∃ before after, ds = before ++ .use .close :: after ∧
      .use .close ∉ before ∧ .leave ∉ before ∧
        (k.dealAll before).queue.items.length < k.queue.capacity := by
  have hfound : ∀ before : List Dealing, .use .close ∉ before →
      ((k.dealAll before).closed = false ∧ (k.dealAll before).writerGone = false ∧
          (k.dealAll before).queue.items.length < (k.dealAll before).queue.capacity ↔
        .leave ∉ before ∧ (k.dealAll before).queue.items.length < k.queue.capacity) := by
    intro before hfirst
    rw [closed_dealAll, writerGone_dealAll, capacity_dealAll, hopen, hthere]
    simp [hfirst]
  constructor
  · intro h
    by_cases hmem : .use .close ∈ ds
    · obtain ⟨before, after, rfl, hfirst⟩ := List.eq_append_cons_of_mem hmem
      rw [(sealed_of_close hfirst after).1, seals_close] at h
      split at h
      · next hroom => exact ⟨before, after, rfl, hfirst, (hfound before hfirst).mp hroom⟩
      · cases h
    · rw [sealed_of_open hmem] at h
      cases h
  · rintro ⟨before, after, rfl, hfirst, hroom⟩
    rw [(sealed_of_close hfirst after).1, seals_close]
    exact if_pos ((hfound before hfirst).mpr hroom)

theorem sealed_cases (k : Connection) (ds : List Dealing) :
    k.sealed ds = [] ∨ k.sealed ds = [.close] := by
  by_cases hmem : .use .close ∈ ds
  · obtain ⟨before, after, rfl, hfirst⟩ := List.eq_append_cons_of_mem hmem
    rw [(sealed_of_close hfirst after).1, seals_close]
    split
    · exact .inr rfl
    · exact .inl rfl
  · exact .inl (sealed_of_open hmem)

/-- Whatever its holders and its writer do, the writer of a connection gets what was granted, and
nothing behind the close. -/
theorem fresh_orderly (id : ConnectionId) (address : SocketAddress) (capacity : Nat)
    (ds : List Dealing) : (fresh id address capacity).Orderly (max 1 capacity) ds := by
  let start := fresh id address capacity
  let now := start.dealAll ds
  have hclosed : now.closed = true ↔ .use .close ∈ ds := by
    rw [closed_dealAll]
    exact decide_eq_true_iff
  have hgone : now.writerGone = true ↔ .leave ∈ ds := by
    rw [writerGone_dealAll]
    exact decide_eq_true_iff
  have hplaces : now.queue.capacity = max 1 capacity := start.capacity_dealAll ds
  have hoffer : ∀ item, (now.offer item).1 = true ↔
      .use .close ∉ ds ∧ .leave ∉ ds ∧ now.queue.items.length < max 1 capacity := by
    intro item
    rw [offer_eq_true_iff, hplaces, ← hclosed, ← hgone, Bool.not_eq_true, Bool.not_eq_true]
  have hclose : now.close = start.dealAll (ds ++ [.use .close]) :=
    (start.dealAll_append ds [.use .close]).symm
  refine ⟨?_, sealed_cases start ds, close_notMem_granted start ds, fun h => lost_of_there h start,
    sealed_iff rfl rfl, hclosed, hgone, fun p => hoffer _, hoffer _, fun p => now.offer_snd _,
    now.offer_snd _, ?_, fun h => close_of_closed (hclosed.mpr h), ?_, ?_, ?_⟩
  · rw [← admitted_eq]
    exact start.received_append_items ds
  · intro h later
    obtain ⟨hgranted, hsealed⟩ := granted_sealed_of_closed (hclosed.mpr h) later
    refine ⟨?_, ?_, ?_⟩
    · rw [dealAll_append, closed_dealAll, hclosed.mpr h, Bool.true_or]
    · rw [granted_append, hgranted, List.append_nil]
    · rw [sealed_append, hsealed, List.append_nil]
  · intro h
    obtain ⟨us, hus, heq⟩ := now.exists_hold_eq_useAll h
    exact ⟨us, hus, by rw [heq, dealAll_append, dealAll_use]⟩
  · intro t hk
    rw [← hclose, Connections.remove, hk]
    exact Connections.find?_close (Connections.find?_of_get? hk)
  · intro t hk
    rw [← hclose]
    exact Connections.find?_closeAll hk

end Connection

end Realm
