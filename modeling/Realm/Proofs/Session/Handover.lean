import Realm.Proofs.Session.Attendance
import Realm.Proofs.Session.Feed

/-!
# Handing events over to a writer, exactly

The queue of a writer has room for so many items. It gets that many of the first events of a
session; the event behind them is refused and lost, and the others stay where they are. If anything
was accepted a flush is offered behind it.
-/

namespace Realm

def Outbound.packet? : Outbound → Option Wire.Packet
  | .packet p => some p
  | _ => none

def Outbound.packetsIn (items : List Outbound) : List Wire.Packet := items.filterMap packet?

theorem Outbound.packetsIn_append (items later : List Outbound) :
    packetsIn (items ++ later) = packetsIn items ++ packetsIn later := List.filterMap_append

/-- An event that left a session, and whether the writer accepted it. -/
structure Handed where
  event : Event
  accepted : Bool
  deriving DecidableEq, Repr

namespace Handed

def written (hs : List Handed) : List Event := (hs.filter (·.accepted)).map (·.event)

def refused (hs : List Handed) : List Event := (hs.filter (!·.accepted)).map (·.event)

theorem written_append (hs later : List Handed) :
    written (hs ++ later) = written hs ++ written later := by
  rw [written, List.filter_append, List.map_append, written, written]

theorem refused_append (hs later : List Handed) :
    refused (hs ++ later) = refused hs ++ refused later := by
  rw [refused, List.filter_append, List.map_append, refused, refused]

/-- Handing over events of which all but the last ones are accepted. -/
theorem written_accept_append (events lost : List Event) :
    written (events.map (⟨·, true⟩) ++ lost.map (⟨·, false⟩)) = events := by
  rw [written_append, written, written, List.filter_map, List.filter_map]
  simp [Function.comp_def]

theorem refused_accept_append (events lost : List Event) :
    refused (events.map (⟨·, true⟩) ++ lost.map (⟨·, false⟩)) = lost := by
  rw [refused_append, refused, refused, List.filter_map, List.filter_map]
  simp [Function.comp_def]

end Handed

namespace Connection

variable {k : Connection} {items later : List Outbound}

/-! ## The room for items -/

/-- How many items the queue of a connection still accepts: none if it is closed or its writer is
gone, else as many as there are free places. -/
def space (k : Connection) : Nat := if k.closed || k.writerGone then 0 else k.queue.room

def load (k : Connection) (items : List Outbound) : Connection :=
  { k with queue := { k.queue with items := k.queue.items ++ items } }

theorem load_nil (k : Connection) : k.load [] = k := by
  rw [load, List.append_nil]

theorem load_load (k : Connection) (items later : List Outbound) :
    (k.load items).load later = k.load (items ++ later) := by
  rw [load, load, load, List.append_assoc]

theorem space_load (k : Connection) (items : List Outbound) :
    (k.load items).space = k.space - items.length := by
  have hroom : (k.load items).queue.room = k.queue.room - items.length := by
    simp only [load, Bounded.room, List.length_append]
    omega
  have hclosed : (k.load items).closed = k.closed := rfl
  have hgone : (k.load items).writerGone = k.writerGone := rfl
  rw [space, space, hroom, hclosed, hgone]
  split
  · exact (Nat.zero_sub _).symm
  · rfl

/-- An item is accepted exactly if there is room for it. -/
theorem offer_eq (k : Connection) (item : Outbound) :
    k.offer item = if 0 < k.space then (true, k.load [item]) else (false, k) := by
  have hroom : 0 < k.queue.room ↔ ¬ k.queue.isFull = true := by
    simp only [Bounded.isFull, Bounded.room, decide_eq_true_eq]
    omega
  obtain ⟨id, address, queue, closed, writerGone⟩ := k
  cases closed with
  | true => rfl
  | false =>
      cases writerGone with
      | true => rfl
      | false =>
          by_cases hfull : queue.isFull = true
          · have hnone : ¬ 0 < queue.room := fun hpos => hroom.mp hpos hfull
            simp [offer, enqueue, space, Bounded.offer, hfull, hnone]
          · have hpos : 0 < queue.room := hroom.mpr hfull
            simp [offer, enqueue, space, Bounded.offer, hfull, hpos, Bounded.push, load]

end Connection

namespace Session

variable {x x' : Session} {k k' : Connection}

/-! ## Events -/

def packets (events : List Event) : List Outbound := events.map fun e => .packet e.toPacket

/-- As many events are written as there is room for, and the one behind them is lost. -/
theorem writeAll_eq (events : List Event) (k : Connection) : writeAll events k =
    (events.drop (k.space + 1), k.load (packets (events.take k.space)),
      min events.length k.space) := by
  induction events generalizing k with
  | nil => simp [writeAll, packets, k.load_nil]
  | cons e rest ih =>
      have hwrite : write k e = if 0 < k.space then (true, k.load [.packet e.toPacket])
          else (false, k) := k.offer_eq _
      cases hspace : k.space with
      | zero =>
          have hrefused : write k e = (false, k) := by rw [hwrite, hspace]; rfl
          simp [writeAll, hrefused, packets, k.load_nil]
      | succ n =>
          have haccepted : write k e = (true, k.load [.packet e.toPacket]) := by
            rw [hwrite, hspace]
            exact if_pos (Nat.succ_pos n)
          have hleft : (k.load [.packet e.toPacket]).space = n := by
            rw [k.space_load, hspace]
            rfl
          simp [writeAll, haccepted, ih, hleft, packets, k.load_load]

/-- What draining a session into a connection comes to. -/
structure HandsOver (x : Session) (k : Connection) (x' : Session) (k' : Connection) : Prop where
  /-- The writer gets as many of the first events as it has room for, in order, and behind them a
  flush is offered if there is one. -/
  writer : k' = if x.events.items.take k.space = [] then k
    else (k.load (packets (x.events.items.take k.space))).flush.2
  /-- The flush is accepted if there is still room. -/
  items : k'.queue.items = k.queue.items ++ packets (x.events.items.take k.space) ++
    if 0 < x.events.items.length ∧ x.events.items.length < k.space then [.flush] else []
  /-- If no event waits the writer gets nothing. -/
  idle : x.events.items = [] → k' = k
  /-- If there is room for all events none is left. -/
  emptied : x.events.items.length ≤ k.space → x'.events.items = []
  /-- Otherwise the first one without room is lost, and all later ones stay in order. -/
  dropped : k.space < x.events.items.length → ∃ e, x.events.items[k.space]? = some e ∧
    x.events.items = x.events.items.take k.space ++ e :: x'.events.items
  /-- Nothing else of the session changes. -/
  rest : x' = { x with events := { x.events with items := x'.events.items } }

theorem min_eq_zero_iff (events : List Event) (room : Nat) :
    min events.length room = 0 ↔ events.take room = [] := by
  rw [← List.length_eq_zero_iff, List.length_take, Nat.min_comm]

/-- Draining a session that has not ended. -/
theorem drainEvents_of_lasting (hx : x.terminated = false) (k : Connection) :
    x.drainEvents k =
      ({ x with events := { x.events with items := x.events.items.drop (k.space + 1) } },
        if x.events.items.take k.space = [] then k
        else (k.load (packets (x.events.items.take k.space))).flush.2) := by
  have hwrites : x.drainEvents k =
      ({ x with events := { x.events with items := x.events.items.drop (k.space + 1) } },
        if min x.events.items.length k.space > 0 then
          (k.load (packets (x.events.items.take k.space))).flush.2
        else k.load (packets (x.events.items.take k.space))) := by
    rw [drainEvents, hx, writeAll_eq]
    rfl
  rw [hwrites]
  congr 1
  by_cases hempty : x.events.items.take k.space = []
  · have hzero := (min_eq_zero_iff _ _).mpr hempty
    simp [hzero, hempty, packets, k.load_nil]
  · have hpos : min x.events.items.length k.space > 0 :=
      Nat.pos_of_ne_zero fun heq => hempty ((min_eq_zero_iff _ _).mp heq)
    rw [if_pos hpos, if_neg hempty]

/-- A flush behind events finds a place if there is more room than there are events. -/
theorem items_flush_load (events : List Event) (k : Connection) :
    (k.load (packets (events.take k.space))).flush.2.queue.items =
      k.queue.items ++ packets (events.take k.space) ++
        if events.length < k.space then [.flush] else [] := by
  have hlength : (packets (events.take k.space)).length = min events.length k.space := by
    rw [packets, List.length_map, List.length_take, Nat.min_comm]
  rw [Connection.flush, Connection.offer_eq, Connection.space_load, hlength]
  by_cases hroom : events.length < k.space
  · rw [if_pos (by omega), if_pos hroom]
    rfl
  · rw [if_neg (by omega), if_neg hroom, List.append_nil]
    rfl

theorem handsOver_drainEvents (hx : x.terminated = false) (k : Connection) :
    x.HandsOver k (x.drainEvents k).1 (x.drainEvents k).2 := by
  rw [drainEvents_of_lasting hx k]
  refine ⟨rfl, ?_, fun hidle => ?_, fun hroom => ?_, fun hfull => ?_, rfl⟩
  · have hzero := min_eq_zero_iff x.events.items k.space
    by_cases hempty : x.events.items.take k.space = []
    · have hcount := hzero.mpr hempty
      rw [if_pos hempty, if_neg (by omega), hempty]
      simp [packets]
    · have hcount : 0 < x.events.items.length := by
        have hpos := mt hzero.mp hempty
        omega
      rw [if_neg hempty, items_flush_load]
      simp only [hcount, true_and]
  · exact if_pos (by rw [hidle, List.take_nil])
  · exact List.drop_eq_nil_of_le (by omega)
  · exact ⟨x.events.items[k.space], List.getElem?_eq_getElem hfull, by simp⟩

/-- The events that draining takes from a session: those that are accepted, and behind them the one
that is refused. -/
def handed (x : Session) (k : Connection) : List Handed :=
  if x.terminated then []
  else (x.events.items.take k.space).map (⟨·, true⟩) ++
    x.events.items[k.space]?.toList.map (⟨·, false⟩)

theorem written_handed (hx : x.terminated = false) (k : Connection) :
    Handed.written (x.handed k) = x.events.items.take k.space := by
  rw [handed, hx]
  exact Handed.written_accept_append _ _

theorem refused_handed (hx : x.terminated = false) (k : Connection) :
    Handed.refused (x.handed k) = x.events.items[k.space]?.toList := by
  rw [handed, hx]
  exact Handed.refused_accept_append _ _

/-- What waits before draining is what draining takes and what waits behind it. -/
theorem items_drainEvents (x : Session) (k : Connection) :
    x.events.items = (x.handed k).map (·.event) ++ (x.drainEvents k).1.events.items := by
  cases hx : x.terminated with
  | true => simp [handed, drainEvents, hx]
  | false =>
      have hdrain := handsOver_drainEvents hx k
      rw [handed, hx]
      by_cases hroom : x.events.items.length ≤ k.space
      · rw [hdrain.emptied hroom]
        simp [List.getElem?_eq_none hroom, List.take_of_length_le hroom, Function.comp_def]
      · obtain ⟨e, he, hsplit⟩ := hdrain.dropped (Nat.lt_of_not_le hroom)
        simpa [he, Function.comp_def] using hsplit

/-- What is accepted is written as packets, behind all that was written before. -/
theorem packetsIn_drainEvents (x : Session) (k : Connection) :
    Outbound.packetsIn (x.drainEvents k).2.queue.items = Outbound.packetsIn k.queue.items ++
      (Handed.written (x.handed k)).map Event.toPacket := by
  cases hx : x.terminated with
  | true => simp [handed, drainEvents, hx, Handed.written]
  | false =>
      have hpackets : ∀ events, Outbound.packetsIn (packets events) =
          events.map Event.toPacket := by
        intro events
        rw [Outbound.packetsIn, packets, List.filterMap_map, ← List.filterMap_eq_map]
        rfl
      have hflush : ∀ p : Prop, [Decidable p] →
          Outbound.packetsIn (if p then [.flush] else []) = [] := by
        intro p _
        split <;> rfl
      rw [(handsOver_drainEvents hx k).items, written_handed hx, Outbound.packetsIn_append,
        Outbound.packetsIn_append, hpackets, hflush, List.append_nil]

end Session

namespace Lobby

/-! ## In a lobby -/

def seat (l : Lobby) (c : ConnectionId) : Option Session × Option Connection :=
  (l.session? c, l.connections.find? c)

/-- What draining does to a session and its connection, if both are there. -/
def drainSeat : Option Session × Option Connection → Option Session × Option Connection
  | (some x, some k) => (some (x.drainEvents k).1, some (x.drainEvents k).2)
  | seat => seat

def handed : Option Session × Option Connection → List Handed
  | (some x, some k) => x.handed k
  | _ => []

/-- A session and a connection that are both there after draining were there before. -/
theorem exists_of_drainSeat {seat : Option Session × Option Connection} {y : Session}
    {k' : Connection} (h : drainSeat seat = (some y, some k')) :
    ∃ z k, seat = (some z, some k) ∧ (z.drainEvents k).1 = y ∧ (z.drainEvents k).2 = k' := by
  obtain ⟨_ | z, _ | k⟩ := seat
  · cases h
  · cases h
  · cases h
  · exact ⟨z, k, rfl, Option.some.inj (congrArg Prod.fst h), Option.some.inj (congrArg Prod.snd h)⟩

/-- What waits before draining is what draining takes and what waits behind it. -/
theorem items_drainSeat {seat : Option Session × Option Connection} {x y : Session}
    (hx : seat.1 = some x) (hy : (drainSeat seat).1 = some y) :
    x.events.items = (handed seat).map (·.event) ++ y.events.items := by
  obtain ⟨session, connection⟩ := seat
  obtain rfl : session = some x := hx
  cases connection with
  | none =>
      obtain rfl : x = y := Option.some.inj hy
      rfl
  | some k =>
      obtain rfl : (x.drainEvents k).1 = y := Option.some.inj hy
      exact x.items_drainEvents k

/-- What is accepted is written as packets, behind all that was written before. -/
theorem packetsIn_drainSeat (seat : Option Session × Option Connection) :
    Outbound.packetsIn (((drainSeat seat).2.map (·.queue.items)).getD []) =
      Outbound.packetsIn ((seat.2.map (·.queue.items)).getD []) ++
        (Handed.written (handed seat)).map Event.toPacket := by
  obtain ⟨session, connection⟩ := seat
  cases session with
  | none => exact (List.append_nil _).symm
  | some x =>
      cases connection with
      | none => rfl
      | some k => exact x.packetsIn_drainEvents k

/-- Draining concerns one session and its connection. -/
theorem seat_drainEvents (l : Lobby) (id c : ConnectionId) :
    (l.drainEvents id).seat c = if c = id then drainSeat (l.seat c) else l.seat c := by
  unfold drainEvents
  cases hx : l.session? id with
  | none =>
      refine (ite_eq_right_iff.mpr ?_).symm
      rintro rfl
      rw [seat, hx]
      rfl
  | some x =>
      cases hk : l.connections.find? id with
      | none =>
          refine (ite_eq_right_iff.mpr ?_).symm
          rintro rfl
          rw [seat, hx, hk]
          rfl
      | some k =>
          obtain ⟨left, -, hdrained⟩ := x.drainEvents_eq k
          have hsession := l.sessions.get?_modify (f := fun _ => (x.drainEvents k).1)
            (fun _ _ => (congrArg Session.connection hdrained).trans
              (Sessions.get?_eq_some hx).2) c
          have hid : k.id = id := by simpa using List.find?_some hk
          have hconnection := Connections.find?_modify (t := l.connections)
            (f := fun _ => (x.drainEvents k).2)
            (fun k' hk' => ((congrArg Prod.fst (x.label_drainEvents k)).trans hid).trans hk'.symm) c
          have hseat : ((l.modifySession id fun _ => (x.drainEvents k).1).modifyConnection id
              fun _ => (x.drainEvents k).2).seat c =
              (if c = id then (l.session? id).map fun _ => (x.drainEvents k).1 else l.session? c,
                if c = id then (l.connections.find? id).map fun _ => (x.drainEvents k).2
                else l.connections.find? c) := congr (congrArg Prod.mk hsession) hconnection
          refine hseat.trans ?_
          rw [hx, hk]
          by_cases hc : c = id
          · subst hc
            rw [if_pos rfl, if_pos rfl, if_pos rfl, seat, hx, hk]
            rfl
          · rw [if_neg hc, if_neg hc, if_neg hc, seat]

end Lobby

end Realm
