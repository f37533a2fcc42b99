import Realm.Proofs.Message.RoundTrip
import Realm.Proofs.Server.Closing
import Realm.Proofs.Wire.Framing
import Realm.Server.Handler

/-!
# What a client receives

Events are sent to a connection, it is flushed and closed, and its writer takes items and handles
them, in any order. Main statement: once the writer takes a close, the bytes at the socket are, for
a client that reads packets and then events, the events that were accepted, in order, and then the
end of the stream; and the writer writes nothing afterwards.
-/

namespace Realm

open Wire (Packet WireError)

/-- The events of a stream of packets, as a client reads them, and what ends the reading if it is
not the end of the stream. -/
def Event.readAll (limit : Nat) (s : Wire.Stream) :
    List (Except WireError Event) × Option WireError :=
  let (packets, fault, _) := Packet.readAll limit s
  (packets.map ofPacket, fault)

structure Outlet where
  connection : Connection
  writer : Downlink
  deriving DecidableEq, Repr

namespace Outlet

/-- What is done with an outlet, by the server or by the writer. -/
inductive Step where
  | send (event : Event)
  | flush
  | close
  /-- The writer takes the first items, or all, and handles them. -/
  | take (n : Option Nat)

def Step.use : Step → Use
  | .send e => .send e.toPacket
  | .flush => .flush
  | .close => .close
  | .take n => .take n

def start (id : ConnectionId) (address : SocketAddress) (capacity : Nat) : Outlet :=
  ⟨.fresh id address capacity, .fresh⟩

def takes (o : Outlet) (s : Step) : List Outbound := o.connection.yields s.use

/-- The outlet after a step. A writer that has stopped is gone. -/
def step (o : Outlet) (s : Step) : Outlet :=
  let writer := o.writer.handleAll (o.takes s)
  let connection := o.connection.use s.use
  ⟨if writer.finished then connection.dropWriter else connection, writer⟩

def sends (o : Outlet) : Step → List Event
  | .send e => if (o.connection.send e.toPacket).1 then [e] else []
  | _ => []

def run (o : Outlet) (steps : List Step) : Outlet := steps.foldl step o

def taken (o : Outlet) : List Step → List Outbound
  | [] => []
  | s :: steps => o.takes s ++ (o.step s).taken steps

def sent (o : Outlet) : List Step → List Event
  | [] => []
  | s :: steps => o.sends s ++ (o.step s).sent steps

def bytes (events : List Event) : List UInt8 := Packet.join (events.map Event.toPacket)

variable {o : Outlet} {s : Step} {events : List Event} {items : List Outbound}

theorem bytes_append (events more : List Event) :
    bytes (events ++ more) = bytes events ++ bytes more := by
  simp [bytes, Packet.join]

theorem bytesOf_append (items more : List Outbound) :
    Downlink.bytesOf (items ++ more) = Downlink.bytesOf items ++ Downlink.bytesOf more :=
  List.flatMap_append

/-- What a step adds to the queue has the bytes of the event that it sends. -/
theorem bytesOf_accepts (o : Outlet) (s : Step) :
    Downlink.bytesOf (o.connection.accepts s.use) = bytes (o.sends s) := by
  cases s with
  | send e =>
      by_cases h : (o.connection.send e.toPacket).1 = true <;>
        simp [Step.use, Connection.accepts, sends, h, Downlink.bytesOf, bytes, Packet.join]
  | flush =>
      by_cases h : o.connection.flush.1 = true <;>
        simp [Step.use, Connection.accepts, sends, h, Downlink.bytesOf, bytes, Packet.join]
  | close =>
      by_cases h : (!o.connection.closed && (o.connection.enqueue .close).1) = true <;>
        simp [Step.use, Connection.accepts, sends, h, Downlink.bytesOf, bytes, Packet.join]
  | take n => rfl

theorem sends_of_closed (h : o.connection.closed = true) (s : Step) : o.sends s = [] := by
  cases s with
  | send e =>
      have hrefused : (o.connection.send e.toPacket).1 = false := by
        rw [Connection.send, Connection.offer_fst, h]
        rfl
      simp [sends, hrefused]
  | _ => rfl

/-! ## Where a close stands -/

/-- A close stands at the end of some items, and only if the connection is closed. -/
def ClosesLast (closed : Bool) (items : List Outbound) : Prop :=
  ∀ front rest, items = front ++ .close :: rest → rest = [] ∧ closed = true

theorem ClosesLast.notMem (h : ClosesLast false items) : .close ∉ items := fun hmem => by
  obtain ⟨front, rest, heq⟩ := List.append_of_mem hmem
  exact nomatch (h front rest heq).2

/-- What a connection accepts goes behind what was there, which then holds no close. -/
theorem closesLast_append {k : Connection} (h : ClosesLast k.closed items) (u : Use) :
    ClosesLast (k.use u).closed (items ++ k.accepts u) := by
  by_cases hclosed : k.closed = true
  · rw [Connection.accepts_of_closed hclosed, List.append_nil, Connection.closed_use, hclosed]
    rwa [hclosed] at h
  have hopen : k.closed = false := by simpa using hclosed
  rw [hopen] at h
  have hitems : .close ∉ items := h.notMem
  intro front rest heq
  cases hu : k.accepts u with
  | nil =>
      rw [hu, List.append_nil] at heq
      simp [heq] at hitems
  | cons item more =>
      have hone : k.accepts u = [item] ∧ (item = .close → u = .close) := by
        cases u <;> simp only [Connection.accepts] at hu ⊢ <;> grind
      rw [hone.1] at heq
      rcases List.eq_nil_or_concat rest with rfl | ⟨init, last, rfl⟩
      · have hlast : item = .close := by simpa using congrArg List.getLast? heq
        exact ⟨rfl, by simp [Connection.closed_use, hone.2 hlast]⟩
      · have hsplit : items ++ [item] = (front ++ .close :: init) ++ [last] := by simpa using heq
        have hfront : items = front ++ .close :: init := (List.append_inj' hsplit rfl).1
        simp [hfront] at hitems

theorem ClosesLast.of_suffix {closed : Bool} {front : List Outbound}
    (h : ClosesLast closed (front ++ items)) : ClosesLast closed items := fun before rest heq =>
  h (front ++ before) rest (by rw [heq, List.append_assoc])

/-- Items with a close that stands last. -/
theorem ClosesLast.exists_init {closed : Bool} {rest : List Outbound}
    (h : ClosesLast closed (items ++ rest)) (hmem : .close ∈ items) :
    ∃ init, items = init ++ [.close] ∧ .close ∉ init ∧ rest = [] ∧ closed = true := by
  obtain ⟨init, more, rfl, hfirst⟩ := List.eq_append_cons_of_mem hmem
  obtain ⟨hnil, hclosed⟩ := h init (more ++ rest) (by simp)
  obtain ⟨rfl, rfl⟩ := List.append_eq_nil_iff.mp hnil
  exact ⟨init, rfl, hfirst, rfl, hclosed⟩

/-! ## The bytes of what was accepted -/

/-- Where the bytes of the accepted events are. As long as the writer has taken no close, they are
written or wait in the queue. After that they are all at the socket, and it is over. -/
inductive Carries (o : Outlet) (events : List Event) (items : List Outbound) : Prop
  | running (notMem : .close ∉ items) (finished : o.writer.finished = false)
      (there : o.connection.writerGone = false)
      (last : ClosesLast o.connection.closed o.connection.queue.items)
      (bytes_eq : o.writer.written ++ Downlink.bytesOf o.connection.queue.items = bytes events)
  | stopped (mem : .close ∈ items) (writer_eq : o.writer = ⟨[], bytes events, true⟩)
      (gone : o.connection.dropWriter = o.connection) (closed : o.connection.closed = true)

theorem carries_start (id : ConnectionId) (address : SocketAddress) (capacity : Nat) :
    Carries (start id address capacity) [] [] :=
  have hlast : ClosesLast false [] := fun front rest heq => by simp at heq
  .running nofun rfl rfl hlast rfl

/-- Nothing happens at an outlet whose writer has stopped. -/
theorem step_of_stopped (hfinished : o.writer.finished = true)
    (hgone : o.connection.dropWriter = o.connection) (hclosed : o.connection.closed = true)
    (s : Step) : o.takes s = [] ∧ o.sends s = [] ∧ (o.step s).writer = o.writer ∧
      (o.step s).connection.dropWriter = (o.step s).connection ∧
      (o.step s).connection.closed = true := by
  have hthere : o.connection.writerGone = true := by rw [← hgone]; rfl
  have htakes : o.takes s = [] := by
    cases s <;> simp [takes, Step.use, Connection.yields, Connection.drain, hthere]
  have hwriter : (o.step s).writer = o.writer := by simp [step, htakes, Downlink.handleAll]
  have hconnection : (o.step s).connection = (o.connection.use s.use).dropWriter := by
    simp [step, htakes, Downlink.handleAll, hfinished]
  refine ⟨htakes, sends_of_closed hclosed s, hwriter, by rw [hconnection]; rfl, ?_⟩
  simp [hconnection, Connection.dropWriter, Connection.closed_use, hclosed]

theorem run_of_stopped (hfinished : o.writer.finished = true)
    (hgone : o.connection.dropWriter = o.connection) (hclosed : o.connection.closed = true)
    (later : List Step) : (o.run later).writer = o.writer ∧ o.sent later = [] := by
  induction later generalizing o with
  | nil => exact ⟨rfl, rfl⟩
  | cons s later ih =>
      obtain ⟨-, hsends, hwriter, hgone', hclosed'⟩ := step_of_stopped hfinished hgone hclosed s
      obtain ⟨hrun, hsent⟩ := ih (hwriter ▸ hfinished) hgone' hclosed'
      exact ⟨hrun.trans hwriter, by rw [sent, hsends, hsent]; rfl⟩

theorem Carries.step (h : Carries o events items) (s : Step) :
    Carries (o.step s) (events ++ o.sends s) (items ++ o.takes s) := by
  cases h with
  | stopped mem writer_eq gone closed =>
      obtain ⟨htakes, hsends, hwriter, hgone, hclosed⟩ :=
        step_of_stopped (by rw [writer_eq]) gone closed s
      rw [htakes, hsends, List.append_nil, List.append_nil]
      exact .stopped mem (hwriter.trans writer_eq) hgone hclosed
  | running notMem finished there last bytes_eq =>
      have hqueue : o.takes s ++ (o.connection.use s.use).queue.items =
          o.connection.queue.items ++ o.connection.accepts s.use :=
        o.connection.yields_append_items s.use
      have hlast := hqueue ▸ closesLast_append last s.use
      have hbytes : o.writer.written ++ Downlink.bytesOf (o.takes s) ++
          Downlink.bytesOf (o.connection.use s.use).queue.items = bytes (events ++ o.sends s) := by
        rw [List.append_assoc, ← bytesOf_append, hqueue, bytesOf_append, ← List.append_assoc,
          bytes_eq, bytesOf_accepts, bytes_append]
      by_cases hmem : .close ∈ o.takes s
      · obtain ⟨init, htakes, hinit, hnil, hclosed⟩ := hlast.exists_init hmem
        obtain ⟨hrunning, hwritten⟩ := Downlink.handleAll_of_running finished hinit
        have hwriter : o.writer.handleAll (o.takes s) =
            ⟨[], bytes (events ++ o.sends s), true⟩ := by
          rw [hnil, htakes, bytesOf_append, ← List.append_assoc, ← hwritten] at hbytes
          have hbytes' : (o.writer.handleAll init).written = bytes (events ++ o.sends s) := by
            simpa [Downlink.bytesOf] using hbytes
          rw [htakes, Downlink.handleAll_append, ← hbytes']
          exact Downlink.handle_close hrunning
        have hconnection : (o.step s).connection = (o.connection.use s.use).dropWriter := by
          simp [Outlet.step, hwriter]
        refine .stopped (List.mem_append_right _ hmem) hwriter (by rw [hconnection]; rfl) ?_
        rw [hconnection]
        exact hclosed
      · obtain ⟨hrunning, hwritten⟩ := Downlink.handleAll_of_running finished hmem
        have hconnection : (o.step s).connection = o.connection.use s.use := by
          simp [Outlet.step, hrunning]
        refine .running (by simp [notMem, hmem]) hrunning ?_ ?_ ?_
        · rw [hconnection, Connection.writerGone_use, there]
        · rw [hconnection]
          exact hlast.of_suffix
        · rw [hconnection, ← hbytes, ← hwritten]
          rfl

theorem Carries.run (h : Carries o events items) (steps : List Step) :
    Carries (o.run steps) (events ++ o.sent steps) (items ++ o.taken steps) := by
  induction steps generalizing o events items with
  | nil => simpa [sent, taken, run] using h
  | cons s steps ih =>
      rw [sent, taken, ← List.append_assoc, ← List.append_assoc]
      exact ih (h.step s)

theorem sent_append (o : Outlet) (steps later : List Step) :
    o.sent (steps ++ later) = o.sent steps ++ (o.run steps).sent later := by
  induction steps generalizing o with
  | nil => rfl
  | cons s steps ih =>
      rw [List.cons_append, sent, ih, sent, List.append_assoc]
      rfl

theorem run_append (o : Outlet) (steps later : List Step) :
    o.run (steps ++ later) = (o.run steps).run later := List.foldl_append

/-- A writer that takes everything makes one of the steps. -/
theorem Carries.drain_eq (h : Carries o events items) :
    o.writer.drain o.connection =
      ((o.step (.take none)).writer, (o.step (.take none)).connection) := by
  cases h with
  | running notMem finished there last bytes_eq =>
      simp [Downlink.drain, Outlet.step, takes, Step.use, Connection.yields, Connection.use,
        Connection.drain, there]
  | stopped mem writer_eq gone closed =>
      have hthere : o.connection.writerGone = true := by rw [← gone]; rfl
      simp [Downlink.drain, Outlet.step, takes, Step.use, Connection.yields, Connection.use,
        Connection.drain, hthere, Downlink.handleAll, writer_eq, gone]

/-! ## The main statement -/

/-- A client that accepts payloads of their lengths reads events from their bytes. -/
theorem readAll_bytes {limit : Nat} {chunks : List (List UInt8)}
    (hshort : ∀ e ∈ events, e.toPacket.payload.length < 2 ^ 32)
    (hlimit : ∀ e ∈ events, e.toPacket.payload.length ≤ limit)
    (hchunks : chunks.flatten = bytes events) :
    Event.readAll limit ⟨chunks, none⟩ = (events.map .ok, none) := by
  have hfits : ∀ p ∈ events.map Event.toPacket, p.payload.length < 2 ^ 32 := by simpa using hshort
  obtain ⟨fs, hpackets, hframes⟩ := Packet.exists_frames hfits
  have hall : Wire.Frame.AllFit limit fs := fun f hf => by
    have hmem : f.packet ∈ events.map Event.toPacket := hpackets ▸ List.mem_map_of_mem hf
    obtain ⟨e, he, heq⟩ := List.mem_map.mp hmem
    exact (congrArg (·.payload.length) heq) ▸ hlimit e he
  obtain ⟨left, hread⟩ := Packet.readAll_join (s := ⟨chunks, none⟩) hall
    (hchunks.trans (Packet.join_of_bytes hframes)) rfl
  have hevents : (events.map Event.toPacket).map Event.ofPacket = events.map .ok := by
    rw [List.map_map]
    refine List.map_congr_left fun e he => ?_
    exact Event.ofPacket_toPacket (Event.fits_of_length (hshort e he))
  simp [Event.readAll, hread, hpackets, hevents]

structure Delivers (o : Outlet) (steps : List Step) : Prop where
  /-- When the writer has taken a close, what is at the socket is read as the accepted events and
  then the end of the stream. -/
  received : .close ∈ o.taken steps → ∀ limit chunks,
    (∀ e ∈ o.sent steps, e.toPacket.payload.length ≤ limit) →
    chunks.flatten = (o.run steps).writer.pushed →
    Event.readAll limit ⟨chunks, none⟩ = ((o.sent steps).map .ok, none)
  /-- Nothing is written after that, and nothing accepted. -/
  silent : .close ∈ o.taken steps → ∀ later,
    (o.run (steps ++ later)).writer = (o.run steps).writer ∧
      o.sent (steps ++ later) = o.sent steps
  /-- Until then the bytes of the accepted events are written or wait. -/
  held : .close ∉ o.taken steps → (o.run steps).writer.written ++
    Downlink.bytesOf (o.run steps).connection.queue.items = bytes (o.sent steps)
  /-- The writer ends the stream when it takes the close. -/
  finished_iff : (o.run steps).writer.finished = true ↔ .close ∈ o.taken steps
  /-- The handler of the connection makes such steps. -/
  write_eq : ∀ (h : Handler) (t : Connections), h.downlink = (o.run steps).writer →
    t.find? h.client = some (o.run steps).connection →
    h.write t = ({ h with downlink := (o.run (steps ++ [.take none])).writer },
      t.modify h.client fun _ => (o.run (steps ++ [.take none])).connection)

/-- Whatever is done with a new connection, its client receives what was accepted. -/
theorem start_delivers (id : ConnectionId) (address : SocketAddress) (capacity : Nat)
    (steps : List Step) (hshort : ∀ e ∈ (start id address capacity).sent steps,
      e.toPacket.payload.length < 2 ^ 32) : (start id address capacity).Delivers steps := by
  have hcarries := (carries_start id address capacity).run steps
  rw [List.nil_append, List.nil_append] at hcarries
  have hwrite : ∀ (h : Handler) (t : Connections),
      h.downlink = ((start id address capacity).run steps).writer →
      t.find? h.client = some ((start id address capacity).run steps).connection →
      h.write t =
        ({ h with downlink := ((start id address capacity).run (steps ++ [.take none])).writer },
          t.modify h.client fun _ =>
            ((start id address capacity).run (steps ++ [.take none])).connection) := by
    intro h t hdownlink hfind
    rw [Handler.write, hfind, run_append]
    dsimp only
    rw [hdownlink, hcarries.drain_eq]
    rfl
  cases hcarries with
  | running notMem finished there last bytes_eq =>
      exact ⟨fun hmem => absurd hmem notMem, fun hmem => absurd hmem notMem, fun _ => bytes_eq,
        by simp [finished, notMem], hwrite⟩
  | stopped mem writer_eq gone closed =>
      refine ⟨fun _ limit chunks hlimit hchunks => ?_, fun _ later => ?_,
        fun hnot => absurd mem hnot, by simp [writer_eq, mem], hwrite⟩
      · rw [writer_eq] at hchunks
        exact readAll_bytes hshort hlimit hchunks
      · obtain ⟨hwriter, hsent⟩ := run_of_stopped (by rw [writer_eq]) gone closed later
        rw [run_append, sent_append, hsent, List.append_nil]
        exact ⟨hwriter, rfl⟩

/-- Of three events the second finds the queue full. The writer takes the first alone, then a flush
and the close. -/
theorem start_delivers_of_refused :
    let o := start 1 (.v4 [127, 0, 0, 1] 4000) 1
    let steps : List Step := [.send (.pong 1), .send (.pong 2), .take (some 1), .flush, .take none,
      .send (.pong 3), .take (some 1), .close, .take none]
    o.sent steps = [.pong 1, .pong 3] ∧ .close ∈ o.taken steps ∧ o.Delivers steps := by
  intro o steps
  have hsent : o.sent steps = [.pong 1, .pong 3] := by decide +kernel
  have htaken : .close ∈ o.taken steps := by decide +kernel
  have hshort : ∀ e ∈ o.sent steps, e.toPacket.payload.length < 2 ^ 32 := by
    rw [hsent]
    decide +kernel
  exact ⟨hsent, htaken, start_delivers 1 (.v4 [127, 0, 0, 1] 4000) 1 steps hshort⟩

end Outlet

end Realm
