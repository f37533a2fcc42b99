import Realm.Account.Login
import Realm.Proofs.Net.Table
import Realm.Proofs.Net.Use
import Realm.Server.Downlink
import Realm.Simulation.Basic

/-!
# Closing a connection

However a connection is closed, the close is one more item for its queue. Main statement: the writer
takes what was accepted before, in order, and then the close if there was a place for it. In that
case it stops when it has taken everything, with all bytes pushed. A close that comes to a full
queue is lost: it is not offered again, and the writer never stops by itself.
-/

namespace Realm

/-! ## The writer -/

namespace Downlink

def bytesOf (items : List Outbound) : List UInt8 :=
  items.flatMap fun
    | .packet p => p.toBytes
    | .flush | .close => []

variable {d : Downlink} {items : List Outbound}

theorem handleAll_append (d : Downlink) (items rest : List Outbound) :
    d.handleAll (items ++ rest) = (d.handleAll items).handleAll rest := List.foldl_append

theorem finished_writeBytes (d : Downlink) (bytes : List UInt8) :
    (d.writeBytes bytes).finished = d.finished := by
  unfold writeBytes push
  split <;> split <;> rfl

/-- Without a close the writer goes on, and it has written every packet somewhere. -/
theorem handleAll_of_running (hd : d.finished = false) (hitems : .close ∉ items) :
    (d.handleAll items).finished = false ∧
      (d.handleAll items).written = d.written ++ bytesOf items := by
  induction items generalizing d with
  | nil => exact ⟨hd, (List.append_nil _).symm⟩
  | cons item items ih =>
      obtain ⟨hitem, hrest⟩ := not_or.mp (mt List.mem_cons.mpr hitems)
      have hone : (d.handle item).finished = false ∧
          (d.handle item).written = d.written ++ bytesOf [item] := by
        unfold handle
        rw [if_neg (by rw [hd]; nofun)]
        cases item with
        | packet p =>
            refine ⟨(d.finished_writeBytes _).trans hd, (d.written_writeBytes _).trans ?_⟩
            simp [bytesOf]
        | flush => exact ⟨hd, d.written_push.trans (List.append_nil _).symm⟩
        | close => exact absurd rfl hitem
      obtain ⟨hfinished, hwritten⟩ := ih hone.1 hrest
      refine ⟨hfinished, ?_⟩
      have hsplit : bytesOf (item :: items) = bytesOf [item] ++ bytesOf items := by
        simp [bytesOf]
      rw [hsplit, ← List.append_assoc, ← hone.2]
      exact hwritten

theorem handle_close (hd : d.finished = false) : d.handle .close = ⟨[], d.written, true⟩ := by
  unfold handle
  rw [if_neg (by rw [hd]; nofun)]
  rfl

end Downlink

/-! ## Ways of closing -/

namespace Connection

/-- What is done before a close to tell the client why, if it is told. -/
def farewell : Option Event → List Use
  | none => []
  | some e => [.send e.toPacket, .flush]

/-- A connection is closed after it was used in some way. -/
structure Closes (start : Connection) (us : List Use) : Prop where
  /-- Once the connection is closed, what the writer has taken and what it may still take are the
  items accepted before, in order, and then the close, unless there was no place for it. -/
  items_eq : ∀ notice later,
    let before := us ++ farewell notice
    let all := before ++ .close :: later
    start.taken all ++ (start.useAll all).queue.items =
      start.accepted before ++ if (start.useAll before).queue.isFull then [] else [.close]
  /-- Where there is a place, a writer that has taken everything has pushed every packet and
  stopped. -/
  finishes : ∀ notice later,
    let before := us ++ farewell notice
    let all := before ++ .close :: later
    (start.useAll before).queue.isFull = false → (start.useAll all).queue.items = [] →
      Downlink.fresh.handleAll (start.taken all) =
        ⟨[], Downlink.bytesOf (start.accepted before), true⟩
  /-- Where there is none, the writer never stops, whatever it takes. -/
  stuck : ∀ notice later,
    let before := us ++ farewell notice
    let all := before ++ .close :: later
    (start.useAll before).queue.isFull = true →
      (Downlink.fresh.handleAll (start.taken all)).finished = false
  /-- Closing it directly is such a close. -/
  direct : (start.useAll us).close = start.useAll (us ++ farewell none ++ [.close])
  /-- So is the end of its session. -/
  terminated : ∀ (l : Lobby) x, l.session? start.id = some x → x.terminated = false →
    l.connections.find? start.id = some (start.useAll us) →
    (l.terminate start.id).connections.find? start.id =
      some (start.useAll (us ++ farewell none ++ [.close]))
  /-- So is its removal. -/
  removed : ∀ t : Connections, t.get? start.id = some (start.useAll us) →
    (t.remove start.id).2.find? start.id =
      some (start.useAll (us ++ farewell none ++ [.close]))
  /-- A rejected login gives a notice first. -/
  rejected : ∀ (t : Connections) reason, t.get? start.id = some (start.useAll us) →
    (LoginService.reject t start.id reason).find? start.id =
      some (start.useAll (us ++ farewell (some (.loginRejected reason)) ++ [.close]))
  /-- So does a world that is full. -/
  turnedAway : ∀ (s : Simulation) (account : Account) n,
    s.lobby.connections.get? start.id = some (start.useAll us) →
    s.lobby.session? start.id = none →
    s.world.store.create (Simulation.playerComponents start.id account.id) =
      .error (.capacity n) →
    (s.join start.id account).lobby.connections.find? start.id =
      some (start.useAll (us ++ farewell (some Simulation.fullNotice) ++ [.close]))

variable {k : Connection} {us later : List Use}

theorem close_notMem_farewell (notice : Option Event) : .close ∉ farewell notice := by
  cases notice <;> simp [farewell]

/-- The items around the one close of a connection. -/
theorem taken_append_items_of_close (hopen : k.closed = false) (hthere : k.writerGone = false)
    (hus : .close ∉ us) (later : List Use) :
    k.taken (us ++ .close :: later) ++ (k.useAll (us ++ .close :: later)).queue.items =
      k.queue.items ++ (k.accepted us ++ if (k.useAll us).queue.isFull then [] else [.close]) := by
  have hstill : (k.useAll us).closed = false := (closed_useAll hus).trans hopen
  have hwriter : (k.useAll us).writerGone = false := (writerGone_useAll k us).trans hthere
  have hafter : ((k.useAll us).use .close).accepted later = [] :=
    accepted_of_closed (closed_close _) later
  rw [taken_append_items, accepted_append, accepted, hafter, List.append_nil,
    accepts_close hstill hwriter]

theorem close_eq_useAll (k : Connection) (us : List Use) :
    (k.useAll us).close = k.useAll (us ++ farewell none ++ [.close]) := by
  rw [List.append_assoc, useAll_append]
  rfl

theorem dismiss_eq_useAll (k : Connection) (us : List Use) (e : Event) :
    (k.useAll us).dismiss e.toPacket = k.useAll (us ++ farewell (some e) ++ [.close]) := by
  rw [List.append_assoc, useAll_append]
  rfl

end Connection

namespace Connections

variable {t : Connections} {id : ConnectionId} {k : Connection}

theorem find?_of_get? (h : t.get? id = some k) : t.find? id = some k :=
  (Option.ite_none_right_eq_some.mp h).2

theorem find?_close (h : t.find? id = some k) :
    (t.modify id Connection.close).find? id = some k.close := by
  have hid : ∀ k : Connection, k.close.id = k.id := fun k => k.id_use .close
  rw [find?_modify fun k _ => hid k, if_pos rfl, h, Option.map_some]

theorem find?_dismiss (p : Wire.Packet) (h : t.find? id = some k) :
    (t.modify id (·.dismiss p)).find? id = some (k.dismiss p) := by
  have hid : ∀ k : Connection, (k.dismiss p).id = k.id :=
    fun k => congrArg Prod.fst (k.label_dismiss p)
  rw [find?_modify fun k _ => hid k, if_pos rfl, h, Option.map_some]

end Connections

/-! ## The main statement -/

namespace Connection

/-- However a connection is closed that was open, its writer gets the close if its queue has a place
left then. -/
theorem fresh_closes (id : ConnectionId) (address : SocketAddress) (capacity : Nat)
    (us : List Use) (hus : .close ∉ us) : (fresh id address capacity).Closes us := by
  let start := fresh id address capacity
  have hbefore : ∀ notice, .close ∉ us ++ farewell notice := fun notice h =>
    (List.mem_append.mp h).elim hus (close_notMem_farewell notice)
  have hitems : ∀ notice later,
      start.taken (us ++ farewell notice ++ .close :: later) ++
          (start.useAll (us ++ farewell notice ++ .close :: later)).queue.items =
        start.accepted (us ++ farewell notice) ++
          if (start.useAll (us ++ farewell notice)).queue.isFull then [] else [.close] :=
    fun notice later => taken_append_items_of_close rfl rfl (hbefore notice) later
  refine ⟨hitems, ?_, ?_, close_eq_useAll start us, ?_, ?_, ?_, ?_⟩
  · intro notice later before all hroom hempty
    have htaken := hitems notice later
    rw [hempty, List.append_nil, hroom] at htaken
    have haccepted : .close ∉ start.accepted before := close_notMem_accepted (hbefore notice)
    obtain ⟨hfinished, hwritten⟩ := Downlink.handleAll_of_running (d := .fresh) rfl haccepted
    have hbytes : (Downlink.fresh.handleAll (start.accepted before)).written =
        Downlink.bytesOf (start.accepted before) := hwritten
    rw [htaken, Downlink.handleAll_append, ← hbytes]
    exact Downlink.handle_close hfinished
  · intro notice later before all hfull
    have htaken := hitems notice later
    rw [hfull, if_pos rfl, List.append_nil] at htaken
    refine (Downlink.handleAll_of_running rfl ?_).1
    intro hmem
    have haccepted := htaken ▸ List.mem_append_left (start.useAll all).queue.items hmem
    exact close_notMem_accepted (hbefore notice) haccepted
  · intro l x hx ht hk
    have hhang : x.hangUp = Connection.close := by
      funext k
      rw [Session.hangUp, ht]
      rfl
    rw [Lobby.terminate, hx]
    show (l.connections.modify start.id x.hangUp).find? start.id = _
    rw [hhang, Connections.find?_close hk, close_eq_useAll]
  · intro t hk
    rw [Connections.remove, hk]
    show (t.modify start.id Connection.close).find? start.id = _
    rw [Connections.find?_close (Connections.find?_of_get? hk), close_eq_useAll]
  · intro t reason hk
    rw [LoginService.reject, hk]
    show (t.modify start.id (·.dismiss (Event.loginRejected reason).toPacket)).find? start.id = _
    rw [Connections.find?_dismiss _ (Connections.find?_of_get? hk), dismiss_eq_useAll]
  · intro s account n hk hsession hfull
    rw [Simulation.join, hk, hsession, hfull]
    show (s.lobby.connections.modify start.id
      (·.dismiss Simulation.fullNotice.toPacket)).find? start.id = _
    rw [Connections.find?_dismiss _ (Connections.find?_of_get? hk), dismiss_eq_useAll]

/-- A connection with two places is closed behind a packet. -/
theorem fresh_closes_of_room :
    let us : List Use := [.send ⟨129, [1]⟩]
    .close ∉ us ∧ (fresh 1 (.v4 [127, 0, 0, 1] 4000) 2).Closes us := by
  intro us
  have hus : .close ∉ us := by decide
  exact ⟨hus, fresh_closes 1 (.v4 [127, 0, 0, 1] 4000) 2 us hus⟩

/-- With one place the packet takes it, and the close is lost. The writer takes the packet and waits
for more, with the bytes in its buffer. -/
theorem close_lost_of_full :
    let start := fresh 1 (.v4 [127, 0, 0, 1] 4000) 1
    let p : Wire.Packet := ⟨129, [1]⟩
    let all : List Use := [.send p, .close, .take none, .close, .take none]
    let writer := Downlink.fresh.handleAll (start.taken all)
    (start.useAll all).closed = true ∧ start.accepted [.send p] = [.packet p] ∧
      start.taken all = [.packet p] ∧ (start.useAll all).queue.items = [] ∧
      start.taken all ≠ start.accepted [.send p] ++ [.close] ∧
      writer.finished = false ∧ writer.pushed = [] ∧ writer.buffered = p.toBytes := by
  decide +kernel

end Connection

end Realm
