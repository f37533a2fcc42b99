import Realm.Proofs.Net.Use
import Realm.Proofs.Session.Attendance

/-!
# What the writer is fed

A packet that the writer takes stays in its buffer until something behind it makes the writer push.
The server asks for this after whatever it writes, but by an item of the same queue: where the queue
is full after the packets, they stand last.
-/

namespace Realm

/-- Behind every packet there is a flush or a close. -/
def Outbound.Pushed (items : List Outbound) : Prop :=
  ∀ before p after, items = before ++ .packet p :: after → .flush ∈ after ∨ .close ∈ after

theorem Outbound.pushed_iff {items : List Outbound} :
    Pushed items ↔ ∀ p, items.getLast? ≠ some (.packet p) := by
  constructor
  · intro h p hlast
    obtain ⟨before, rfl⟩ := List.getLast?_eq_some_iff.mp hlast
    rcases h before p [] rfl with hmem | hmem
    · cases hmem
    · cases hmem
  · rintro h before p after rfl
    rcases List.eq_nil_or_concat after with rfl | ⟨front, item, rfl⟩
    · exact absurd (List.getLast?_concat) (h p)
    · have hlast : (before ++ .packet p :: front.concat item).getLast? = some item := by
        rw [List.concat_eq_append, ← List.cons_append, ← List.append_assoc]
        exact List.getLast?_concat
      cases item with
      | packet q => exact absurd hlast (h q)
      | flush => exact .inl (by simp)
      | close => exact .inr (by simp)

/-! ## One connection -/

namespace Connection

variable {k k' k'' : Connection} {new new' : List Outbound}

/-- The queue got new items behind the old ones. If there are any, they end with a flush, or else
the queue is full. -/
structure Feeds (k k' : Connection) (new : List Outbound) : Prop where
  capacity_eq : k'.queue.capacity = k.queue.capacity
  items_eq : k'.queue.items = k.queue.items ++ new
  ends : new = [] ∨ new.getLast? = some .flush ∨ k'.queue.isFull = true

/-- A connection that is open after something was done was open before, and its queue was fed. -/
def Passes (k k' : Connection) : Prop :=
  k'.closed = false → k.closed = false ∧ ∃ new, Feeds k k' new

theorem Feeds.trans (h : Feeds k k' new) (h' : Feeds k' k'' new') :
    Feeds k k'' (new ++ new') := by
  refine ⟨h'.capacity_eq.trans h.capacity_eq, ?_, ?_⟩
  · rw [h'.items_eq, h.items_eq, List.append_assoc]
  · rcases h'.ends with rfl | hlast | hfull
    · have hitems : k''.queue.items = k'.queue.items := by simpa using h'.items_eq
      have hsame : k''.queue.isFull = k'.queue.isFull := by
        rw [Bounded.isFull, Bounded.isFull, h'.capacity_eq, hitems]
      rw [List.append_nil, hsame]
      exact h.ends
    · exact .inr (.inl (by rw [List.getLast?_append, hlast, Option.some_or]))
    · exact .inr (.inr hfull)

theorem Passes.refl (k : Connection) : Passes k k :=
  fun hopen => ⟨hopen, [], rfl, (List.append_nil _).symm, .inl rfl⟩

theorem Passes.trans (h : Passes k k') (h' : Passes k' k'') : Passes k k'' := by
  intro hopen
  obtain ⟨hopen', new', hfeeds'⟩ := h' hopen
  obtain ⟨hopen, new, hfeeds⟩ := h hopen'
  exact ⟨hopen, new ++ new', hfeeds.trans hfeeds'⟩

theorem Passes.of_closed (h : k'.closed = true) : Passes k k' := by
  intro hopen
  rw [h] at hopen
  cases hopen

theorem passes_close (k : Connection) : Passes k k.close := .of_closed k.closed_close

theorem passes_dismiss (k : Connection) (p : Wire.Packet) : Passes k (k.dismiss p) :=
  .of_closed (closed_close _)

/-- A flush after some packets: it is refused only where the queue is full, or where the packets
would have been refused too. -/
theorem feeds_flush (hcapacity : k'.queue.capacity = k.queue.capacity)
    (hitems : k'.queue.items = k.queue.items ++ new) (hopen : k'.closed = false)
    (hthere : k'.writerGone = false) :
    Feeds k k'.flush.2 (new ++ if k'.flush.1 then [.flush] else []) := by
  refine ⟨(k'.capacity_offer _).trans hcapacity, ?_, ?_⟩
  · have hoffered : k'.flush.2.queue.items = k'.queue.items ++ if k'.flush.1 then [.flush] else [] :=
      k'.items_offer .flush
    rw [hoffered, hitems, List.append_assoc]
  · have hfirst : k'.flush.1 = !k'.queue.isFull := by
      rw [show k'.flush.1 = _ from k'.offer_fst .flush, enqueue_fst, hopen, hthere]
      rfl
    cases hfull : k'.queue.isFull with
    | false =>
        rw [hfirst, hfull]
        exact .inr (.inl List.getLast?_concat)
    | true =>
        have hrefused : k'.flush.1 = false := by rw [hfirst, hfull]; rfl
        have hsame : k'.flush.2 = k' := offer_of_refused hrefused
        rw [hsame]
        exact .inr (.inr hfull)

/-- A connection that accepts an item is open and has its writer. -/
theorem open_of_accepted {item : Outbound} (h : (k.offer item).1 = true) :
    k.closed = false ∧ k.writerGone = false := by
  rw [offer_fst, enqueue_fst] at h
  simp only [Bool.and_eq_true, Bool.not_eq_eq_eq_not, Bool.not_true] at h
  exact ⟨h.1, h.2.1⟩

end Connection

/-! ## The events of a session -/

namespace Session

variable {k : Connection}

/-- To send an event comes to the same as to offer it and then a flush: where there is no room for
the event there is none for the flush. -/
theorem send_eq_useAll (k : Connection) (e : Event) :
    (send k e).2 = k.useAll [.send e.toPacket, .flush] := by
  unfold send
  cases hwrite : write k e with
  | mk accepted k' =>
      have hsecond : k' = (k.send e.toPacket).2 := (congrArg Prod.snd hwrite).symm
      cases accepted with
      | true => rw [hsecond]; rfl
      | false =>
          have hrefused : (k.offer (.packet e.toPacket)).1 = false := congrArg Prod.fst hwrite
          have hsame : k' = k := hsecond.trans (Connection.offer_of_refused hrefused)
          have hflush : (k.offer .flush).1 = false := by
            rw [Connection.offer_fst, Connection.enqueue_fst] at hrefused ⊢
            exact hrefused
          show k' = (k.send e.toPacket).2.flush.2
          rw [← hsecond, hsame]
          exact (Connection.offer_of_refused hflush).symm

/-- What handing events to a writer does to its connection: nothing if none is accepted. -/
inductive Hands (k : Connection) : Connection → Nat → Prop where
  | nothing : Hands k k 0
  | something {k' : Connection} (written : Nat) (new : List Outbound) (hopen : k.closed = false)
      (hopen' : k'.closed = false) (hthere : k'.writerGone = false)
      (hcapacity : k'.queue.capacity = k.queue.capacity)
      (hitems : k'.queue.items = k.queue.items ++ new) : Hands k k' (written + 1)

theorem writeAll_of_refused {e : Event} (h : (write k e).1 = false) (rest : List Event) :
    writeAll (e :: rest) k = (rest, k, 0) := by
  have hsame : (write k e).2 = k := Connection.offer_of_refused h
  unfold writeAll
  cases hwrite : write k e with
  | mk accepted k' =>
      rw [hwrite] at h hsame
      obtain rfl : accepted = false := h
      obtain rfl : k' = k := hsame
      rfl

theorem writeAll_of_accepted {e : Event} (h : (write k e).1 = true) (rest : List Event) :
    (writeAll (e :: rest) k).2 = ((writeAll rest (write k e).2).2.1,
      (writeAll rest (write k e).2).2.2 + 1) := by
  rw [writeAll]
  cases hwrite : write k e with
  | mk accepted k' =>
      rw [hwrite] at h
      obtain rfl : accepted = true := h
      rfl

theorem hands_writeAll (events : List Event) (k : Connection) :
    Hands k (writeAll events k).2.1 (writeAll events k).2.2 := by
  induction events generalizing k with
  | nil => exact .nothing
  | cons e rest ih =>
      cases haccepted : (write k e).1 with
      | false =>
          rw [writeAll_of_refused haccepted]
          exact .nothing
      | true =>
          let k' := (write k e).2
          obtain ⟨hopen, hthere⟩ := Connection.open_of_accepted haccepted
          have hopen' : k'.closed = false := (k.closed_offer _).trans hopen
          have hthere' : k'.writerGone = false := (k.writerGone_offer _).trans hthere
          have hcapacity : k'.queue.capacity = k.queue.capacity := k.capacity_offer _
          have hitems : k'.queue.items = k.queue.items ++ [.packet e.toPacket] :=
            (k.items_offer _).trans (congrArg _ (if_pos haccepted))
          rw [writeAll_of_accepted haccepted]
          have hrest : Hands k' (writeAll rest k').2.1 (writeAll rest k').2.2 := ih k'
          generalize (writeAll rest k').2.1 = last, (writeAll rest k').2.2 = written at hrest
          cases hrest with
          | nothing => exact .something 0 _ hopen hopen' hthere' hcapacity hitems
          | something written new _ hlast hthere hcapacity' hitems' =>
              refine .something (written + 1) (.packet e.toPacket :: new) hopen hlast hthere
                (hcapacity'.trans hcapacity) ?_
              rw [hitems', hitems, List.append_assoc]
              rfl

theorem Hands.passes {k' : Connection} {written : Nat} (h : Hands k k' written) :
    k.Passes (if written > 0 then k'.flush.2 else k') := by
  cases h with
  | nothing => exact .refl k
  | something written new hopen hopen' hthere hcapacity hitems =>
      rw [if_pos (Nat.succ_pos written)]
      exact fun _ => ⟨hopen, _, Connection.feeds_flush hcapacity hitems hopen' hthere⟩

theorem passes_drainEvents (x : Session) (k : Connection) : k.Passes (x.drainEvents k).2 := by
  unfold drainEvents
  split
  · exact .refl k
  · exact (hands_writeAll x.events.items k).passes

theorem passes_send (k : Connection) (e : Event) : k.Passes (send k e).2 := by
  have hsend : (send k e).2 = if (writeAll [e] k).2.2 > 0 then (writeAll [e] k).2.1.flush.2
      else (writeAll [e] k).2.1 := by
    unfold send writeAll
    cases write k e with
    | mk accepted k' => cases accepted <;> rfl
  rw [hsend]
  exact (hands_writeAll [e] k).passes

theorem passes_hangUp (x : Session) (k : Connection) : k.Passes (x.hangUp k) := by
  unfold hangUp
  split
  · exact .refl k
  · exact k.passes_close

end Session

/-! ## The table and the lobby -/

namespace Connections

/-- Two tables have the same connections, and one of them was at most fed or closed in between. -/
def Passes (c : ConnectionId) (t t' : Connections) : Prop :=
  Option.Rel Connection.Passes (t.find? c) (t'.find? c)

variable {c id : ConnectionId} {t t' t'' : Connections} {f : Connection → Connection}

theorem Passes.of_eq (h : t'.find? c = t.find? c) : Passes c t t' := by
  rw [Passes, h]
  cases t.find? c with
  | none => exact .none
  | some k => exact .some (.refl k)

theorem Passes.refl (c : ConnectionId) (t : Connections) : Passes c t t := .of_eq rfl

theorem Passes.trans (h : Passes c t t') (h' : Passes c t' t'') : Passes c t t'' := by
  unfold Passes at h h' ⊢
  generalize t.find? c = k, t'.find? c = k', t''.find? c = k'' at h h'
  cases h with
  | none => exact h'
  | some h =>
      cases h' with
      | some h' => exact .some (h.trans h')

theorem Passes.modify (hid : ∀ k, k.id = id → (f k).id = k.id)
    (hf : ∀ k, t.find? id = some k → k.Passes (f k)) : Passes c t (t.modify id f) := by
  unfold Passes
  rw [find?_modify hid]
  by_cases hc : c = id
  · rw [if_pos hc, hc]
    cases hk : t.find? id with
    | none => exact .none
    | some k => exact .some (hf k hk)
  · rw [if_neg hc]
    exact Passes.refl c t

end Connections

namespace Lobby

variable (l : Lobby) (id c : ConnectionId)

theorem passes_terminate : l.connections.Passes c (l.terminate id).connections := by
  unfold terminate
  split
  · exact .refl c _
  · next x _ => exact .modify (fun k _ => x.hangUp_id k) fun k _ => x.passes_hangUp k

theorem passes_drainEvents : l.connections.Passes c (l.drainEvents id).connections := by
  unfold drainEvents
  split
  · next x k _ hk =>
      have hid : k.id = id := by simpa using List.find?_some hk
      refine .modify ?_ ?_
      · intro k' hk'
        exact ((congrArg Prod.fst (x.label_drainEvents k)).trans hid).trans hk'.symm
      · intro k' hk'
        obtain rfl : k = k' := Option.some.inj (hk.symm.trans hk')
        exact x.passes_drainEvents k
  · exact .refl c _

end Lobby

end Realm
