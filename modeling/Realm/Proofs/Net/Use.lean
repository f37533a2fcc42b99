import Realm.Proofs.Net.Table

/-!
# The queue of a connection in use

Packets are sent, the writer is asked to push, the connection is closed, and the writer takes items,
in any order. What the writer takes and what still waits for it is then, in order, what was
accepted; a closed connection accepts nothing more.
-/

namespace Realm

inductive Use where
  | send (packet : Wire.Packet)
  | flush
  | close
  /-- The writer takes the first items, or all. -/
  | take (n : Option Nat)
  deriving DecidableEq, Repr

namespace Connection

def use (k : Connection) : Use → Connection
  | .send p => (k.send p).2
  | .flush => k.flush.2
  | .close => k.close
  | .take n => (k.drain n).2

def useAll (k : Connection) (us : List Use) : Connection := us.foldl use k

def accepts (k : Connection) : Use → List Outbound
  | .send p => if (k.send p).1 then [.packet p] else []
  | .flush => if k.flush.1 then [.flush] else []
  | .close => if !k.closed && (k.enqueue .close).1 then [.close] else []
  | .take _ => []

def accepted (k : Connection) : List Use → List Outbound
  | [] => []
  | u :: us => k.accepts u ++ (k.use u).accepted us

def yields (k : Connection) : Use → List Outbound
  | .take n => (k.drain n).1.getD []
  | _ => []

def taken (k : Connection) : List Use → List Outbound
  | [] => []
  | u :: us => k.yields u ++ (k.use u).taken us

variable {k : Connection} {us later : List Use}

/-! ## One item -/

theorem enqueue_fst (k : Connection) (item : Outbound) :
    (k.enqueue item).1 = (!k.writerGone && !k.queue.isFull) := by
  unfold enqueue Bounded.offer
  cases k.writerGone <;> cases k.queue.isFull <;> rfl

theorem items_enqueue (k : Connection) (item : Outbound) : (k.enqueue item).2.queue.items =
    k.queue.items ++ if (k.enqueue item).1 then [item] else [] := by
  unfold enqueue Bounded.offer
  cases k.writerGone <;> cases k.queue.isFull <;> simp

theorem enqueue_of_refused {item : Outbound} (h : (k.enqueue item).1 = false) :
    (k.enqueue item).2 = k := by
  rw [enqueue_fst] at h
  unfold enqueue Bounded.offer
  by_cases hgone : k.writerGone = true
  · rw [if_pos hgone]
  · have hfull : k.queue.isFull = true := by simpa [hgone] using h
    rw [if_neg hgone, if_pos hfull]

theorem writerGone_enqueue (k : Connection) (item : Outbound) :
    (k.enqueue item).2.writerGone = k.writerGone := by
  unfold enqueue
  split <;> rfl

theorem capacity_enqueue (k : Connection) (item : Outbound) :
    (k.enqueue item).2.queue.capacity = k.queue.capacity := by
  unfold enqueue
  split
  · rfl
  · exact k.queue.capacity_offer item

theorem offer_fst (k : Connection) (item : Outbound) :
    (k.offer item).1 = (!k.closed && (k.enqueue item).1) := by
  unfold offer
  cases k.closed <;> rfl

theorem items_offer (k : Connection) (item : Outbound) : (k.offer item).2.queue.items =
    k.queue.items ++ if (k.offer item).1 then [item] else [] := by
  unfold offer
  split
  · simp
  · exact k.items_enqueue item

theorem offer_of_refused {item : Outbound} (h : (k.offer item).1 = false) :
    (k.offer item).2 = k := by
  rw [offer_fst] at h
  unfold offer
  by_cases hclosed : k.closed = true
  · rw [if_pos hclosed]
  · rw [if_neg hclosed]
    exact enqueue_of_refused (by simpa [hclosed] using h)

theorem writerGone_offer (k : Connection) (item : Outbound) :
    (k.offer item).2.writerGone = k.writerGone := by
  unfold offer
  split
  · rfl
  · exact k.writerGone_enqueue item

theorem capacity_offer (k : Connection) (item : Outbound) :
    (k.offer item).2.queue.capacity = k.queue.capacity := by
  unfold offer
  split
  · rfl
  · exact k.capacity_enqueue item

theorem closed_offer (k : Connection) (item : Outbound) : (k.offer item).2.closed = k.closed :=
  congrArg Prod.snd (k.label_offer item)

theorem close_of_closed (h : k.closed = true) : k.close = k := if_pos h

theorem close_of_open (h : k.closed = false) :
    k.close = { (k.enqueue .close).2 with closed := true } := by
  rw [close, if_neg (by rw [h]; nofun)]

theorem closed_close (k : Connection) : k.close.closed = true := congrArg Prod.snd k.label_close

/-! ## One use -/

theorem id_use (k : Connection) (u : Use) : (k.use u).id = k.id := by
  cases u with
  | send p => exact congrArg Prod.fst (k.label_send p)
  | flush => exact congrArg Prod.fst k.label_flush
  | close => exact congrArg Prod.fst k.label_close
  | take n => exact congrArg Prod.fst (k.label_drain n)

theorem closed_use (k : Connection) (u : Use) :
    (k.use u).closed = (k.closed || decide (u = .close)) := by
  cases u with
  | send p => exact (k.closed_offer _).trans (by simp)
  | flush => exact (k.closed_offer _).trans (by simp)
  | close => exact k.closed_close.trans (by simp)
  | take n =>
      have hsame : (k.drain n).2.closed = k.closed := congrArg Prod.snd (k.label_drain n)
      exact hsame.trans (by simp)

theorem writerGone_use (k : Connection) (u : Use) : (k.use u).writerGone = k.writerGone := by
  cases u with
  | send p => exact k.writerGone_offer _
  | flush => exact k.writerGone_offer _
  | close =>
      show k.close.writerGone = k.writerGone
      unfold close
      split
      · rfl
      · exact k.writerGone_enqueue _
  | take n =>
      show (k.drain n).2.writerGone = k.writerGone
      unfold drain
      split <;> rfl

theorem accepts_of_closed (h : k.closed = true) (u : Use) : k.accepts u = [] := by
  have hrefused : ∀ item, (k.offer item).1 = false := by
    intro item
    rw [offer_fst, h]
    rfl
  cases u with
  | send p => exact if_neg (by rw [show (k.send p).1 = false from hrefused _]; nofun)
  | flush => exact if_neg (by rw [show k.flush.1 = false from hrefused _]; nofun)
  | close => exact if_neg (by rw [h]; nofun)
  | take n => rfl

/-- An item is accepted at the end, and the writer takes from the front. -/
theorem yields_append_items (k : Connection) (u : Use) :
    k.yields u ++ (k.use u).queue.items = k.queue.items ++ k.accepts u := by
  cases u with
  | send p => exact k.items_offer _
  | flush => exact k.items_offer _
  | close =>
      show k.close.queue.items = _
      by_cases hclosed : k.closed = true
      · rw [accepts_of_closed hclosed, close_of_closed hclosed, List.append_nil]
      · rw [Bool.not_eq_true] at hclosed
        rw [close_of_open hclosed, accepts, hclosed]
        exact k.items_enqueue _
  | take n =>
      show (k.drain n).1.getD [] ++ (k.drain n).2.queue.items = k.queue.items ++ []
      unfold drain
      split
      · simp
      · cases n with
        | none => simp [Bounded.drain]
        | some n => simp [Bounded.drain]

/-! ## Many uses -/

theorem useAll_append (k : Connection) (us later : List Use) :
    k.useAll (us ++ later) = (k.useAll us).useAll later := List.foldl_append

theorem accepted_append (k : Connection) (us later : List Use) :
    k.accepted (us ++ later) = k.accepted us ++ (k.useAll us).accepted later := by
  induction us generalizing k with
  | nil => rfl
  | cons u us ih =>
      rw [List.cons_append, accepted, ih, accepted, List.append_assoc]
      rfl

/-- What is taken and what is left, in order, is what was there and what was accepted. -/
theorem taken_append_items (k : Connection) (us : List Use) :
    k.taken us ++ (k.useAll us).queue.items = k.queue.items ++ k.accepted us := by
  induction us generalizing k with
  | nil => simp [taken, accepted, useAll]
  | cons u us ih =>
      have hrest : (k.use u).taken us ++ (k.useAll (u :: us)).queue.items =
          (k.use u).queue.items ++ (k.use u).accepted us := ih (k.use u)
      rw [taken, List.append_assoc, hrest, ← List.append_assoc, yields_append_items, accepted,
        List.append_assoc]

theorem closed_useAll (hus : .close ∉ us) : (k.useAll us).closed = k.closed := by
  induction us generalizing k with
  | nil => rfl
  | cons u us ih =>
      obtain ⟨hu, hrest⟩ := not_or.mp (mt List.mem_cons.mpr hus)
      have hone : (k.use u).closed = k.closed := by
        rw [closed_use, decide_eq_false fun h => hu h.symm, Bool.or_false]
      exact (ih hrest).trans hone

theorem writerGone_useAll (k : Connection) (us : List Use) :
    (k.useAll us).writerGone = k.writerGone := by
  induction us generalizing k with
  | nil => rfl
  | cons u us ih => exact (ih (k.use u)).trans (k.writerGone_use u)

/-- A closed connection accepts nothing. -/
theorem accepted_of_closed (h : k.closed = true) (us : List Use) : k.accepted us = [] := by
  induction us generalizing k with
  | nil => rfl
  | cons u us ih =>
      have hclosed : (k.use u).closed = true := by rw [closed_use, h, Bool.true_or]
      rw [accepted, accepts_of_closed h, ih hclosed]
      rfl

/-- No packet and no request to push is a close. -/
theorem close_notMem_accepted (hus : .close ∉ us) : .close ∉ k.accepted us := by
  induction us generalizing k with
  | nil => nofun
  | cons u us ih =>
      obtain ⟨hu, hrest⟩ := not_or.mp (mt List.mem_cons.mpr hus)
      rw [accepted, List.mem_append, not_or]
      refine ⟨?_, ih hrest⟩
      cases u with
      | send p => simp [accepts]
      | flush => simp [accepts]
      | close => exact absurd rfl hu
      | take n => nofun

/-- Closing an open connection puts a close behind what was accepted, if there is a place for it. -/
theorem accepts_close (hopen : k.closed = false) (hthere : k.writerGone = false) :
    k.accepts .close = if k.queue.isFull then [] else [.close] := by
  rw [accepts, hopen, enqueue_fst, hthere]
  cases k.queue.isFull <;> rfl

end Connection

end Realm
