import Realm.Proofs.Net.Use

/-!
# A connection to its end

Beside the uses of a connection, its writer may go away with all that waits for it. What was granted
to those who send and flush is told apart from the close, which is nobody's item. Whatever the order
of all this, the writer takes what was granted, in order, and behind a close there is nothing.
-/

namespace Realm

/-- What happens to a connection: it is used, or its writer goes away. -/
inductive Dealing where
  | use (u : Use)
  | leave
  deriving DecidableEq, Repr

namespace Connection

def deal (k : Connection) : Dealing → Connection
  | .use u => k.use u
  | .leave => k.dropWriter

def dealAll (k : Connection) (ds : List Dealing) : Connection := ds.foldl deal k

/-- The item whose sender is told that it was accepted. -/
def grants (k : Connection) : Dealing → List Outbound
  | .use (.send p) => if (k.send p).1 then [.packet p] else []
  | .use .flush => if k.flush.1 then [.flush] else []
  | _ => []

def granted (k : Connection) : List Dealing → List Outbound
  | [] => []
  | d :: ds => k.grants d ++ (k.deal d).granted ds

/-- The close, if it gets a place in the queue. -/
def seals (k : Connection) : Dealing → List Outbound
  | .use .close => k.accepts .close
  | _ => []

def sealed (k : Connection) : List Dealing → List Outbound
  | [] => []
  | d :: ds => k.seals d ++ (k.deal d).sealed ds

def admits (k : Connection) : Dealing → List Outbound
  | .use u => k.accepts u
  | .leave => []

def admitted (k : Connection) : List Dealing → List Outbound
  | [] => []
  | d :: ds => k.admits d ++ (k.deal d).admitted ds

def passes (k : Connection) : Dealing → List Outbound
  | .use u => k.yields u
  | .leave => []

def received (k : Connection) : List Dealing → List Outbound
  | [] => []
  | d :: ds => k.passes d ++ (k.deal d).received ds

def loses (k : Connection) : Dealing → List Outbound
  | .use _ => []
  | .leave => k.queue.items

def lost (k : Connection) : List Dealing → List Outbound
  | [] => []
  | d :: ds => k.loses d ++ (k.deal d).lost ds

variable {k : Connection} {d : Dealing} {ds later : List Dealing} {item : Outbound}

/-! ## One item -/

/-- An item is accepted while the connection is open, its writer is there and its queue has room. -/
theorem offer_eq_true_iff (k : Connection) (item : Outbound) : (k.offer item).1 = true ↔
    k.closed = false ∧ k.writerGone = false ∧ k.queue.items.length < k.queue.capacity := by
  rw [offer_fst, enqueue_fst, Bounded.isFull]
  simp

theorem offer_of_accepted (h : (k.offer item).1 = true) :
    (k.offer item).2 = { k with queue := k.queue.push item } := by
  obtain ⟨hopen, hthere, hroom⟩ := (k.offer_eq_true_iff item).mp h
  have hfull : k.queue.isFull = false := by simpa [Bounded.isFull] using hroom
  simp [offer, enqueue, Bounded.offer, hopen, hthere, hfull]

/-! ## One dealing -/

theorem closed_deal (k : Connection) (d : Dealing) :
    (k.deal d).closed = (k.closed || decide (d = .use .close)) := by
  cases d with
  | use u => simpa [deal] using k.closed_use u
  | leave => simp [deal, dropWriter]

theorem writerGone_deal (k : Connection) (d : Dealing) :
    (k.deal d).writerGone = (k.writerGone || decide (d = .leave)) := by
  cases d with
  | use u => simpa [deal] using k.writerGone_use u
  | leave => simp [deal, dropWriter]

theorem capacity_deal (k : Connection) (d : Dealing) :
    (k.deal d).queue.capacity = k.queue.capacity := by
  cases d with
  | leave => rfl
  | use u =>
      cases u with
      | send p => exact k.capacity_offer _
      | flush => exact k.capacity_offer _
      | close =>
          show k.close.queue.capacity = k.queue.capacity
          unfold close
          split
          · rfl
          · exact k.capacity_enqueue _
      | take n =>
          show (k.drain n).2.queue.capacity = k.queue.capacity
          unfold drain
          split
          · rfl
          · cases n <;> rfl

/-- Nobody but the one who closes puts a close into the queue. -/
theorem close_notMem_grants (k : Connection) (d : Dealing) : .close ∉ k.grants d := by
  cases d with
  | leave => nofun
  | use u => cases u <;> simp [grants]

/-- What the queue accepts is granted to somebody or is the close. -/
theorem admits_eq (k : Connection) (d : Dealing) : k.admits d = k.grants d ++ k.seals d := by
  cases d with
  | leave => rfl
  | use u => cases u <;> simp [admits, accepts, grants, seals]

theorem accepts_of_writerGone (h : k.writerGone = true) (u : Use) : k.accepts u = [] := by
  have hrefused : ∀ item, (k.enqueue item).1 = false := by
    intro item
    rw [enqueue_fst, h]
    rfl
  cases u with
  | send p => simp [accepts, send, offer_fst, hrefused]
  | flush => simp [accepts, flush, offer_fst, hrefused]
  | close => simp [accepts, hrefused]
  | take n => rfl

theorem yields_of_writerGone (h : k.writerGone = true) (u : Use) : k.yields u = [] := by
  cases u with
  | take n => simp [yields, drain, h]
  | _ => rfl

/-- A close gets a place if it is the first one and there is a writer and room for it. -/
theorem seals_close (k : Connection) : k.seals (.use .close) =
    if k.closed = false ∧ k.writerGone = false ∧ k.queue.items.length < k.queue.capacity then
      [.close]
    else [] := by
  rw [seals, accepts, enqueue_fst, Bounded.isFull]
  cases k.closed <;> cases k.writerGone <;> simp

/-! ## Many dealings -/

theorem dealAll_append (k : Connection) (ds later : List Dealing) :
    k.dealAll (ds ++ later) = (k.dealAll ds).dealAll later := List.foldl_append

theorem granted_append (k : Connection) (ds later : List Dealing) :
    k.granted (ds ++ later) = k.granted ds ++ (k.dealAll ds).granted later := by
  induction ds generalizing k with
  | nil => rfl
  | cons d ds ih =>
      rw [List.cons_append, granted, ih, granted, List.append_assoc]
      rfl

theorem sealed_append (k : Connection) (ds later : List Dealing) :
    k.sealed (ds ++ later) = k.sealed ds ++ (k.dealAll ds).sealed later := by
  induction ds generalizing k with
  | nil => rfl
  | cons d ds ih =>
      rw [List.cons_append, sealed, ih, sealed, List.append_assoc]
      rfl

theorem closed_dealAll (k : Connection) (ds : List Dealing) :
    (k.dealAll ds).closed = (k.closed || decide (.use .close ∈ ds)) := by
  induction ds generalizing k with
  | nil => simp [dealAll]
  | cons d ds ih =>
      have hrest : (k.dealAll (d :: ds)).closed = _ := ih (k.deal d)
      rw [hrest, closed_deal]
      simp [eq_comm (a := d), Bool.or_assoc]

theorem writerGone_dealAll (k : Connection) (ds : List Dealing) :
    (k.dealAll ds).writerGone = (k.writerGone || decide (.leave ∈ ds)) := by
  induction ds generalizing k with
  | nil => simp [dealAll]
  | cons d ds ih =>
      have hrest : (k.dealAll (d :: ds)).writerGone = _ := ih (k.deal d)
      rw [hrest, writerGone_deal]
      simp [eq_comm (a := d), Bool.or_assoc]

theorem capacity_dealAll (k : Connection) (ds : List Dealing) :
    (k.dealAll ds).queue.capacity = k.queue.capacity := by
  induction ds generalizing k with
  | nil => rfl
  | cons d ds ih => exact (ih (k.deal d)).trans (k.capacity_deal d)

theorem close_notMem_granted (k : Connection) (ds : List Dealing) : .close ∉ k.granted ds := by
  induction ds generalizing k with
  | nil => nofun
  | cons d ds ih =>
      rw [granted, List.mem_append, not_or]
      exact ⟨k.close_notMem_grants d, ih (k.deal d)⟩

/-- A closed connection grants nothing, and no further close gets a place. -/
theorem granted_sealed_of_closed (h : k.closed = true) (ds : List Dealing) :
    k.granted ds = [] ∧ k.sealed ds = [] := by
  induction ds generalizing k with
  | nil => exact ⟨rfl, rfl⟩
  | cons d ds ih =>
      have hclosed : (k.deal d).closed = true := by rw [closed_deal, h, Bool.true_or]
      have hadmits : k.admits d = [] := by
        cases d with
        | leave => rfl
        | use u => exact accepts_of_closed h u
      obtain ⟨hgrants, hseals⟩ := List.append_eq_nil_iff.mp ((k.admits_eq d).symm.trans hadmits)
      rw [granted, sealed, hgrants, hseals]
      exact ih hclosed

theorem sealed_of_open (h : .use .close ∉ ds) : k.sealed ds = [] := by
  induction ds generalizing k with
  | nil => rfl
  | cons d ds ih =>
      obtain ⟨hd, hrest⟩ := not_or.mp (mt List.mem_cons.mpr h)
      have hnone : k.seals d = [] := by
        unfold seals
        split
        · exact absurd rfl hd
        · rfl
      rw [sealed, hnone, ih hrest]
      rfl

/-- Of all closes the first one counts, and it gets a place or not. -/
theorem sealed_of_close {before : List Dealing} (h : .use .close ∉ before) (after : List Dealing) :
    k.sealed (before ++ .use .close :: after) = (k.dealAll before).seals (.use .close) ∧
      k.granted (before ++ .use .close :: after) = k.granted before := by
  have hclosed : ((k.dealAll before).deal (.use .close)).closed = true := by
    rw [closed_deal]
    simp
  obtain ⟨hgranted, hsealed⟩ := granted_sealed_of_closed hclosed after
  rw [sealed_append, granted_append, sealed, granted, hgranted, hsealed, sealed_of_open h]
  simp [grants]

/-- The close stands behind everything that is granted. -/
theorem admitted_eq (k : Connection) (ds : List Dealing) :
    k.admitted ds = k.granted ds ++ k.sealed ds := by
  induction ds generalizing k with
  | nil => rfl
  | cons d ds ih =>
      have hcomm : k.seals d ++ (k.deal d).granted ds = (k.deal d).granted ds ++ k.seals d := by
        by_cases hd : d = .use .close
        · have hclosed : (k.deal d).closed = true := by rw [closed_deal, hd]; simp
          rw [(granted_sealed_of_closed hclosed ds).1, List.append_nil, List.nil_append]
        · have hnone : k.seals d = [] := by
            unfold seals
            split
            · exact absurd rfl hd
            · rfl
          rw [hnone, List.append_nil, List.nil_append]
      rw [admitted, ih, admits_eq, granted, sealed, List.append_assoc, List.append_assoc,
        ← List.append_assoc (k.seals d), hcomm, List.append_assoc]

/-- Once the writer has gone nothing is taken, lost or accepted any more. -/
theorem idle_of_writerGone (h : k.writerGone = true) (hempty : k.queue.items = [])
    (ds : List Dealing) : k.received ds = [] ∧ k.lost ds = [] ∧ k.admitted ds = [] ∧
      (k.dealAll ds).queue.items = [] := by
  induction ds generalizing k with
  | nil => exact ⟨rfl, rfl, rfl, hempty⟩
  | cons d ds ih =>
      have hgone : (k.deal d).writerGone = true := by rw [writerGone_deal, h, Bool.true_or]
      have hnone : k.passes d = [] ∧ k.loses d = [] ∧ k.admits d = [] ∧
          (k.deal d).queue.items = [] := by
        cases d with
        | leave => exact ⟨rfl, hempty, rfl, rfl⟩
        | use u =>
            have hitems := k.yields_append_items u
            rw [yields_of_writerGone h, accepts_of_writerGone h, hempty] at hitems
            exact ⟨yields_of_writerGone h u, rfl, accepts_of_writerGone h u, hitems⟩
      obtain ⟨hpasses, hloses, hadmits, hitems⟩ := hnone
      rw [received, lost, admitted, hpasses, hloses, hadmits]
      exact ih hgone hitems

theorem lost_of_there (h : .leave ∉ ds) (k : Connection) : k.lost ds = [] := by
  induction ds generalizing k with
  | nil => rfl
  | cons d ds ih =>
      obtain ⟨hd, hrest⟩ := not_or.mp (mt List.mem_cons.mpr h)
      cases d with
      | leave => exact absurd rfl hd
      | use u => exact ih hrest (k.use u)

/-- What is taken, what is lost with the writer and what is left, in order, is what was there and
what was accepted. -/
theorem received_append_items (k : Connection) (ds : List Dealing) :
    k.received ds ++ k.lost ds ++ (k.dealAll ds).queue.items = k.queue.items ++ k.admitted ds := by
  induction ds generalizing k with
  | nil => simp [received, lost, admitted, dealAll]
  | cons d ds ih =>
      cases d with
      | leave =>
          obtain ⟨hreceived, hlost, hadmitted, hitems⟩ :=
            idle_of_writerGone (k := k.deal .leave) rfl rfl ds
          have hleft : (k.dealAll (.leave :: ds)).queue.items = [] := hitems
          rw [received, lost, admitted, hreceived, hlost, hadmitted, hleft]
          simp [passes, loses, admits]
      | use u =>
          have hrest : (k.use u).received ds ++ (k.use u).lost ds ++
              (k.dealAll (.use u :: ds)).queue.items =
                (k.use u).queue.items ++ (k.use u).admitted ds := ih (k.use u)
          calc k.received (.use u :: ds) ++ k.lost (.use u :: ds) ++
                (k.dealAll (.use u :: ds)).queue.items
              = k.yields u ++ ((k.use u).received ds ++ (k.use u).lost ds ++
                  (k.dealAll (.use u :: ds)).queue.items) := by
                simp [received, passes, lost, loses, deal]
            _ = k.yields u ++ (k.use u).queue.items ++ (k.use u).admitted ds := by
                rw [hrest, List.append_assoc]
            _ = k.queue.items ++ k.admitted (.use u :: ds) := by
                rw [yields_append_items, List.append_assoc]
                rfl

end Connection

end Realm
