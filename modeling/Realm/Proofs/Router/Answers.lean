import Realm.Proofs.Router.Upkeep

/-!
# What a router answers at once

Changes of subscriptions, counts, and what consumers do: the answer of a router is the one of its
board, and afterwards the router stands for the board after the same call.
-/

namespace Realm

variable {α : Type}

namespace Router

variable {r : Router α} {line : MailboxId → List Nat} {id other : MailboxId} {topic : Topic}

/-- A router in order, with every open mailbox on some topic. -/
structure Upkept (r : Router α) (line : MailboxId → List Nat) : Prop extends r.Tended line where
  attached : r.Attached

theorem Upkept.isOpen_board (hr : r.Upkept line) : r.board.isOpen id = !r.refuses id :=
  isOpen_board_of_attached hr.attached

theorem upkept_new (config : RouterConfig) : (new config : Router α).Upkept fun _ => [] := by
  refine ⟨⟨Nat.le_max_left _ _, ?_, ?_, ?_, List.nodup_nil⟩, ?_⟩
  · intro id m h
    cases h
  · intro id m h
    cases h
  · intro id h
    cases h
  · intro id h
    cases h

/-! ## Subscriptions -/

section Subscribe

/-- A router with a mailbox that no topic holds yet. -/
def withFresh (r : Router α) : Router α :=
  { r with boxes := r.boxes ++ [Mailbox.fresh r.nextId r.config.mailboxCapacity] }

theorem box?_nextId (ht : r.Tended line) : r.box? r.nextId = none := by
  rw [Option.eq_none_iff_forall_ne_some]
  intro m hbox
  exact Nat.not_succ_le_self _ (ht.le_made _ m hbox)

theorem box?_withFresh (ht : r.Tended line) : r.withFresh.box? other =
    if other = r.nextId then some (.fresh r.nextId r.config.mailboxCapacity) else r.box? other := by
  unfold withFresh box?
  rw [List.find?_append]
  by_cases h : other = r.nextId
  · subst h
    have hnone := box?_nextId ht
    rw [box?] at hnone
    simp [hnone, Mailbox.fresh]
  · have hne : ¬ r.nextId = other := Ne.symm h
    simp [Mailbox.fresh, h, hne]

theorem not_listed_nextId (ht : r.Tended line) : isListed r.nextId r.topics = false := by
  rw [← Bool.not_eq_true]
  intro hlisted
  obtain ⟨m, hbox⟩ := ht.exists_box _ hlisted
  rw [box?_nextId ht] at hbox
  cases hbox

theorem refuses_withFresh (ht : r.Tended line) :
    r.withFresh.refuses other = if other = r.nextId then false else r.refuses other := by
  rw [refuses, box?_withFresh ht]
  by_cases h : other = r.nextId
  · rw [if_pos h, if_pos h]
    rfl
  · rw [if_neg h, if_neg h]
    rfl

theorem board_withFresh (ht : r.Tended line) :
    r.withFresh.board = { r.board with made := r.board.made + 1 } := by
  have hlists : sift (fun id => !r.withFresh.refuses id) r.topics =
      sift (fun id => !r.refuses id) r.topics := by
    refine sift_congr fun id hid => ?_
    have hne : id ≠ r.nextId := by
      rintro rfl
      rw [not_listed_nextId ht] at hid
      cases hid
    rw [refuses_withFresh ht, if_neg hne]
  have hqueued : r.withFresh.queued = r.queued := by
    funext other
    rw [queued, box?_withFresh ht, queued]
    split
    · next heq =>
        rw [heq, box?_nextId ht]
        rfl
    · rfl
  have hmade : r.withFresh.boxes.length = r.boxes.length + 1 := by simp [withFresh]
  calc r.withFresh.board
      = ⟨r.config, r.withFresh.boxes.length, r.withFresh.queued,
          sift (fun id => !r.withFresh.refuses id) r.topics⟩ := rfl
    _ = { r.board with made := r.board.made + 1 } := by rw [hlists, hqueued, hmade]; rfl

theorem tended_withFresh (ht : r.Tended fun _ => []) : r.withFresh.Tended fun _ => [] := by
  refine ⟨ht.capacity_pos, ?_, ?_, ?_, ht.keys_nodup⟩
  · intro id m hbox
    rw [box?_withFresh ht] at hbox
    have hmade : r.withFresh.boxes.length = r.nextId := by simp [withFresh, nextId]
    rw [hmade]
    split at hbox
    · next heq => exact Nat.le_of_eq heq
    · exact Nat.le_succ_of_le (ht.le_made id m hbox)
  · intro id m hbox
    rw [box?_withFresh ht] at hbox
    split at hbox
    · obtain rfl := Option.some.inj hbox
      refine ⟨?_, nofun, nofun, rfl⟩
      have hpos := ht.capacity_pos
      change max 1 r.config.mailboxCapacity = r.config.mailboxCapacity
      omega
    · exact ht.box id m hbox
  · intro id hlisted
    obtain ⟨m, hbox⟩ := ht.exists_box id hlisted
    rw [box?_withFresh ht]
    split
    · exact ⟨_, rfl⟩
    · exact ⟨m, hbox⟩

theorem Upkept.subscribe (hr : r.Upkept fun _ => []) (topic : Topic) :
    (r.subscribe topic).1 = (r.board.subscribe topic).1 ∧
      (r.subscribe topic).2.board = (r.board.subscribe topic).2 ∧
      (r.subscribe topic).2.Upkept fun _ => [] := by
  have hopen : r.withFresh.refuses r.nextId = false := by
    rw [refuses_withFresh hr.toTended, if_pos rfl]
  refine ⟨rfl, ?_, (tended_withFresh hr.toTended).attach hopen, ?_⟩
  · calc (r.subscribe topic).2.board
        = (r.withFresh.attach topic r.nextId).board := rfl
      _ = r.withFresh.board.enter topic r.nextId := board_attach hopen
      _ = (r.board.subscribe topic).2 := by rw [board_withFresh hr.toTended]; rfl
  · refine attached_attach fun other hne hother => ?_
    have hother : r.withFresh.refuses other = false := hother
    rw [refuses_withFresh hr.toTended, if_neg hne] at hother
    exact hr.attached other hother

end Subscribe

theorem Upkept.attach (hr : r.Upkept line) (h : r.refuses id = false) :
    (r.attach topic id).Upkept line :=
  ⟨hr.toTended.attach h, attached_attach fun other _ => hr.attached other⟩

/-- A mailbox that its consumer kept is open for the router exactly if it is on the board. -/
theorem Upkept.isOpen_eq (hr : r.Upkept line)
    (howned : (r.box? id).all fun m => m.consumer != .gone) : r.isOpen id = r.board.isOpen id := by
  rw [hr.isOpen_board]
  cases hbox : r.box? id with
  | none => simp [isOpen, refuses, hbox]
  | some m =>
      have hm := hr.box id m hbox
      rw [refuses_of_box? hbox]
      cases hclosed : m.closed with
      | true => simp [isOpen, hbox, Mailbox.refuses, hclosed]
      | false =>
          have hlistening : m.consumer = .listening := by
            cases hconsumer : m.consumer with
            | listening => rfl
            | shut => simp [hm.closed_of_shut hconsumer] at hclosed
            | gone => simp [hbox, hconsumer] at howned
          have hrefuses : m.refuses = false := by simp [Mailbox.refuses, hclosed, hlistening]
          have hheld : r.holds id = true :=
            hr.attached id (by rw [refuses_of_box? hbox, hrefuses])
          simp [isOpen, hbox, hclosed, hrefuses, hheld]

theorem Upkept.closeAll (hr : r.Upkept line) (closing : MailboxId → Bool) :
    (r.closeAll closing).prune.board = r.board.strike closing ∧
      (r.closeAll closing).prune.Upkept line :=
  ⟨board_prune.trans board_closeAll, hr.toTended.closeAll.closeAll, hr.attached.closeAll.closeAll⟩

theorem Upkept.mem_list_board (hr : r.Upkept line) :
    id ∈ r.board.list topic ↔ id ∈ r.subscribers topic ∧ r.refuses id = false := by
  rw [hr.list_board, List.mem_filter, Bool.not_eq_true']

theorem Upkept.unsubscribe (hr : r.Upkept line) :
    (r.unsubscribe topic id).board = r.board.unsubscribe topic id ∧
      (r.unsubscribe topic id).Upkept line := by
  rw [Router.unsubscribe, Board.unsubscribe]
  by_cases hid : id ∈ r.subscribers topic
  · rw [if_pos hid]
    obtain ⟨hboard, hkept⟩ := hr.closeAll (· = id)
    refine ⟨?_, hkept⟩
    split
    · exact hboard
    · next hnot =>
        rw [hboard]
        refine strike_board_eq_self fun other hopen => decide_eq_false ?_
        rintro rfl
        rw [hr.isOpen_board, Bool.not_eq_true'] at hopen
        exact hnot (hr.mem_list_board.mpr ⟨hid, hopen⟩)
  · rw [if_neg hid, if_neg fun hm => hid (hr.mem_list_board.mp hm).1]
    exact ⟨rfl, hr⟩

theorem Upkept.collapse (hr : r.Upkept line) :
    (r.collapse topic).board = r.board.collapse topic ∧ (r.collapse topic).Upkept line := by
  have hsame : r.board.strike (· ∈ r.subscribers topic) = r.board.collapse topic := by
    simp only [Board.collapse, Board.strike]
    congr 1
    refine sift_congr fun other hother => ?_
    have hopen : r.board.isOpen other = true := hother
    rw [hr.isOpen_board, Bool.not_eq_true'] at hopen
    simp [hr.mem_list_board, hopen]
  by_cases hnil : (r.subscribers topic).isEmpty = true
  · have hnothing : r.collapse topic = r := if_pos hnil
    rw [hnothing, ← hsame, List.isEmpty_iff.mp hnil]
    exact ⟨(strike_board_eq_self fun _ _ => rfl).symm, hr⟩
  · have hclosing : r.collapse topic = (r.closeAll (· ∈ r.subscribers topic)).prune := if_neg hnil
    obtain ⟨hboard, hkept⟩ := hr.closeAll (· ∈ r.subscribers topic)
    rw [hclosing]
    exact ⟨hboard.trans hsame, hkept⟩

/-! ## Consumers -/

section Consumers

variable {m : Mailbox α}

theorem mailbox_take (m : Mailbox α) :
    m.take = match m.queue.items with
      | [] => (none, m)
      | mail :: rest => (some mail, { m with queue := { m.queue with items := rest } }) := by
  obtain ⟨id, ⟨capacity, items⟩, closed, consumer, waiting⟩ := m
  cases items <;> rfl

theorem queued_of_box?_eq_none (h : r.box? id = none) : r.queued id = [] := by
  simp [queued, h]

theorem receive_of_box?_eq_none (h : r.box? id = none) : r.receive id = (.ended, r) := by
  simp only [receive, h]

theorem receive_of_nil (hbox : r.box? id = some m) (hitems : m.queue.items = []) :
    r.receive id =
      if m.consumer = .listening ∧ r.holds id then (.nothing, r) else (.ended, r) := by
  simp only [receive, hbox, mailbox_take, hitems]

theorem receive_of_cons {mail : Mail α} {rest : List (Mail α)} (hbox : r.box? id = some m)
    (hitems : m.queue.items = mail :: rest) : r.receive id =
      (.mail mail, r.modifyBox id fun _ => { m with queue := { m.queue with items := rest } }) := by
  simp only [receive, hbox, mailbox_take, hitems]

/-- More mail may come for a mailbox exactly as long as none is refused. -/
theorem Upkept.held_iff (hr : r.Upkept line) (hbox : r.box? id = some m) :
    (m.consumer = .listening ∧ r.holds id = true) ↔ m.refuses = false := by
  constructor
  · rintro ⟨hlistening, hheld⟩
    have hclosed : m.closed = false := by
      rw [← Bool.not_eq_true]
      intro hclosed
      have hnot := (hr.box id m hbox).not_held hlistening hclosed
      rw [show isListed id r.topics = true from hheld] at hnot
      cases hnot
    simp [Mailbox.refuses, hclosed, hlistening]
  · intro hrefuses
    refine ⟨?_, hr.attached id (by rw [refuses_of_box? hbox, hrefuses])⟩
    simpa [Mailbox.refuses] using (Bool.or_eq_false_iff.mp hrefuses).2

/-- A consumer finds what the board has for it. -/
theorem Upkept.receive (hr : r.Upkept line) (id : MailboxId) :
    (r.receive id).1 = (r.board.receive id).1 ∧
      (r.receive id).2.board = (r.board.receive id).2 ∧ (r.receive id).2.Upkept line := by
  have hqueue : r.board.queue id = r.queued id := rfl
  rw [Board.receive, hqueue, hr.isOpen_board]
  cases hbox : r.box? id with
  | none =>
      have hrefuses : r.refuses id = true := by simp [refuses, hbox]
      simp only [receive_of_box?_eq_none hbox, queued_of_box?_eq_none hbox, hrefuses]
      exact ⟨rfl, trivial, hr⟩
  | some m =>
      have hm := hr.box id m hbox
      have hid := id_of_box? hbox
      rw [queued_of_box? hbox, refuses_of_box? hbox]
      cases hitems : m.queue.items with
      | nil =>
          rw [receive_of_nil hbox hitems]
          cases hrefuses : m.refuses with
          | true =>
              rw [if_neg (by simp [hr.held_iff hbox, hrefuses])]
              exact ⟨rfl, rfl, hr⟩
          | false =>
              rw [if_pos ((hr.held_iff hbox).mpr hrefuses)]
              exact ⟨rfl, rfl, hr⟩
      | cons mail rest =>
          have hf : ∀ other : Mailbox α, other.id = id →
              ((fun _ => { m with queue := { m.queue with items := rest } }) other).id = id :=
            fun _ _ => hid
          rw [receive_of_cons hbox hitems]
          refine ⟨rfl, board_modifyBox_queue hf hbox rfl rfl, ?_, ?_⟩
          · exact hr.toTended.modifyBox hf
              (fun _ _ => ⟨hm.capacity_eq, hm.closed_of_shut, hm.not_held, hm.waiting_eq⟩)
              fun _ _ => rfl
          · intro other hother
            refine hr.attached other ?_
            rw [refuses_modifyBox hf] at hother
            split at hother
            · next heq =>
                rw [hbox] at hother
                rw [heq, refuses_of_box? hbox]
                exact hother
            · exact hother

/-- A mailbox that its consumer closes or drops is struck. -/
theorem Upkept.shut {f : Mailbox α → Mailbox α} {queue : List (Mail α)} (hr : r.Upkept line)
    (id : MailboxId)
    (hf : ∀ m, (f m).id = m.id ∧ (f m).refuses = true ∧
      (f m).queue.capacity = m.queue.capacity ∧ (f m).waiting = m.waiting ∧
      (f m).consumer ≠ .listening ∧ ((f m).consumer = .shut → (f m).closed = true))
    (hqueue : ∀ m, r.box? id = some m → (f m).queue.items = queue)
    (hnone : r.box? id = none → queue = []) :
    (r.modifyBox id f).board = (r.board.strike (· = id)).setQueue id queue ∧
      (r.modifyBox id f).Upkept line := by
  have hid : ∀ m : Mailbox α, m.id = id → (f m).id = id := fun m h => (hf m).1.trans h
  have hrefuses : ∀ other, (r.modifyBox id f).refuses other =
      (r.refuses other || decide (other = id)) := by
    intro other
    rw [refuses_modifyBox hid]
    by_cases h : other = id
    · subst h
      cases r.box? other <;> simp [(hf _).2.1]
    · simp [h]
  refine ⟨?_, hr.toTended.modifyBox hid (fun m hbox => ?_) fun _ _ => rfl, ?_⟩
  · have hlists : sift (fun other => !(r.modifyBox id f).refuses other) r.topics =
        sift (fun other => !decide (other = id)) (sift (fun other => !r.refuses other) r.topics) := by
      rw [sift_sift]
      exact sift_congr fun other _ => by rw [hrefuses, Bool.not_or]
    have hqueued : (r.modifyBox id f).queued =
        fun other => if other = id then queue else r.queued other := by
      funext other
      rw [queued_modifyBox hid]
      cases hbox : r.box? id with
      | none => simp [hnone hbox]
      | some m => simp [hqueue m hbox]
    simp only [board, Board.strike, Board.setQueue, length_modifyBox, config_modifyBox,
      topics_modifyBox, hlists, hqueued]
  · have hm := hr.box id m hbox
    obtain ⟨-, -, hcapacity, hwaiting, hconsumer, hshut⟩ := hf m
    exact ⟨hcapacity.trans hm.capacity_eq, hshut, fun h => absurd h hconsumer,
      hwaiting.trans hm.waiting_eq⟩
  · intro other hother
    rw [hrefuses, Bool.or_eq_false_iff] at hother
    exact hr.attached other hother.1

theorem act_take : r.act id .take = ((r.receive id).1.mail?, (r.receive id).2) := by
  unfold Router.act
  rcases r.receive id with ⟨_ | _ | _, _⟩ <;> rfl

theorem Upkept.act (hr : r.Upkept line) (id : MailboxId) (action : ConsumerAction) :
    (r.act id action).1 = (r.board.act id action).1 ∧
      (r.act id action).2.board = (r.board.act id action).2 ∧ (r.act id action).2.Upkept line := by
  cases action with
  | take =>
      obtain ⟨hfound, hboard, hkept⟩ := hr.receive id
      rw [act_take, Board.act, hfound, hboard]
      exact ⟨rfl, rfl, hkept⟩
  | close =>
      obtain ⟨hboard, hkept⟩ := hr.shut id (f := Mailbox.close)
        (fun m => ⟨rfl, rfl, rfl, rfl, by simp [Mailbox.close], fun _ => rfl⟩)
        (fun m hbox => (queued_of_box? hbox).symm) queued_of_box?_eq_none
      exact ⟨rfl, hboard.trans (Board.setQueue_self _ id), hkept⟩
  | drop =>
      obtain ⟨hboard, hkept⟩ := hr.shut id (f := Mailbox.drop)
        (fun m => ⟨rfl, Bool.or_true _, rfl, rfl, by simp [Mailbox.drop], by simp [Mailbox.drop]⟩)
        (fun _ _ => rfl) fun _ => rfl
      exact ⟨rfl, hboard, hkept⟩

def perform (r : Router α) (a : Delivery.Timed) : Option (Mail α) × Router α :=
  match a.mailbox with
  | some id => r.act id a.action
  | none => (none, r)

theorem Upkept.perform (hr : r.Upkept line) (a : Delivery.Timed) :
    (r.perform a).1 = (r.board.perform a).1 ∧ (r.perform a).2.board = (r.board.perform a).2 ∧
      (r.perform a).2.Upkept line := by
  obtain ⟨time, mailbox, action⟩ := a
  cases mailbox with
  | none => exact ⟨rfl, rfl, hr⟩
  | some id => exact hr.act id action

end Consumers

end Router

end Realm
