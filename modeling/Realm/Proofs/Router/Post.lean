import Realm.Proofs.Router.Answers

/-!
# What deliveries bring and consumers take

A delivery puts copies of its mail behind what is queued for the mailboxes it attempts, at most one
for each time a mailbox is still to be attempted. A consumer takes the first mail of its own
mailbox. Nothing else gets into a queue.
-/

namespace Realm

variable {α : Type} {r r' r'' : Router α} {mail : Mail α} {todo todo' todo'' : List MailboxId}
  {id : MailboxId}

namespace Router

/-- From one router to another only copies of some mail came into the queues, for mailboxes that
were to be attempted before and are not any more. -/
structure Adds (mail : Mail α) (r : Router α) (todo : List MailboxId) (r' : Router α)
    (todo' : List MailboxId) : Prop where
  topics_eq : r'.topics = r.topics
  queued : ∀ id, ∃ n, r'.queued id = r.queued id ++ List.replicate n mail ∧
    n + todo'.count id ≤ todo.count id

theorem Adds.refl (mail : Mail α) (r : Router α) (todo : List MailboxId) :
    Adds mail r todo r todo := ⟨rfl, fun _ => ⟨0, by simp⟩⟩

theorem Adds.trans (h : Adds mail r todo r' todo') (h' : Adds mail r' todo' r'' todo'') :
    Adds mail r todo r'' todo'' := by
  refine ⟨h'.topics_eq.trans h.topics_eq, ?_⟩
  intro id
  obtain ⟨n, hqueued, hle⟩ := h.queued id
  obtain ⟨m, hqueued', hle'⟩ := h'.queued id
  refine ⟨n + m, ?_, by omega⟩
  rw [hqueued', hqueued, List.append_assoc, List.replicate_append_replicate]

/-- A mailbox is passed over. -/
theorem Adds.skip (mail : Mail α) (todo : List MailboxId) (htopics : r'.topics = r.topics)
    (hqueued : ∀ other, r'.queued other = r.queued other) : Adds mail r (id :: todo) r' todo := by
  refine ⟨htopics, fun other => ⟨0, by simp [hqueued], ?_⟩⟩
  rw [List.count_cons]
  omega

/-- Changing a mailbox in other respects leaves the queues alone. -/
theorem queued_modifyBox_of_queue_eq (r : Router α) (id : MailboxId) (f : Mailbox α → Mailbox α)
    (hid : ∀ m, (f m).id = m.id) (hqueue : ∀ m, (f m).queue = m.queue) (other : MailboxId) :
    (r.modifyBox id f).queued other = r.queued other := by
  rw [queued_modifyBox fun m h => (hid m).trans h]
  split
  · next heq => simp only [heq, hqueue, queued]
  · rfl

theorem queued_replace {m : Mailbox α} (hbox : r.box? id = some m) (m' : Mailbox α)
    (hid : m'.id = id) (other : MailboxId) : (r.modifyBox id fun _ => m').queued other =
      if other = id then m'.queue.items else r.queued other := by
  rw [queued_modifyBox fun _ _ => hid, hbox]
  rfl

/-- An offer that is refused leaves the queues as they are, and one that is accepted puts the mail
into one of them. -/
theorem adds_offer (r : Router α) (id : MailboxId) (ticket : Nat) (mail : Mail α)
    (rest : List MailboxId) :
    Adds mail r (id :: rest) (r.offer id ticket mail).2
      (if (r.offer id ticket mail).1 then rest else id :: rest) := by
  unfold offer
  cases hbox : r.box? id with
  | none => exact .refl ..
  | some m =>
      have hid := id_of_box? hbox
      have hsame : ∀ m' : Mailbox α, m'.id = id → m'.queue = m.queue →
          Adds mail r (id :: rest) (r.modifyBox id fun _ => m') (id :: rest) := by
        intro m' hid' hqueue
        refine ⟨rfl, fun other => ⟨0, ?_, by simp⟩⟩
        rw [queued_replace hbox m' hid', hqueue]
        split
        · next heq => simp [heq, queued_of_box? hbox]
        · simp
      simp only [Mailbox.offer]
      by_cases hplace : m.rank ticket < m.queue.room
      · rw [if_pos hplace]
        refine ⟨rfl, fun other => ?_⟩
        have hqueued := queued_replace hbox { m.leave ticket with queue := m.queue.push mail }
          hid other
        by_cases heq : other = id
        · refine ⟨1, hqueued.trans ?_, ?_⟩
          · rw [if_pos heq, heq, queued_of_box? hbox]
            rfl
          · rw [heq, if_pos rfl, List.count_cons_self]
            omega
        · rw [if_neg heq] at hqueued
          refine ⟨0, by simpa using hqueued, ?_⟩
          rw [if_pos rfl, List.count_cons]
          omega
      · rw [if_neg hplace]
        split
        · exact hsame m hid rfl
        · exact hsame _ hid rfl

end Router

open Router

namespace Delivery

theorem adds_attempt (now : Instant) (d : Delivery α) (r : Router α) (todo : List MailboxId)
    (due : Option Instant) (delivered : Nat) :
    Adds d.mail r todo (d.attempt now r todo due delivered).1
      (d.attempt now r todo due delivered).2.todo := by
  induction todo generalizing r due delivered with
  | nil => exact .refl ..
  | cons id rest ih =>
      unfold attempt
      split
      · refine (Adds.skip d.mail rest ?_ ?_).trans (ih _ _ _)
        · split <;> rfl
        · intro other
          refine (queued_modifyBox_of_queue_eq _ id (·.leave d.ticket) (fun _ => rfl)
            (fun _ => rfl) other).trans ?_
          split
          · exact queued_modifyBox_of_queue_eq r id Mailbox.mark (fun _ => rfl) (fun _ => rfl) other
          · rfl
      · have hoffer := adds_offer r id d.ticket d.mail rest
        cases hresult : r.offer id d.ticket d.mail with
        | mk accepted r' =>
            rw [hresult] at hoffer
            cases accepted with
            | true => exact hoffer.trans (ih _ _ _)
            | false =>
                dsimp only
                split
                · have hskip : Adds d.mail r' (id :: rest) (r'.withdraw id d.ticket) rest :=
                    .skip d.mail rest rfl
                      (queued_modifyBox_of_queue_eq r' id _ (fun _ => rfl) fun _ => rfl)
                  split
                  · exact hoffer.trans (hskip.trans (ih _ _ _))
                  · refine hoffer.trans (hskip.trans ⟨rfl, fun other => ⟨0, by simp, ?_⟩⟩)
                    simp
                · exact hoffer

/-- What a delivery does at an instant. -/
theorem adds_advance (now : Instant) (r : Router α) (d : Delivery α) :
    Adds d.mail r d.todo (d.advance now r).1 (d.advance now r).2.todo :=
  adds_attempt now d r d.todo d.waitUntil d.delivered

theorem mail_attempt (now : Instant) (d : Delivery α) (r : Router α) (todo : List MailboxId)
    (due : Option Instant) (delivered : Nat) :
    (d.attempt now r todo due delivered).2.mail = d.mail := by
  induction todo generalizing r due delivered with
  | nil => rfl
  | cons id rest ih =>
      unfold attempt
      split
      · exact ih _ _ _
      · split
        · exact ih _ _ _
        · dsimp only
          split
          · split
            · exact ih _ _ _
            · rfl
          · rfl

theorem mail_advance (now : Instant) (r : Router α) (d : Delivery α) :
    (d.advance now r).2.mail = d.mail := mail_attempt ..

end Delivery

namespace Router

/-- A consumer that gets mail takes the first of its own mailbox. -/
theorem queued_of_receive (h : r.receive id = (.mail mail, r')) :
    r.queued id = mail :: r'.queued id ∧ (∀ other, other ≠ id → r'.queued other = r.queued other) ∧
      r'.topics = r.topics := by
  cases hbox : r.box? id with
  | none =>
      rw [receive_of_box?_eq_none hbox] at h
      cases h
  | some m =>
      cases hitems : m.queue.items with
      | nil =>
          rw [receive_of_nil hbox hitems] at h
          split at h <;> cases h
      | cons first rest =>
          rw [receive_of_cons hbox hitems] at h
          cases h
          have hid := id_of_box? hbox
          have hqueued := queued_replace hbox { m with queue := { m.queue with items := rest } } hid
          refine ⟨?_, fun other hne => (hqueued other).trans (if_neg hne), rfl⟩
          rw [queued_of_box? hbox, hitems]
          exact congrArg (mail :: ·) ((hqueued id).trans (if_pos rfl)).symm

theorem mem_of_receive (h : r.receive id = (.mail mail, r')) {other : MailboxId} {m : Mail α}
    (hm : m ∈ r'.queued other) : m ∈ r.queued other := by
  obtain ⟨hfirst, hothers, -⟩ := queued_of_receive h
  by_cases heq : other = id
  · subst heq
    rw [hfirst]
    exact List.mem_cons_of_mem _ hm
  · exact hothers other heq ▸ hm

/-- A consumer that gets none leaves the router alone. -/
theorem eq_of_receive {found : Found α} (h : r.receive id = (found, r'))
    (hnone : ∀ mail, found ≠ .mail mail) : r' = r := by
  cases hbox : r.box? id with
  | none =>
      rw [receive_of_box?_eq_none hbox] at h
      cases h
      rfl
  | some m =>
      cases hitems : m.queue.items with
      | nil =>
          rw [receive_of_nil hbox hitems] at h
          split at h <;> (cases h; rfl)
      | cons first rest =>
          rw [receive_of_cons hbox hitems] at h
          cases h
          exact absurd rfl (hnone first)

theorem backlog_eq (r : Router α) (id : MailboxId) : r.backlog id = (r.queued id).length := by
  unfold backlog queued
  cases r.box? id <;> rfl

/-- So many copies of the mail came into a mailbox. -/
theorem Adds.arrived (h : Adds mail r todo r' todo') (id : MailboxId) :
    r'.queued id = r.queued id ++ .replicate (r'.backlog id - r.backlog id) mail ∧
      (r'.backlog id - r.backlog id) + todo'.count id ≤ todo.count id := by
  obtain ⟨n, hqueued, hcount⟩ := h.queued id
  have hn : r'.backlog id - r.backlog id = n := by
    rw [backlog_eq, backlog_eq, hqueued, List.length_append, List.length_replicate,
      Nat.add_sub_cancel_left]
  rw [hn]
  exact ⟨hqueued, hcount⟩

theorem queued_collapse (r : Router α) (topic : Topic) (id : MailboxId) :
    (r.collapse topic).queued id = r.queued id := by
  unfold collapse
  dsimp only
  split
  · rfl
  · exact queued_closeAll.trans queued_closeAll

/-- A consumer that drops its mailbox loses what is in it. -/
theorem queued_drop (r : Router α) (id other : MailboxId) :
    (r.modifyBox id Mailbox.drop).queued other = if other = id then [] else r.queued other := by
  rw [queued_modifyBox (f := Mailbox.drop) fun _ h => h]
  split
  · cases r.box? id <;> rfl
  · rfl

/-! ## One topic for a mailbox -/

/-- A bound on how often the topics list a mailbox holds for each topic. -/
theorem count_subscribers_le {b : Topic → Nat}
    (h : ∀ entry ∈ r.topics, entry.2.count id ≤ b entry.1) (topic : Topic) :
    (r.subscribers topic).count id ≤ b topic := by
  unfold subscribers
  cases hlookup : r.topics.lookup topic with
  | none => simp
  | some ids =>
      obtain ⟨before, after, htopics, -⟩ := List.lookup_eq_some_iff.mp hlookup
      exact h (topic, ids) (htopics ▸ List.mem_append_right before List.mem_cons_self)

/-- The router lists the mailbox under one topic only, and there once at most. -/
def Wired (topic : Topic) (id : MailboxId) (r : Router α) : Prop :=
  ∀ entry ∈ r.topics, entry.2.count id ≤ if entry.1 = topic then 1 else 0

variable {topic : Topic}

theorem Wired.of_eq (hr : r.Wired topic id) (h : r'.topics = r.topics) : r'.Wired topic id := by
  intro entry hm
  rw [h] at hm
  exact hr entry hm

theorem Wired.count_subscribers (hr : r.Wired topic id) (other : Topic) :
    (r.subscribers other).count id ≤ if other = topic then 1 else 0 :=
  count_subscribers_le (b := fun t => if t = topic then 1 else 0) hr other

theorem Wired.closeAll (hr : r.Wired topic id) (closing : MailboxId → Bool) :
    (r.closeAll closing).Wired topic id := by
  intro entry hm
  obtain ⟨old, hold, rfl⟩ := List.mem_map.mp (List.mem_of_mem_filter hm)
  exact Nat.le_trans (List.filter_sublist.count_le id) (hr old hold)

theorem Wired.collapse (hr : r.Wired topic id) (other : Topic) :
    (r.collapse other).Wired topic id := by
  unfold Router.collapse
  dsimp only
  split
  · exact hr
  · exact (hr.closeAll _).closeAll _

end Router

end Realm
