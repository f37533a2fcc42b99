import Realm.Proofs.Router.Visits

/-!
# What a closed mailbox still brings

Nothing is queued for a mailbox that is not open. So its consumer gets what was queued when it was
closed, in order, whatever everybody else does, deliveries under way included.
-/

namespace Realm

variable {α : Type}

def Delivery.takenBy (id : MailboxId) (during : List Delivery.Timed)
    (taken : List (Option (Mail α × Instant))) : List (Mail α) :=
  (during.zip taken).filterMap fun (a, found) =>
    if a.mailbox = some id then found.map (·.1) else none

theorem Delivery.takenBy_append (id : MailboxId) {during more : List Delivery.Timed}
    {taken taken' : List (Option (Mail α × Instant))} (h : taken.length = during.length) :
    takenBy id (during ++ more) (taken ++ taken') =
      takenBy id during taken ++ takenBy id more taken' := by
  rw [takenBy, List.zip_append h.symm, List.filterMap_append]
  rfl

def Delivery.Timed.drops (a : Delivery.Timed) (id : MailboxId) : Bool :=
  a.mailbox = some id && a.action = .drop

namespace Call

/-- The mail that a call and what the consumers do meanwhile bring to the consumer of a mailbox. -/
def brings (id : MailboxId) : Call α → Answer α → List (Mail α)
  | .receive other, .found found => if other = id then found.mail?.toList else []
  | .publish _ _ _ during _, .published _ taken _ => Delivery.takenBy id during taken
  | .broadcast _ _ during _, .reached _ taken _ => Delivery.takenBy id during taken
  | _, _ => []

/-- The consumer drops its mailbox, possibly during a delivery. -/
def drops (id : MailboxId) : Call α → Bool
  | .drop other => other = id
  | .publish _ _ _ during _ => during.any (·.drops id)
  | .broadcast _ _ during _ => during.any (·.drops id)
  | _ => false

def bringsAll (id : MailboxId) (calls : List (Call α)) (answers : List (Answer α)) :
    List (Mail α) :=
  (calls.zip answers).flatMap fun (call, answer) => call.brings id answer

end Call

namespace Board

/-- What becomes of a mailbox that is not open: some of its mail is taken, the rest stays, or is
lost with the mailbox. -/
structure Drains (id : MailboxId) (b : Board α) (got : List (Mail α)) (dropped : Bool)
    (b' : Board α) : Prop where
  closed : b'.isOpen id = false
  got_prefix : got <+: b.queue id
  kept : dropped = false → b.queue id = got ++ b'.queue id
  lost : dropped = true → b'.queue id = []

namespace Drains

variable {id : MailboxId} {b b' b'' : Board α} {got got' : List (Mail α)} {dropped dropped' : Bool}

theorem refl (hb : b.isOpen id = false) : Drains id b [] false b :=
  ⟨hb, List.nil_prefix, fun _ => rfl, nofun⟩

/-- A mailbox whose queue is left alone. -/
theorem of_queue_eq (hclosed : b'.isOpen id = false) (hqueue : b'.queue id = b.queue id) :
    Drains id b [] false b' :=
  ⟨hclosed, List.nil_prefix, fun _ => hqueue.symm, nofun⟩

theorem trans (h : Drains id b got dropped b') (h' : Drains id b' got' dropped' b'') :
    Drains id b (got ++ got') (dropped || dropped') b'' where
  closed := h'.closed
  got_prefix := by
    cases hdropped : dropped with
    | true =>
      have hnil : got' = [] := List.prefix_nil.mp (h.lost hdropped ▸ h'.got_prefix)
      simpa [hnil] using h.got_prefix
    | false =>
      rw [h.kept hdropped]
      exact (List.prefix_append_right_inj got).mpr h'.got_prefix
  kept hnone := by
    obtain ⟨hnot, hnot'⟩ := Bool.or_eq_false_iff.mp hnone
    rw [h.kept hnot, h'.kept hnot', List.append_assoc]
  lost hsome := by
    cases hdropped' : dropped' with
    | true => exact h'.lost hdropped'
    | false =>
      have hdropped : dropped = true := by simpa [hdropped'] using hsome
      have hnil := h'.kept hdropped'
      rw [h.lost hdropped] at hnil
      exact (List.append_eq_nil_iff.mp hnil.symm).2

end Drains

variable {id : MailboxId} {b : Board α}

theorem fst_perform (b : Board α) (a : Delivery.Timed) (id : MailboxId) :
    (if a.mailbox = some id then (b.perform a).1.toList else []) =
      if a.mailbox = some id ∧ a.action = .take then (b.queue id).head?.toList else [] := by
  obtain ⟨time, mailbox | mailbox, action⟩ := a
  · simp
  · by_cases heq : mailbox = id
    · subst heq
      cases action <;> cases h : b.queue mailbox <;> cases hopen : b.isOpen mailbox <;>
        simp [perform, act, receive, h, hopen, Router.Found.mail?]
    · simp [heq]

theorem drains_perform (hn : (b.lists.map (·.1)).Nodup) (hb : b.isOpen id = false)
    (a : Delivery.Timed) :
    Drains id b (if a.mailbox = some id then (b.perform a).1.toList else []) (a.drops id)
      (b.perform a).2 := by
  have hclosed : (b.perform a).2.isOpen id = false := by
    simp [(spares_perform hn a).isOpen_eq, hb]
  rw [fst_perform]
  by_cases hid : a.mailbox = some id
  · have hqueue := queue_perform b a id
    rw [if_pos hid] at hqueue
    cases haction : a.action with
    | take =>
      refine ⟨hclosed, ?_, ?_, ?_⟩ <;> cases h : b.queue id <;>
        simp_all [Delivery.Timed.drops]
    | close =>
      simpa [hid, haction, Delivery.Timed.drops] using
        Drains.of_queue_eq hclosed (by simpa [haction] using hqueue)
    | drop =>
      refine ⟨hclosed, ?_, ?_, ?_⟩ <;> simp_all [Delivery.Timed.drops]
  · simpa [hid, Delivery.Timed.drops] using
      Drains.of_queue_eq hclosed (by simp [queue_perform, hid])

/-- One action of a consumer, and what follows. -/
theorem Drains.act {a : Delivery.Timed} {during : List Delivery.Timed} {time : Instant}
    {taken : List (Option (Mail α × Instant))} {b' : Board α} (hn : (b.lists.map (·.1)).Nodup)
    (hb : b.isOpen id = false)
    (h : Drains id (b.perform a).2 (Delivery.takenBy id during taken)
      (during.any (·.drops id)) b') :
    Drains id b (Delivery.takenBy id (a :: during) ((b.perform a).1.map (·, time) :: taken))
      ((a :: during).any (·.drops id)) b' := by
  have hall := (drains_perform hn hb a).trans h
  have hcons : Delivery.takenBy id (a :: during) ((b.perform a).1.map (·, time) :: taken) =
      (if a.mailbox = some id then (b.perform a).1.toList else []) ++
        Delivery.takenBy id during taken := by
    by_cases hid : a.mailbox = some id <;> cases hfound : (b.perform a).1 <;>
      simp [Delivery.takenBy, hid]
  rw [hcons]
  exact hall

theorem drains_await (hn : (b.lists.map (·.1)).Nodup) (hb : b.isOpen id = false)
    (other : MailboxId) (due now : Instant) (actions : List Delivery.Timed) : ∃ done,
      actions = done ++ (await other due actions now b).actions ∧
      (await other due actions now b).taken.length = done.length ∧
      Drains id b (Delivery.takenBy id done (await other due actions now b).taken)
        (done.any (·.drops id)) (await other due actions now b).board := by
  have hidle := Drains.refl hb
  induction actions generalizing now b with
  | nil =>
    unfold await
    split
    · exact ⟨[], rfl, rfl, hidle⟩
    · split
      · exact ⟨[], rfl, rfl, hidle⟩
      · split <;> exact ⟨[], rfl, rfl, hidle⟩
  | cons a rest ih =>
    have hclosed := (drains_perform hn hb a).closed
    obtain ⟨done, hdone, hlength, hdrains⟩ :=
      ih (spares_perform hn a).keys_nodup hclosed (max now a.time) (.refl hclosed)
    unfold await
    split
    · exact ⟨[], rfl, rfl, hidle⟩
    · split
      · exact ⟨[], rfl, rfl, hidle⟩
      · split
        · exact ⟨[], rfl, rfl, hidle⟩
        · dsimp only
          split
          · exact ⟨[], rfl, rfl, hidle⟩
          · exact ⟨a :: done, congrArg (a :: ·) hdone, congrArg (· + 1) hlength, hdrains.act hn hb⟩

theorem drains_playOut (hn : (b.lists.map (·.1)).Nodup) (hb : b.isOpen id = false)
    (complete : Bool) (now : Instant) (actions : List Delivery.Timed) :
    (playOut complete actions now b).taken.length = actions.length ∧
      Drains id b (Delivery.takenBy id actions (playOut complete actions now b).taken)
        (actions.any (·.drops id)) (playOut complete actions now b).board := by
  induction actions generalizing now b with
  | nil => exact ⟨rfl, .refl hb⟩
  | cons a rest ih =>
    obtain ⟨hlength, hdrains⟩ :=
      ih (spares_perform hn a).keys_nodup (drains_perform hn hb a).closed (max now a.time)
    exact ⟨congrArg (· + 1) hlength, hdrains.act hn hb⟩

/-- The part of a delivery after a wait. -/
theorem drains_after {w : Waited α} {d : Delivered α} {done actions : List Delivery.Timed}
    (hdone : actions = done ++ w.actions) (hlength : w.taken.length = done.length)
    (hw : Drains id b (Delivery.takenBy id done w.taken) (done.any (·.drops id)) w.board)
    {b' : Board α} (hclosed : b'.isOpen id = false) (hqueue : b'.queue id = w.board.queue id)
    (hd : d.taken.length = w.actions.length ∧ Drains id b' (Delivery.takenBy id w.actions d.taken)
      (w.actions.any (·.drops id)) d.board) :
    (d.after w.taken).taken.length = actions.length ∧
      Drains id b (Delivery.takenBy id actions (d.after w.taken).taken)
        (actions.any (·.drops id)) (d.after w.taken).board := by
  have hall := (hw.trans (.of_queue_eq hclosed hqueue)).trans hd.2
  refine ⟨by simp [Delivered.after, hdone, hlength, hd.1], ?_⟩
  rw [hdone, List.any_append, Delivered.after, Delivery.takenBy_append id hlength]
  simpa using hall

theorem drains_deliver (hn : (b.lists.map (·.1)).Nodup) (hb : b.isOpen id = false) (mail : Mail α)
    (onward : Bool) (todo : List MailboxId) (actions : List Delivery.Timed) (now : Instant) :
    (deliver mail onward todo actions now b).taken.length = actions.length ∧
      Drains id b (Delivery.takenBy id actions (deliver mail onward todo actions now b).taken)
        (actions.any (·.drops id)) (deliver mail onward todo actions now b).board := by
  induction todo generalizing actions now b with
  | nil => exact drains_playOut hn hb true now actions
  | cons other rest ih =>
    let due := now + b.config.publishTimeout.millis
    obtain ⟨done, hdone, hlength, hdrains⟩ := drains_await hn hb other due now actions
    obtain ⟨_, -, hspares⟩ := spares_await hn other due now actions
    obtain ⟨during, htells⟩ := exists_tells other actions b (Nat.le_add_right now _ : now ≤ due)
    generalize hw : await other due actions now b = w at hdone hlength hdrains hspares htells
    have hnext := ih hspares.keys_nodup hdrains.closed w.actions w.time
    have hstop := drains_playOut hspares.keys_nodup hdrains.closed false w.time w.actions
    cases hv : w.verdict with
    | closed =>
      rw [deliver_of_closed hw hv]
      exact drains_after hdone hlength hdrains hdrains.closed rfl hnext
    | free =>
      -- The mailbox that gets the mail is open, so it is another one.
      have hopen : w.board.isOpen other = true :=
        htells.board_eq ▸ (htells.fair.of_free hv).1
      have hne : id ≠ other := by
        rintro rfl
        rw [hdrains.closed] at hopen
        cases hopen
      rw [deliver_of_free hw hv]
      let served := w.board.setQueue other (w.board.queue other ++ [mail])
      have hclosed : served.isOpen id = false := hdrains.closed
      have hrest := ih (b := served) hspares.keys_nodup hclosed w.actions w.time
      exact drains_after (d := { deliver mail onward rest w.actions w.time served with
        reached := _ }) hdone hlength hdrains hclosed (by simp [served, setQueue, hne]) hrest
    | stalled =>
      cases onward with
      | true =>
        rw [deliver_of_passed hw hv rfl]
        exact drains_after hdone hlength hdrains hdrains.closed rfl hnext
      | false =>
        rw [deliver_of_stopped hw hv rfl]
        exact drains_after hdone hlength hdrains hdrains.closed rfl hstop

/-! ## Calls -/

theorem isOpen_enter (b : Board α) (topic : Topic) (id other : MailboxId) :
    (b.enter topic other).isOpen id = (decide (id = other) || b.isOpen id) := isListed_append

theorem isOpen_strike (b : Board α) (closing : MailboxId → Bool) (id : MailboxId) :
    (b.strike closing).isOpen id = (!closing id && b.isOpen id) := isListed_sift

theorem made_answer (hn : (b.lists.map (·.1)).Nodup) (call : Call α) :
    b.made ≤ (b.answer call).2.made := by
  cases call with
  | subscribe topic => exact Nat.le_succ b.made
  | subscribeTo topic other =>
    simp only [answer, subscribeTo]
    cases b.isOpen other <;> exact Nat.le_refl _
  | unsubscribe topic other =>
    simp only [answer, unsubscribe]
    split <;> exact Nat.le_refl _
  | publish ticket topic mail during now =>
    exact Nat.le_of_eq (spares_deliver hn mail false _ during now).made_eq.symm
  | broadcast ticket mail during now =>
    exact Nat.le_of_eq (spares_deliver hn mail true _ during now).made_eq.symm
  | receive other =>
    exact Nat.le_of_eq (spares_perform hn ⟨0, some other, .take⟩).made_eq.symm
  | collapse | topicCount | sizeOf | close | drop => exact Nat.le_refl _

theorem drains_strike (hb : b.isOpen id = false) (closing : MailboxId → Bool) :
    Drains id b [] false (b.strike closing) :=
  .of_queue_eq (by rw [isOpen_strike, hb, Bool.and_false]) rfl

/-- Nobody but the consumer gets at what is queued for a mailbox that is not open, and no call opens
it again. -/
theorem drains_answer (hn : (b.lists.map (·.1)).Nodup) (hb : b.isOpen id = false)
    (hmade : id ≤ b.made) (call : Call α) :
    Drains id b (call.brings id (b.answer call).1) (call.drops id) (b.answer call).2 := by
  have hact (other : MailboxId) (action : Router.ConsumerAction) :=
    drains_perform hn hb ⟨0, some other, action⟩
  cases call with
  | subscribe topic =>
    have hne : id ≠ b.made + 1 := Nat.ne_of_lt (Nat.lt_succ_of_le hmade)
    exact .of_queue_eq ((isOpen_enter { b with made := b.made + 1 } topic id _).trans
      (Bool.or_eq_false_iff.mpr ⟨decide_eq_false hne, hb⟩)) rfl
  | subscribeTo topic other =>
    simp only [answer, subscribeTo]
    cases hopen : b.isOpen other with
    | true =>
      have hne : id ≠ other := by
        rintro rfl
        rw [hb] at hopen
        cases hopen
      exact .of_queue_eq (by simp [isOpen_enter, hne, hb]) rfl
    | false => exact .refl hb
  | unsubscribe topic other =>
    simp only [answer, unsubscribe]
    split
    · exact drains_strike hb _
    · exact .refl hb
  | collapse topic => exact drains_strike hb _
  | publish ticket topic mail during now =>
    exact (drains_deliver hn hb mail false _ during now).2
  | broadcast ticket mail during now =>
    exact (drains_deliver hn hb mail true _ during now).2
  | topicCount => exact .refl hb
  | sizeOf topic => exact .refl hb
  | receive other =>
    simpa [Call.brings, Call.drops, Delivery.Timed.drops, answer, perform, act] using
      hact other .take
  | close other =>
    simpa [Call.brings, Call.drops, Delivery.Timed.drops, answer, perform, act] using
      hact other .close
  | drop other =>
    simpa [Call.brings, Call.drops, Delivery.Timed.drops, answer, perform, act] using
      hact other .drop

theorem drains_answers (hn : (b.lists.map (·.1)).Nodup) (hb : b.isOpen id = false)
    (hmade : id ≤ b.made) (calls : List (Call α)) :
    Drains id b (Call.bringsAll id calls (b.answers calls).1) (calls.any (·.drops id))
      (b.answers calls).2 := by
  induction calls generalizing b with
  | nil => exact .refl hb
  | cons call rest ih =>
    have hcall := drains_answer hn hb hmade call
    exact hcall.trans (ih (keeps_answer hn call).1 hcall.closed
      (Nat.le_trans hmade (made_answer hn call)))

end Board

end Realm
