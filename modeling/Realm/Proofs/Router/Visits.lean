import Realm.Proofs.Router.Refinement

/-!
# The tour of a publication

A publication visits the subscriptions of its topic in order, one at a time. A visit ends at the
first moment at which the mailbox is closed or has a place, or else with the publish timeout.
Main statement: a publication succeeds exactly if every subscription was visited and none of the
visits stalled; it fails exactly if a visit stalled, which is then the last one; and apart from
the copies that the visits leave behind nothing happens but what the consumers do.
-/

namespace Realm

variable {α : Type}

namespace Board

variable {b c : Board α} {id : MailboxId}

/-! ## Consumers that act -/

/-- The board after consumers acted one after the other. -/
def acts (b : Board α) (actions : List Delivery.Timed) : Board α :=
  actions.foldl (fun b a => (b.perform a).2) b

theorem acts_append (b : Board α) (first rest : List Delivery.Timed) :
    b.acts (first ++ rest) = (b.acts first).acts rest := List.foldl_append

/-- A mailbox that is open and has no place. -/
def Full (b : Board α) (id : MailboxId) : Prop :=
  b.isOpen id = true ∧ b.config.mailboxCapacity ≤ (b.queue id).length

/-- No mailbox holds more than it has places. -/
def Within (b : Board α) : Prop := ∀ id, (b.queue id).length ≤ b.config.mailboxCapacity

/-- Two boards that do not differ in the subscriptions and in what is queued for some mailboxes. -/
def Alike (p : MailboxId → Prop) (b c : Board α) : Prop :=
  b.lists = c.lists ∧ ∀ id, p id → b.queue id = c.queue id

theorem config_perform (b : Board α) (a : Delivery.Timed) : (b.perform a).2.config = b.config := by
  obtain ⟨time, mailbox | mailbox, action⟩ := a
  · rfl
  · cases action with
    | take =>
        simp only [perform, act, receive]
        split <;> rfl
    | close => rfl
    | drop => rfl

theorem config_acts (b : Board α) (actions : List Delivery.Timed) :
    (b.acts actions).config = b.config := by
  induction actions generalizing b with
  | nil => rfl
  | cons a rest ih => exact (ih _).trans (config_perform b a)

theorem queue_perform (b : Board α) (a : Delivery.Timed) (id : MailboxId) :
    (b.perform a).2.queue id =
      if a.mailbox = some id then
        match a.action with
        | .take => (b.queue id).tail
        | .close => b.queue id
        | .drop => []
      else b.queue id := by
  obtain ⟨time, mailbox | mailbox, action⟩ := a
  · rfl
  · by_cases heq : mailbox = id
    · subst heq
      cases action with
      | take => cases h : b.queue mailbox <;> simp [perform, act, receive, setQueue, h]
      | close => simp [perform, act, strike]
      | drop => simp [perform, act, strike, setQueue]
    · have hne : ¬ id = mailbox := fun h => heq h.symm
      cases action with
      | take => cases h : b.queue mailbox <;> simp [perform, act, receive, setQueue, h, heq, hne]
      | close => simp [perform, act, strike, heq]
      | drop => simp [perform, act, strike, setQueue, heq, hne]

theorem lists_perform (b : Board α) (a : Delivery.Timed) :
    (b.perform a).2.lists = if a.action = .take then b.lists
      else match a.mailbox with
        | some id => (b.strike (· = id)).lists
        | none => b.lists := by
  obtain ⟨time, mailbox | mailbox, action⟩ := a
  · simp [perform]
  · cases action with
    | take =>
        simp only [perform, act, receive, if_true]
        split <;> rfl
    | close => rfl
    | drop => rfl

theorem Within.perform (hb : b.Within) (a : Delivery.Timed) : (b.perform a).2.Within := by
  intro id
  have hid := hb id
  rw [config_perform, queue_perform]
  split
  · split
    · rw [List.length_tail]
      omega
    · exact hid
    · exact Nat.zero_le _
  · exact hid

theorem Within.acts (hb : b.Within) (actions : List Delivery.Timed) : (b.acts actions).Within := by
  induction actions generalizing b with
  | nil => exact hb
  | cons a rest ih => exact ih (hb.perform a)

theorem Alike.perform {p : MailboxId → Prop} (h : b.Alike p c) (a : Delivery.Timed) :
    (b.perform a).2.Alike p (c.perform a).2 := by
  refine ⟨?_, fun id hid => ?_⟩
  · simp only [lists_perform, strike, h.1]
  · rw [queue_perform, queue_perform, h.2 id hid]

theorem Alike.acts {p : MailboxId → Prop} (h : b.Alike p c) (actions : List Delivery.Timed) :
    (b.acts actions).Alike p (c.acts actions) := by
  induction actions generalizing b c with
  | nil => exact h
  | cons a rest ih => exact ih (h.perform a)

theorem playOut_eq (complete : Bool) (actions : List Delivery.Timed) (now : Instant) (b : Board α) :
    (playOut complete actions now b).board = b.acts actions ∧
      (playOut complete actions now b).complete = complete ∧
      (playOut complete actions now b).reached = 0 := by
  induction actions generalizing now b with
  | nil => exact ⟨rfl, rfl, rfl⟩
  | cons a rest ih => exact ih (max now a.time) (b.perform a).2

end Board

/-! ## Visits -/

structure Visit (α : Type) where
  mailbox : MailboxId
  arrival : Instant
  departure : Instant
  before : Board α
  /-- What the consumers did meanwhile. -/
  during : List Delivery.Timed
  verdict : Board.Verdict

namespace Visit

def waited (v : Visit α) : Board α := v.before.acts v.during

/-- The board that a visit leaves behind: a mailbox with a place gets a copy at the end of its
queue. -/
def after (v : Visit α) (mail : Mail α) : Board α :=
  match v.verdict with
  | .free => v.waited.setQueue v.mailbox (v.waited.queue v.mailbox ++ [mail])
  | .closed | .stalled => v.waited

/-- The instant of the last thing that the consumers did, or else of the arrival. -/
def lastAct (v : Visit α) : Instant := v.during.foldl (fun time a => max time a.time) v.arrival

/-- What a verdict means, if the mailbox is waited for until some instant at most. Before the end of
the wait the mailbox is open and full all the time. -/
structure Fair (v : Visit α) (due : Instant) : Prop where
  full : ∀ first rest, v.during = first ++ rest → rest ≠ [] →
    (v.before.acts first).Full v.mailbox
  departure_le : v.departure ≤ due
  lastAct_le : v.lastAct ≤ v.departure
  of_free : v.verdict = .free → v.waited.isOpen v.mailbox = true ∧
    (v.waited.queue v.mailbox).length < v.waited.config.mailboxCapacity ∧ v.departure = v.lastAct
  of_closed : v.verdict = .closed →
    v.waited.isOpen v.mailbox = false ∧ v.departure = v.lastAct
  of_stalled : v.verdict = .stalled → v.waited.Full v.mailbox ∧ v.departure = due

end Visit

/-- Visits one after the other: each begins when and where the one before ended. -/
inductive Successive (mail : Mail α) :
    Board α → Instant → List Delivery.Timed → List (Visit α) → Board α → Instant → Prop
  | nil (b : Board α) (now : Instant) : Successive mail b now [] [] b now
  | cons {actions : List Delivery.Timed} {visits : List (Visit α)} {b : Board α} {time : Instant}
      (v : Visit α) (rest : Successive mail (v.after mail) v.departure actions visits b time) :
      Successive mail v.before v.arrival (v.during ++ actions) (v :: visits) b time

namespace Board

/-! ## A wait is a visit -/

section Waits

variable {b : Board α} {id : MailboxId} {due now : Instant} {actions : List Delivery.Timed}

/-- A visit tells how a wait went. What the consumers did not do before its end might as well have
been left out, and after a stalled visit they do nothing before the wait was due to end. -/
structure Tells (v : Visit α) (due : Instant) (actions : List Delivery.Timed) (w : Waited α) :
    Prop where
  actions_eq : actions = v.during ++ w.actions
  board_eq : w.board = v.waited
  verdict_eq : w.verdict = v.verdict
  time_eq : w.time = v.departure
  fair : v.Fair due
  late : v.verdict = .stalled → ∀ a ∈ w.actions.head?, due ≤ max v.lastAct a.time
  early : ∀ more, more <+: w.actions →
    await v.mailbox due (v.during ++ more) v.arrival v.before = { w with actions := more }

theorem await_of_closed (hclosed : b.isOpen id = false) :
    await id due actions now b = ⟨.closed, b, now, [], actions⟩ := by
  unfold await
  simp [hclosed]

theorem await_of_free (hopen : b.isOpen id = true)
    (hfree : (b.queue id).length < b.config.mailboxCapacity) :
    await id due actions now b = ⟨.free, b, now, [], actions⟩ := by
  unfold await
  simp [hopen, hfree]

theorem tells_at_once {verdict : Verdict} {time : Instant}
    (hawait : ∀ more, more <+: actions → await id due more now b = ⟨verdict, b, time, [], more⟩)
    (hfair : (⟨id, now, time, b, [], verdict⟩ : Visit α).Fair due)
    (hlate : verdict = .stalled → ∀ a ∈ actions.head?, due ≤ max now a.time) :
    Tells ⟨id, now, (await id due actions now b).time, b, [], (await id due actions now b).verdict⟩
      due actions (await id due actions now b) := by
  rw [hawait actions (List.prefix_refl _)]
  exact ⟨rfl, rfl, rfl, rfl, hfair, hlate, hawait⟩

theorem fair_at_once {verdict : Verdict} {time : Instant} (hge : now ≤ time) (hle : time ≤ due)
    (hfree : verdict = .free → b.isOpen id = true ∧
      (b.queue id).length < b.config.mailboxCapacity ∧ time = now)
    (hclosed : verdict = .closed → b.isOpen id = false ∧ time = now)
    (hstalled : verdict = .stalled → b.Full id ∧ time = due) :
    (⟨id, now, time, b, [], verdict⟩ : Visit α).Fair due where
  full := by
    intro first rest heq hrest
    exact absurd (List.append_eq_nil_iff.mp heq.symm).2 hrest
  departure_le := hle
  lastAct_le := hge
  of_free := hfree
  of_closed := hclosed
  of_stalled := hstalled

/-- An action before the end of a wait lengthens the visit. -/
theorem Tells.act {a : Delivery.Timed} {during : List Delivery.Timed} {w : Waited α}
    (hfull : b.Full id) (hearly : ¬ due ≤ now) (hact : ¬ due < max now a.time)
    (hw : await id due actions (max now a.time) (b.perform a).2 = w)
    (h : Tells ⟨id, max now a.time, w.time, (b.perform a).2, during, w.verdict⟩ due actions w) :
    Tells ⟨id, now, w.time, b, a :: during, w.verdict⟩ due (a :: actions)
      (await id due (a :: actions) now b) := by
  have hroom : ¬ (b.queue id).length < b.config.mailboxCapacity := Nat.not_lt.mpr hfull.2
  have hstep : await id due (a :: actions) now b = _ := await_of_act hfull.1 hroom hearly hact
  rw [hw] at hstep
  rw [hstep]
  refine ⟨congrArg (a :: ·) h.actions_eq, h.board_eq, rfl, rfl, ?_, h.late, ?_⟩
  · refine ⟨?_, h.fair.departure_le, h.fair.lastAct_le, h.fair.of_free, h.fair.of_closed,
      h.fair.of_stalled⟩
    intro first rest heq hrest
    cases first with
    | nil => exact hfull
    | cons a' first =>
        obtain ⟨ha, htail⟩ := List.cons.inj heq
        subst ha
        exact h.fair.full first rest htail hrest
  · intro more hmore
    have hmore' := h.early more hmore
    change await id due (a :: (during ++ more)) now b = _
    rw [await_of_act hfull.1 hroom hearly hact]
    dsimp only at hmore' ⊢
    rw [hmore']

/-- Whether the first of the actions falls within the wait for a full mailbox. -/
def Acts (b : Board α) (id : MailboxId) (due now : Instant) (actions : List Delivery.Timed) : Prop :=
  b.Full id ∧ ¬ due ≤ now ∧ ∃ a rest, actions = a :: rest ∧ ¬ due < max now a.time

theorem tells_of_not_acts (hnow : now ≤ due) (hidle : ¬ Acts b id due now actions) :
    Tells ⟨id, now, (await id due actions now b).time, b, [], (await id due actions now b).verdict⟩
      due actions (await id due actions now b) := by
  cases hopen : b.isOpen id with
  | false =>
      exact tells_at_once (fun _ _ => await_of_closed hopen)
        (fair_at_once (Nat.le_refl now) hnow nofun (fun _ => ⟨hopen, rfl⟩) nofun) nofun
  | true =>
      by_cases hfree : (b.queue id).length < b.config.mailboxCapacity
      · exact tells_at_once (fun _ _ => await_of_free hopen hfree)
          (fair_at_once (Nat.le_refl now) hnow (fun _ => ⟨hopen, hfree, rfl⟩) nofun nofun) nofun
      · have hfull : b.Full id := ⟨hopen, Nat.not_lt.mp hfree⟩
        by_cases hlate : due ≤ now
        · have heq : now = due := Nat.le_antisymm hnow hlate
          exact tells_at_once (fun _ _ => await_of_late hopen hfree hlate)
            (fair_at_once (Nat.le_refl now) hnow nofun nofun fun _ => ⟨hfull, heq⟩)
            fun _ _ _ => Nat.le_trans hlate (Nat.le_max_left ..)
        · have hnone : ∀ a rest, actions = a :: rest → due < max now a.time := by
            intro a rest heq
            by_contra hact
            exact hidle ⟨hfull, hlate, a, rest, heq, hact⟩
          refine tells_at_once (fun more hmore => await_of_until hopen hfree hlate ?_)
            (fair_at_once hnow (Nat.le_refl due) nofun nofun fun _ => ⟨hfull, rfl⟩) ?_
          · rintro a rest rfl
            obtain ⟨tail, htail⟩ := hmore
            exact hnone a (rest ++ tail) htail.symm
          · intro _ a ha
            obtain ⟨rest, heq⟩ := List.head?_eq_some_iff.mp ha
            exact Nat.le_of_lt (hnone a rest heq)

theorem exists_tells (id : MailboxId) (actions : List Delivery.Timed) (b : Board α)
    (hnow : now ≤ due) : ∃ during, Tells
      ⟨id, now, (await id due actions now b).time, b, during, (await id due actions now b).verdict⟩
      due actions (await id due actions now b) := by
  induction actions generalizing now b with
  | nil =>
      refine ⟨[], tells_of_not_acts hnow ?_⟩
      rintro ⟨-, -, a, rest, hcons, -⟩
      cases hcons
  | cons a rest ih =>
      by_cases hacts : Acts b id due now (a :: rest)
      · obtain ⟨hfull, hearly, a', rest', hcons, hact⟩ := hacts
        cases hcons
        obtain ⟨during, htells⟩ := ih (b.perform a).2 (Nat.not_lt.mp hact)
        have hstep : await id due (a :: rest) now b = _ :=
          await_of_act hfull.1 (Nat.not_lt.mpr hfull.2) hearly hact
        have h := htells.act hfull hearly hact rfl
        refine ⟨a :: during, ?_⟩
        rw [hstep] at h ⊢
        exact h
      · exact ⟨[], tells_of_not_acts hnow hacts⟩

end Waits

end Board

/-! ## A delivery is a tour -/

/-- Every mailbox was visited, in order, and none of the visits stalled. -/
def Served (visits : List (Visit α)) (todo : List MailboxId) : Prop :=
  visits.map (·.mailbox) = todo ∧ ∀ v ∈ visits, v.verdict ≠ .stalled

/-- The mailboxes were visited in order until a visit stalled, the first to do so. The consumers do
the next of what they have `left` not before that visit was due to end. -/
def Stopped (visits : List (Visit α)) (todo : List MailboxId) (left : List Delivery.Timed) : Prop :=
  visits.map (·.mailbox) <+: todo ∧ ∃ earlier last, visits = earlier ++ [last] ∧
    (∀ v ∈ earlier, v.verdict ≠ .stalled) ∧ last.verdict = .stalled ∧
    ∀ a ∈ left.head?, last.departure ≤ max last.lastAct a.time

theorem Served.not_stopped {visits : List (Visit α)} {todo : List MailboxId}
    {left : List Delivery.Timed} (h : Served visits todo) : ¬ Stopped visits todo left := by
  rintro ⟨-, earlier, last, rfl, -, hlast, -⟩
  exact h.2 last (List.mem_append_right _ List.mem_cons_self) hlast

/-- The visits of a delivery that stops at the first mailbox that stays full: what the consumers did
until its end, what they have `left`, and the board at its end. -/
structure Tour (mail : Mail α) (todo : List MailboxId) (now : Instant) (start : Board α)
    (visits : List (Visit α)) (done left : List Delivery.Timed) (stop : Board α) (time : Instant)
    (complete : Bool) : Prop where
  successive : Successive mail start now done visits stop time
  fair : ∀ v ∈ visits, v.Fair (v.arrival + start.config.publishTimeout.millis)
  served : complete = true → Served visits todo
  stopped : complete = false → Stopped visits todo left

namespace Tour

variable {mail : Mail α} {todo : List MailboxId} {now time : Instant} {start stop : Board α}
  {visits : List (Visit α)} {done left : List Delivery.Timed} {complete : Bool}

theorem nil (mail : Mail α) (now : Instant) (b : Board α) (left : List Delivery.Timed) :
    Tour mail [] now b [] [] left b now true :=
  ⟨.nil b now, by simp, fun _ => ⟨rfl, by simp⟩, nofun⟩

theorem stop_at (v : Visit α) (todo : List MailboxId)
    (hfair : v.Fair (v.arrival + v.before.config.publishTimeout.millis))
    (hstalled : v.verdict = .stalled)
    (hlate : ∀ a ∈ left.head?, v.departure ≤ max v.lastAct a.time) :
    Tour mail (v.mailbox :: todo) v.arrival v.before [v] v.during left (v.after mail) v.departure
      false where
  successive := by simpa using Successive.cons v (.nil (v.after mail) v.departure)
  fair := by simpa using hfair
  served := nofun
  stopped := fun _ => ⟨⟨todo, rfl⟩, [], v, rfl, by simp, hstalled, hlate⟩

theorem cons {v : Visit α}
    (hfair : v.Fair (v.arrival + v.before.config.publishTimeout.millis))
    (hgoes : v.verdict ≠ .stalled) (hconfig : (v.after mail).config = v.before.config)
    (h : Tour mail todo v.departure (v.after mail) visits done left stop time complete) :
    Tour mail (v.mailbox :: todo) v.arrival v.before (v :: visits) (v.during ++ done) left stop
      time complete where
  successive := .cons v h.successive
  fair := by
    intro u hu
    rcases List.mem_cons.mp hu with rfl | hu
    · exact hfair
    · exact hconfig ▸ h.fair u hu
  served := by
    intro hcomplete
    obtain ⟨hmap, hall⟩ := h.served hcomplete
    exact ⟨congrArg (v.mailbox :: ·) hmap, List.forall_mem_cons.mpr ⟨hgoes, hall⟩⟩
  stopped := by
    intro hcomplete
    obtain ⟨⟨rest, hrest⟩, earlier, last, rfl, hall, hlast⟩ := h.stopped hcomplete
    exact ⟨⟨rest, congrArg (v.mailbox :: ·) hrest⟩, v :: earlier, last, rfl,
      List.forall_mem_cons.mpr ⟨hgoes, hall⟩, hlast⟩

end Tour

namespace Visit

theorem config_after (v : Visit α) (mail : Mail α) : (v.after mail).config = v.before.config := by
  have hwaited : v.waited.config = v.before.config := Board.config_acts v.before v.during
  unfold after
  split <;> exact hwaited

end Visit

namespace Board

/-- What is left of a delivery once its visits are over: the consumers act undisturbed. -/
def outcome (visits : List (Visit α)) (complete : Bool) (left : List Delivery.Timed) (time : Instant)
    (b : Board α) : Delivered α :=
  { playOut complete left time b with reached := visits.countP (·.verdict = .free) }

theorem deliver_cons {mail : Mail α} {onward : Bool} {rest : List MailboxId} {v : Visit α}
    {w : Waited α} {actions more : List Delivery.Timed}
    (h : Tells v (v.arrival + v.before.config.publishTimeout.millis) actions w)
    (hgoes : v.verdict = .stalled → onward = true) (hmore : more <+: w.actions) :
    deliver mail onward (v.mailbox :: rest) (v.during ++ more) v.arrival v.before =
      let d := deliver mail onward rest more v.departure (v.after mail)
      Delivered.after { d with reached := d.reached + if v.verdict = .free then 1 else 0 } w.taken := by
  have hawait := h.early more hmore
  cases hv : v.verdict with
  | free =>
      rw [deliver_of_free hawait (h.verdict_eq.trans hv)]
      simp only [Visit.after, hv, h.board_eq, h.time_eq, if_true]
  | closed =>
      rw [deliver_of_closed hawait (h.verdict_eq.trans hv)]
      simp [Visit.after, hv, h.board_eq, h.time_eq]
  | stalled =>
      rw [deliver_of_passed hawait (h.verdict_eq.trans hv) (hgoes hv)]
      simp [Visit.after, hv, h.board_eq, h.time_eq]

/-- A delivery that stops at the first mailbox that stays full is a tour of visits, and after its
end the consumers act undisturbed. What they did not do before its end might as well have been left
out. -/
theorem exists_tour (mail : Mail α) (todo : List MailboxId) (actions : List Delivery.Timed)
    (now : Instant) (b : Board α) : ∃ visits done left stop time complete,
      actions = done ++ left ∧ Tour mail todo now b visits done left stop time complete ∧
      ∀ more, more <+: left → ∃ taken, deliver mail false todo (done ++ more) now b =
        (outcome visits complete more time stop).after taken := by
  induction todo generalizing actions now b with
  | nil =>
      refine ⟨[], [], actions, b, now, true, rfl, .nil mail now b actions, fun more _ => ⟨[], ?_⟩⟩
      change playOut true more now b = outcome [] true more now b
      rw [outcome, List.countP_nil, ← (playOut_eq true more now b).2.2]
  | cons id rest ih =>
      have hle : now ≤ now + b.config.publishTimeout.millis := Nat.le_add_right ..
      obtain ⟨during, htells⟩ := exists_tells id actions b hle
      generalize await id (now + b.config.publishTimeout.millis) actions now b = w at htells
      let v : Visit α := ⟨id, now, w.time, b, during, w.verdict⟩
      have hv : Tells v (v.arrival + v.before.config.publishTimeout.millis) actions w := htells
      by_cases hstalled : v.verdict = .stalled
      · have hdeparture : v.departure = v.arrival + v.before.config.publishTimeout.millis :=
          (hv.fair.of_stalled hstalled).2
        have hafter : v.after mail = w.board := by simp only [Visit.after, hstalled, hv.board_eq]
        refine ⟨[v], during, w.actions, v.after mail, v.departure, false, hv.actions_eq,
          .stop_at v rest hv.fair hstalled fun a ha => hdeparture ▸ hv.late hstalled a ha,
          fun more hmore => ⟨w.taken, ?_⟩⟩
        have hcount : [v].countP (·.verdict = .free) = (playOut false more w.time w.board).reached := by
          rw [(playOut_eq false more w.time w.board).2.2]
          simp [hstalled]
        rw [outcome, hcount, hafter]
        exact deliver_of_stopped (hv.early more hmore) hstalled rfl
      · obtain ⟨visits, done, left, stop, time, complete, hactions, htour, hdeliver⟩ :=
          ih w.actions v.departure (v.after mail)
        refine ⟨v :: visits, during ++ done, left, stop, time, complete, ?_,
          htour.cons hv.fair hstalled (v.config_after mail), fun more hmore => ?_⟩
        · rw [List.append_assoc, ← hactions]
          exact hv.actions_eq
        · obtain ⟨taken, hrest⟩ := hdeliver more hmore
          have hprefix : done ++ more <+: w.actions := by
            rw [hactions]
            exact (List.prefix_append_right_inj done).mpr hmore
          refine ⟨w.taken ++ taken, ?_⟩
          have hcons : deliver mail false (v.mailbox :: rest) _ _ _ = _ :=
            deliver_cons hv (fun h => absurd h hstalled) hprefix
          rw [hrest] at hcons
          rw [List.append_assoc]
          refine hcons.trans ?_
          simp [outcome, Delivered.after, List.countP_cons]

end Board

/-! ## What a tour leaves alone -/

namespace Successive

variable {mail : Mail α} {now time : Instant} {start stop : Board α} {visits : List (Visit α)}
  {done : List Delivery.Timed}

theorem time_le {span : Nat} (h : Successive mail start now done visits stop time)
    (hfair : ∀ v ∈ visits, v.Fair (v.arrival + span)) : time ≤ now + visits.length * span := by
  induction h with
  | nil b now => simp
  | cons v rest ih =>
      obtain ⟨hv, hrest⟩ := List.forall_mem_cons.mp hfair
      calc _ ≤ v.departure + _ := ih hrest
        _ ≤ v.arrival + span + _ := Nat.add_le_add_right hv.departure_le _
        _ = _ := by rw [List.length_cons, Nat.succ_mul, Nat.add_assoc, Nat.add_comm span]

theorem within_after {v : Visit α} {due : Instant} (hb : v.before.Within) (hv : v.Fair due) :
    (v.after mail).Within := by
  have hwaited : v.waited.Within := hb.acts v.during
  cases hverdict : v.verdict with
  | free =>
      have hroom := (hv.of_free hverdict).2.1
      intro id
      simp only [Visit.after, hverdict, Board.setQueue]
      split
      · rw [List.length_append, List.length_singleton]
        exact hroom
      · exact hwaited id
  | closed => simpa only [Visit.after, hverdict] using hwaited
  | stalled => simpa only [Visit.after, hverdict] using hwaited

theorem within {due : Visit α → Instant} (h : Successive mail start now done visits stop time)
    (hfair : ∀ v ∈ visits, v.Fair (due v)) (hb : start.Within) :
    (∀ v ∈ visits, (∀ first, first <+: v.during → (v.before.acts first).Within) ∧
      (v.after mail).Within) ∧ stop.Within := by
  induction h with
  | nil b now => exact ⟨by simp, hb⟩
  | cons v rest ih =>
      obtain ⟨hv, hrest⟩ := List.forall_mem_cons.mp hfair
      have hafter : (v.after mail).Within := within_after hb hv
      obtain ⟨hall, hstop⟩ := ih hrest hafter
      exact ⟨List.forall_mem_cons.mpr ⟨⟨fun first _ => hb.acts first, hafter⟩, hall⟩, hstop⟩

/-- Whether a mailbox gets no copy. -/
def Spared (visits : List (Visit α)) (id : MailboxId) : Prop :=
  ∀ v ∈ visits, v.mailbox = id → v.verdict ≠ .free

theorem alike_after (v : Visit α) (mail : Mail α) : (v.after mail).Alike (Spared [v]) v.waited := by
  cases hverdict : v.verdict with
  | free =>
      simp only [Visit.after, hverdict]
      refine ⟨rfl, fun id hid => if_neg fun heq => ?_⟩
      exact hid v List.mem_cons_self heq.symm hverdict
  | closed => simp only [Visit.after, hverdict]; exact ⟨rfl, fun _ _ => rfl⟩
  | stalled => simp only [Visit.after, hverdict]; exact ⟨rfl, fun _ _ => rfl⟩

/-- Nothing happens but what the consumers do, except at mailboxes that get a copy. -/
theorem alike (h : Successive mail start now done visits stop time) :
    stop.Alike (Spared visits) (start.acts done) := by
  induction h with
  | nil b now => exact ⟨rfl, fun _ _ => rfl⟩
  | @cons actions visits b time v rest ih =>
      obtain ⟨hlists, hqueues⟩ := (alike_after v mail).acts actions
      rw [Board.acts_append]
      refine ⟨ih.1.trans hlists, fun id hid => ?_⟩
      have hrest : Spared visits id := fun u hu => hid u (List.mem_cons_of_mem _ hu)
      have hvisit : Spared [v] id := fun u hu => by
        rw [List.mem_singleton.mp hu]
        exact hid v List.mem_cons_self
      exact (ih.2 id hrest).trans (hqueues id hvisit)

end Successive

namespace Board

variable {b : Board α}

/-! ## Every board is within its bounds -/

theorem within_new (config : RouterConfig) : (new config : Board α).Within := fun _ => Nat.zero_le _

theorem within_deliver (hb : b.Within) (mail : Mail α) (onward : Bool) (todo : List MailboxId)
    (actions : List Delivery.Timed) (now : Instant) :
    (deliver mail onward todo actions now b).board.Within := by
  induction todo generalizing actions now b with
  | nil =>
      change (playOut true actions now b).board.Within
      rw [(playOut_eq true actions now b).1]
      exact hb.acts actions
  | cons id rest ih =>
      obtain ⟨during, htells⟩ := exists_tells id actions b
        (Nat.le_add_right now b.config.publishTimeout.millis)
      have hafter : (Visit.after _ mail).Within := Successive.within_after hb htells.fair
      have hwaited : (await id (now + b.config.publishTimeout.millis) actions now b).board.Within := by
        rw [htells.board_eq]
        exact hb.acts during
      generalize hw : await id (now + b.config.publishTimeout.millis) actions now b = w at *
      cases hv : w.verdict with
      | free =>
          rw [deliver_of_free hw hv]
          refine ih ?_ w.actions w.time
          rw [htells.board_eq]
          simpa only [Visit.after, hv] using hafter
      | closed =>
          rw [deliver_of_closed hw hv]
          exact ih hwaited w.actions w.time
      | stalled =>
          cases honward : onward with
          | true =>
              rw [deliver_of_passed hw hv rfl]
              exact honward ▸ ih hwaited w.actions w.time
          | false =>
              rw [deliver_of_stopped hw hv rfl]
              change (playOut false w.actions w.time w.board).board.Within
              rw [(playOut_eq false w.actions w.time w.board).1]
              exact hwaited.acts w.actions

theorem Within.answer (hb : b.Within) (call : Call α) : (b.answer call).2.Within := by
  cases call with
  | subscribe topic => exact hb
  | subscribeTo topic id =>
      simp only [Board.answer, Board.subscribeTo]
      cases b.isOpen id <;> exact hb
  | unsubscribe topic id =>
      simp only [Board.answer, Board.unsubscribe]
      split <;> exact hb
  | collapse topic => exact hb
  | publish ticket topic mail during now => exact within_deliver hb mail false _ during now
  | broadcast ticket mail during now => exact within_deliver hb mail true _ during now
  | topicCount => exact hb
  | sizeOf topic => exact hb
  | receive id => exact hb.perform ⟨0, some id, .take⟩
  | close id => exact hb.perform ⟨0, some id, .close⟩
  | drop id => exact hb.perform ⟨0, some id, .drop⟩

theorem Within.answers (hb : b.Within) (calls : List (Call α)) : (b.answers calls).2.Within := by
  induction calls generalizing b with
  | nil => exact hb
  | cons call rest ih => exact ih (hb.answer call)

end Board

/-! ## The main statement -/

namespace Router

/-- What a publication did to a router: its visits, what the consumers did until its end and what
they have left, and the board and the instant of its end. -/
structure Publication (r : Router α) (ticket : Nat) (topic : Topic) (mail : Mail α)
    (during : List Delivery.Timed) (now : Instant) (visits : List (Visit α))
    (done left : List Delivery.Timed) (stop : Board α) (time : Instant) : Prop where
  during_eq : during = done ++ left
  /-- A mailbox is open on the board exactly if the router does not refuse mail for it. -/
  isOpen_iff : ∀ id, r.board.isOpen id = true ↔ r.refuses id = false
  successive : Successive mail r.board now done visits stop time
  fair : ∀ v ∈ visits, v.Fair (v.arrival + r.config.publishTimeout.millis)
  ended : ((r.publish ticket topic mail).run now r during).delivery.isDone = true
  succeeded_iff : ((r.publish ticket topic mail).run now r during).delivery.succeeded = true ↔
    Served visits (r.subscribers topic)
  failed_iff : ((r.publish ticket topic mail).run now r during).delivery.succeeded = false ↔
    Stopped visits (r.subscribers topic) left
  delivered_eq : ((r.publish ticket topic mail).run now r during).delivery.delivered =
    visits.countP (·.verdict = .free)
  /-- At the end nothing is left to be done but what the consumers do. -/
  board_eq : ((r.publish ticket topic mail).run now r during).router.board = stop.acts left
  time_eq : ((r.publish ticket topic mail).run now r done).time = time
  time_le : time ≤ now + (r.subscribers topic).length * r.config.publishTimeout.millis
  within : ∀ v ∈ visits, (∀ first, first <+: v.during → (v.before.acts first).Within) ∧
    (v.after mail).Within
  within_left : ∀ first, first <+: left → (stop.acts first).Within
  /-- The subscriptions, and the queues of mailboxes that got no copy, are what the consumers alone
  would have made of them. -/
  alike : ((r.publish ticket topic mail).run now r during).router.board.Alike
    (Successive.Spared visits) (r.board.acts during)

theorem length_le_of_tour {mail : Mail α} {todo : List MailboxId} {now time : Instant}
    {start stop : Board α} {visits : List (Visit α)} {done left : List Delivery.Timed}
    {complete : Bool} (h : Tour mail todo now start visits done left stop time complete) :
    visits.length ≤ todo.length := by
  have hprefix : visits.map (·.mailbox) <+: todo := by
    cases complete with
    | true => exact (h.served rfl).1 ▸ List.prefix_refl _
    | false => exact (h.stopped rfl).1
  simpa using hprefix.length_le

theorem Upkept.publication {r : Router α} (hr : r.Upkept fun _ => []) (hb : r.board.Within)
    (ticket : Nat) (topic : Topic) (mail : Mail α) (during : List Delivery.Timed) (now : Instant) :
    ∃ visits done left stop time,
      r.Publication ticket topic mail during now visits done left stop time := by
  obtain ⟨visits, done, left, stop, time, complete, hduring, htour, hdeliver⟩ :=
    Board.exists_tour mail (r.subscribers topic) during now r.board
  obtain ⟨taken, hall⟩ := hdeliver left (List.prefix_refl left)
  obtain ⟨taken', hdone⟩ := hdeliver [] List.nil_prefix
  rw [← hduring] at hall
  rw [List.append_nil] at hdone
  have hends := run_ends hr (d := r.publish ticket topic mail) rfl during now
  have hearly := run_ends hr (d := r.publish ticket topic mail) rfl done now
  change (r.publish ticket topic mail).Ends 0 _
    (Board.deliver mail false (r.subscribers topic) during now r.board) at hends
  change (r.publish ticket topic mail).Ends 0 _
    (Board.deliver mail false (r.subscribers topic) done now r.board) at hearly
  rw [hall] at hends
  rw [hdone] at hearly
  obtain ⟨hboard, hcomplete, -⟩ := Board.playOut_eq complete left time stop
  have hended : ((r.publish ticket topic mail).run now r during).delivery.isDone = true := by
    rw [Delivery.isDone, hends.todo_eq]
    rfl
  have hsucceeded : ((r.publish ticket topic mail).run now r during).delivery.succeeded = complete := by
    rw [Delivery.succeeded, hended, hends.gaveUp_eq]
    change (true && !(false || !(Board.playOut complete left time stop).complete)) = complete
    rw [hcomplete]
    simp
  have hstop : ((r.publish ticket topic mail).run now r during).router.board = stop.acts left :=
    hends.board_eq.trans hboard
  obtain ⟨hvisits, hwithin⟩ := htour.successive.within htour.fair hb
  refine ⟨visits, done, left, stop, time, hduring, ?_, htour.successive, htour.fair, hended, ?_,
    ?_, ?_, hstop, hearly.time_eq, ?_, hvisits, fun first _ => hwithin.acts first, ?_⟩
  · intro id
    rw [hr.isOpen_board]
    cases r.refuses id <;> simp
  · rw [hsucceeded]
    cases complete with
    | true => exact iff_of_true rfl (htour.served rfl)
    | false => exact iff_of_false Bool.false_ne_true fun hserved => hserved.not_stopped (htour.stopped rfl)
  · rw [hsucceeded]
    cases complete with
    | true => exact iff_of_false Bool.false_ne_true.symm (htour.served rfl).not_stopped
    | false => exact iff_of_true rfl (htour.stopped rfl)
  · rw [hends.delivered_eq]
    exact Nat.zero_add _
  · exact Nat.le_trans (htour.successive.time_le htour.fair)
      (Nat.add_le_add_left (Nat.mul_le_mul_right _ (length_le_of_tour htour)) now)
  · rw [hstop, hduring, Board.acts_append]
    exact htour.successive.alike.acts left

/-- However a router was used before, and whatever the consumers do meanwhile, a publication is such
a tour of visits. -/
theorem exists_publication (config : RouterConfig) {calls : List (Call α)}
    (howned : (new config : Router α).owned calls = true) (ticket : Nat) (topic : Topic)
    (mail : Mail α) (during : List Delivery.Timed) (now : Instant) :
    ∃ visits done left stop time, ((new config).answers calls).2.Publication ticket topic mail
      during now visits done left stop time := by
  obtain ⟨-, hboard, hkept⟩ := (upkept_new config).answers howned
  refine hkept.publication ?_ ticket topic mail during now
  rw [hboard]
  exact (Board.within_new config).answers calls

/-- Of five subscriptions the first is served at once, the second when its consumer takes a mail,
the third is closed while it is waited for, the fourth is the second mailbox again and stays full,
and the fifth is not attempted. -/
theorem exists_publication_of_stalled :
    let config : RouterConfig := ⟨.ofMillis 100, 1⟩
    let mail : Mail Nat := ⟨1, 7, none⟩
    let filler : Mail Nat := ⟨2, 8, none⟩
    let calls : List (Call Nat) := [.subscribe .login, .subscribe .login, .publish 0 .login filler [] 0,
      .subscribe .chat, .subscribeTo .chat 1, .subscribeTo .chat 2, .subscribeTo .chat 1,
      .subscribe .chat]
    let during : List Delivery.Timed := [⟨30, some 1, .take⟩, ⟨60, some 2, .close⟩,
      ⟨500, some 1, .take⟩]
    let r := ((new config : Router Nat).answers calls).2
    (new config : Router Nat).owned calls = true ∧ r.subscribers .chat = [3, 1, 2, 1, 4] ∧
      ((r.publish 1 .chat mail).run 10 r during).delivery.succeeded = false ∧
      ((r.publish 1 .chat mail).run 10 r during).delivery.delivered = 2 ∧
      ∃ visits done left stop time,
        r.Publication 1 .chat mail during 10 visits done left stop time := by
  intro config mail filler calls during r
  have howned : (new config : Router Nat).owned calls = true := by decide +kernel
  exact ⟨howned, by decide +kernel, by decide +kernel, by decide +kernel,
    exists_publication config howned 1 .chat mail during 10⟩

end Router

end Realm
