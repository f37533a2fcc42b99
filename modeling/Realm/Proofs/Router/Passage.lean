import Realm.Proofs.Router.Answers

/-!
# Deliveries on the board

A delivery attempts all it can at each instant, stands in the line of the mailbox it waits for, and
is given as many rounds as it can need. The board knows neither lines nor rounds: it waits for one
mailbox after the other. Both come to the same end.
-/

namespace Realm

variable {α : Type}

/-- Only the mailbox that a delivery waits for has a line. -/
def lineAt (id : MailboxId) (line : List Nat) : MailboxId → List Nat :=
  fun other => if other = id then line else []

theorem lineAt_self (id : MailboxId) (line : List Nat) : lineAt id line id = line := if_pos rfl

theorem lineAt_of_ne {id other : MailboxId} (line : List Nat) (h : other ≠ id) :
    lineAt id line other = [] := if_neg h

theorem lineAt_nil (id : MailboxId) : lineAt id [] = fun _ => [] := by
  funext other
  unfold lineAt
  split <;> rfl

namespace Router

variable {r : Router α} {id : MailboxId} {ticket : Nat} {line : List Nat}

/-! ## Standing in line -/

/-- A rewrite of nothing but the line of a mailbox, and of the mark of a closed one. -/
theorem Upkept.relined {f : Mailbox α → Mailbox α} (hr : r.Upkept (lineAt id line))
    (line' : List Nat) (hf : ∀ m : Mailbox α, m.id = id → (f m).id = id)
    (hqueue : ∀ m, r.box? id = some m → (f m).queue = m.queue)
    (hconsumer : ∀ m, r.box? id = some m → (f m).consumer = m.consumer)
    (hclosed : ∀ m, r.box? id = some m → (f m).closed = m.closed ∨
      m.refuses = true ∧ (f m).closed = true)
    (hwaiting : ∀ m, r.box? id = some m → (f m).waiting = line') :
    (r.modifyBox id f).board = r.board ∧ (r.modifyBox id f).Upkept (lineAt id line') := by
  have hrefuses : ∀ m, r.box? id = some m → (f m).refuses = m.refuses := by
    intro m hbox
    rcases hclosed m hbox with heq | ⟨hm, heq⟩
    · rw [Mailbox.refuses, Mailbox.refuses, heq, hconsumer m hbox]
    · rw [hm, Mailbox.refuses, heq, Bool.true_or]
  refine ⟨board_modifyBox hf (fun m hbox => by rw [hqueue m hbox]) hrefuses, ?_, ?_⟩
  · refine hr.toTended.modifyBox hf (fun m hbox => ?_) fun other hne => ?_
    · have hm := hr.box id m hbox
      refine ⟨by rw [hqueue m hbox]; exact hm.capacity_eq, ?_, ?_, ?_⟩
      · intro hshut
        rw [hconsumer m hbox] at hshut
        rcases hclosed m hbox with heq | ⟨-, heq⟩
        · rw [heq]
          exact hm.closed_of_shut hshut
        · exact heq
      · intro hlistening hmarked
        rw [hconsumer m hbox] at hlistening
        refine hm.not_held hlistening ?_
        rcases hclosed m hbox with heq | ⟨hold, -⟩
        · rw [← heq]
          exact hmarked
        · simpa [Mailbox.refuses, hlistening] using hold
      · rw [lineAt_self]
        exact hwaiting m hbox
    · rw [lineAt_of_ne _ hne, lineAt_of_ne _ hne]
  · intro other hother
    refine hr.attached other ?_
    rw [refuses_modifyBox hf] at hother
    split at hother
    · next heq =>
        subst heq
        cases hbox : r.box? other with
        | none => simp [hbox] at hother ⊢
        | some m =>
            rw [hbox, Option.all_some, hrefuses m hbox] at hother
            rw [refuses_of_box? hbox, hother]
    · exact hother

/-- Nobody but the delivery stands in line. -/
theorem erase_ticket (hline : line = [] ∨ line = [ticket]) : line.erase ticket = [] := by
  rcases hline with rfl | rfl <;> simp

theorem Upkept.withdraw (hr : r.Upkept (lineAt id line)) (hline : line = [] ∨ line = [ticket]) :
    (r.withdraw id ticket).board = r.board ∧ (r.withdraw id ticket).Upkept fun _ => [] := by
  have hrelined := hr.relined (f := (·.leave ticket)) [] (fun _ h => h) (fun _ _ => rfl)
    (fun _ _ => rfl) (fun _ _ => .inl rfl) fun m hbox => by
      have hm := (hr.box id m hbox).waiting_eq
      rw [lineAt_self] at hm
      rw [Mailbox.leave, hm]
      exact erase_ticket hline
  rwa [lineAt_nil] at hrelined

theorem Upkept.mark (hr : r.Upkept (lineAt id line)) (h : r.refuses id = true) :
    (r.modifyBox id Mailbox.mark).board = r.board ∧
      (r.modifyBox id Mailbox.mark).Upkept (lineAt id line) := by
  refine hr.relined line (fun _ h => h) (fun _ _ => rfl) (fun _ _ => rfl) (fun m hbox => .inr ⟨?_, rfl⟩)
    fun m hbox => ?_
  · rwa [refuses_of_box? hbox] at h
  · have hm := (hr.box id m hbox).waiting_eq
    rwa [lineAt_self] at hm

/-! ## Offering mail -/

theorem rank_eq_zero {m : Mailbox α} (hm : m.waiting = [] ∨ m.waiting = [ticket]) :
    m.rank ticket = 0 := by
  rcases hm with hm | hm <;> simp [Mailbox.rank, hm]

theorem Upkept.offer_of_room (hr : r.Upkept (lineAt id line)) (mail : Mail α)
    (hline : line = [] ∨ line = [ticket]) (hopen : r.refuses id = false)
    (hroom : (r.queued id).length < r.config.mailboxCapacity) :
    (r.offer id ticket mail).1 = true ∧
      (r.offer id ticket mail).2.board = r.board.setQueue id (r.queued id ++ [mail]) ∧
      (r.offer id ticket mail).2.Upkept fun _ => [] := by
  obtain ⟨m, hbox⟩ := box?_of_not_refuses hopen
  have hm := hr.box id m hbox
  have hwaiting : m.waiting = line := by rw [hm.waiting_eq, lineAt_self]
  have hplace : m.rank ticket < m.queue.room := by
    rw [rank_eq_zero (hwaiting ▸ hline), Bounded.room, hm.capacity_eq]
    rw [queued_of_box? hbox] at hroom
    omega
  have hid := id_of_box? hbox
  have hf : ∀ other : Mailbox α, other.id = id →
      ((fun _ => { m.leave ticket with queue := m.queue.push mail }) other).id = id := fun _ _ => hid
  simp only [Router.offer, hbox, Mailbox.offer, if_pos hplace]
  refine ⟨trivial, ?_, ?_⟩
  · rw [queued_of_box? hbox]
    exact board_modifyBox_queue hf hbox rfl rfl
  · refine ⟨hr.toTended.modifyBox hf (fun _ _ => ⟨hm.capacity_eq, hm.closed_of_shut, hm.not_held, ?_⟩)
      fun other hne => (lineAt_of_ne line hne).symm, ?_⟩
    · change m.waiting.erase ticket = []
      rw [hwaiting]
      exact erase_ticket hline
    · intro other hother
      refine hr.attached other ?_
      rw [refuses_modifyBox hf] at hother
      split at hother
      · next heq => rwa [heq]
      · exact hother

theorem Upkept.offer_of_full (hr : r.Upkept (lineAt id line)) (mail : Mail α)
    (hline : line = [] ∨ line = [ticket]) (hopen : r.refuses id = false)
    (hfull : ¬ (r.queued id).length < r.config.mailboxCapacity) :
    (r.offer id ticket mail).1 = false ∧ (r.offer id ticket mail).2.board = r.board ∧
      (r.offer id ticket mail).2.Upkept (lineAt id [ticket]) := by
  obtain ⟨m, hbox⟩ := box?_of_not_refuses hopen
  have hm := hr.box id m hbox
  have hwaiting : m.waiting = line := by rw [hm.waiting_eq, lineAt_self]
  have hplace : ¬ m.rank ticket < m.queue.room := by
    rw [rank_eq_zero (hwaiting ▸ hline), Bounded.room, hm.capacity_eq]
    rw [queued_of_box? hbox] at hfull
    omega
  have hid := id_of_box? hbox
  have hsame : ∀ other, r.box? id = some other → other = m := fun other hother =>
    Option.some.inj (hother.symm.trans hbox)
  simp only [Router.offer, hbox, Mailbox.offer, if_neg hplace]
  split
  · next hmem =>
      refine ⟨rfl, hr.relined [ticket] (fun _ _ => hid) (fun o ho => by rw [hsame o ho])
        (fun o ho => by rw [hsame o ho]) (fun o ho => .inl (by rw [hsame o ho])) fun _ _ => ?_⟩
      rcases hline with rfl | rfl
      · simp [hwaiting] at hmem
      · exact hwaiting
  · next hmem =>
      refine ⟨rfl, hr.relined [ticket] (fun _ _ => hid) (fun o ho => by rw [hsame o ho])
        (fun o ho => by rw [hsame o ho]) (fun o ho => .inl (by rw [hsame o ho])) fun _ _ => ?_⟩
      rcases hline with rfl | rfl
      · simp [hwaiting]
      · simp [hwaiting] at hmem

end Router

namespace Delivery

variable {r r' : Router α} {d d' : Delivery α} {id : MailboxId} {rest todo : List MailboxId}
  {due : Instant} {waitUntil : Option Instant} {n rounds : Nat} {now : Instant} {line : List Nat}
  {actions : List Timed}

/-! ## What is done at an instant -/

def facing (d : Delivery α) (todo : List MailboxId) (waitUntil : Option Instant) (n : Nat) :
    Delivery α :=
  { d with todo, waitUntil, delivered := n }

def ended (d : Delivery α) (n : Nat) (complete : Bool) : Delivery α :=
  { d.facing [] none n with gaveUp := d.gaveUp || !complete }

theorem advance_ended (complete : Bool) :
    advance now r (d.ended n complete) = (r, d.ended n complete) := rfl

theorem ended_true : d.ended n true = d.facing [] none n := by
  simp [ended, facing]

theorem attempt_facing (todo' : List MailboxId) (waitUntil' : Option Instant) (n' : Nat) :
    attempt now (d.facing todo' waitUntil' n') r todo waitUntil n =
      attempt now d r todo waitUntil n := by
  induction todo generalizing r waitUntil n with
  | nil => rfl
  | cons id rest ih =>
      simp only [attempt, ih]
      rfl

theorem advance_facing : advance now r (d.facing todo waitUntil n) =
    attempt now d r todo waitUntil n := attempt_facing todo waitUntil n

/-- How a delivery leaves a mailbox that it no longer waits for. -/
inductive Leaves (d : Delivery α) (id : MailboxId) (rest : List MailboxId) (n : Nat) :
    Board.Verdict → Board α → Board α → Delivery α → Prop
  | closed {b : Board α} : Leaves d id rest n .closed b b (d.facing rest none n)
  | free {b : Board α} :
      Leaves d id rest n .free b (b.setQueue id (b.queue id ++ [d.mail]))
        (d.facing rest none (n + 1))
  | passed {b : Board α} (persistent : d.persistent = true) :
      Leaves d id rest n .stalled b b (d.facing rest none n)
  | stopped {b : Board α} (persistent : d.persistent = false) :
      Leaves d id rest n .stalled b b (d.ended n false)

/-- Before a mailbox the line is empty, or the delivery has waited before. -/
inductive Faces (d : Delivery α) : List Nat → Option Instant → Prop
  | fresh : Faces d [] none
  | waiting (due : Instant) : Faces d [d.ticket] (some due)

theorem Faces.line_eq (hf : d.Faces line waitUntil) : line = [] ∨ line = [d.ticket] := by
  cases hf with
  | fresh => exact .inl rfl
  | waiting => exact .inr rfl

/-- A mailbox that is closed, has room, or was waited for long enough is left at once. -/
theorem advance_leaves (rest : List MailboxId) (n : Nat) (actions : List Timed)
    (hr : r.Upkept (lineAt id line)) (hf : d.Faces line waitUntil)
    (hdue : waitUntil.getD (now + r.config.publishTimeout.millis) = due)
    (h : r.refuses id = true ∨ (r.queued id).length < r.config.mailboxCapacity ∨ due ≤ now) :
    let w := Board.await id due actions now r.board
    w.actions = actions ∧ w.taken = [] ∧ w.time = now ∧ ∃ r' d', r'.Upkept (fun _ => []) ∧
      d.Leaves id rest n w.verdict w.board r'.board d' ∧
      advance now r (d.facing (id :: rest) waitUntil n) = advance now r' d' := by
  have hopen : r.board.isOpen id = !r.refuses id := hr.isOpen_board
  have hqueue : r.board.queue id = r.queued id := rfl
  have hconfig : r.board.config = r.config := rfl
  unfold Board.await
  rw [hopen, hqueue, hconfig, advance_facing, attempt]
  cases hrefuses : r.refuses id with
  | true =>
      refine ⟨rfl, rfl, rfl, ?_⟩
      have hmarked : ∃ r', (if waitUntil.isSome then r.modifyBox id Mailbox.mark else r) = r' ∧
          r'.board = r.board ∧ r'.Upkept (lineAt id line) := by
        split
        · exact ⟨_, rfl, hr.mark hrefuses⟩
        · exact ⟨_, rfl, rfl, hr⟩
      obtain ⟨r', heq, hboard, hkept⟩ := hmarked
      obtain ⟨hleft, hkept⟩ := hkept.withdraw hf.line_eq
      refine ⟨r'.withdraw id d.ticket, d.facing rest none n, hkept, ?_, ?_⟩
      · rw [hleft, hboard]
        exact .closed
      · rw [if_pos rfl, heq, advance_facing]
  | false =>
      by_cases hroom : (r.queued id).length < r.config.mailboxCapacity
      · obtain ⟨htrue, hboard, hkept⟩ := hr.offer_of_room d.mail hf.line_eq hrefuses hroom
        simp only [Bool.not_false, Bool.not_true, Bool.false_eq_true, if_false, hroom, if_true]
        refine ⟨trivial, trivial, trivial, (r.offer id d.ticket d.mail).2,
          d.facing rest none (n + 1), hkept, ?_, ?_⟩
        · rw [hboard]
          exact .free
        · rw [advance_facing, ← Prod.eta (r.offer id d.ticket d.mail), htrue]
      · have hlate : due ≤ now := by simpa [hrefuses, hroom] using h
        obtain ⟨hfalse, hboard, hkept⟩ := hr.offer_of_full d.mail hf.line_eq hrefuses hroom
        obtain ⟨hleft, hkept⟩ := hkept.withdraw (.inr rfl)
        have hconfig' : (r.offer id d.ticket d.mail).2.config = r.config := congrArg Board.config hboard
        simp only [Bool.not_false, Bool.not_true, Bool.false_eq_true, if_false, hroom, hlate,
          if_true]
        refine ⟨trivial, trivial, trivial, ?_⟩
        rw [← Prod.eta (r.offer id d.ticket d.mail), hfalse]
        simp only [hconfig', hdue, hlate, if_true]
        by_cases hpersistent : d.persistent = true
        · refine ⟨_, d.facing rest none n, hkept, ?_, by rw [if_pos hpersistent, advance_facing]⟩
          rw [hleft, hboard]
          exact .passed hpersistent
        · refine ⟨_, d.ended n false, hkept, ?_, ?_⟩
          · rw [hleft, hboard]
            exact .stopped (by simpa using hpersistent)
          · rw [if_neg hpersistent, advance_ended]
            simp [ended, facing]

/-- A full mailbox is waited for. -/
theorem advance_waits (rest : List MailboxId) (n : Nat) (hr : r.Upkept (lineAt id line))
    (hf : d.Faces line waitUntil)
    (hdue : waitUntil.getD (now + r.config.publishTimeout.millis) = due)
    (hopen : r.refuses id = false) (hfull : ¬ (r.queued id).length < r.config.mailboxCapacity)
    (hearly : ¬ due ≤ now) :
    ∃ r', r'.board = r.board ∧ r'.Upkept (lineAt id [d.ticket]) ∧
      advance now r (d.facing (id :: rest) waitUntil n) =
        (r', d.facing (id :: rest) (some due) n) := by
  obtain ⟨hfalse, hboard, hkept⟩ := hr.offer_of_full d.mail hf.line_eq hopen hfull
  have hconfig : (r.offer id d.ticket d.mail).2.config = r.config := congrArg Board.config hboard
  refine ⟨_, hboard, hkept, ?_⟩
  rw [advance_facing, attempt, hopen, ← Prod.eta (r.offer id d.ticket d.mail), hfalse]
  simp only [hconfig, hdue, hearly, if_false, Bool.false_eq_true]
  rfl

/-! ## Rounds -/

theorem runFor_congr (h : advance now r d = advance now r' d') :
    runFor rounds now r d actions = runFor rounds now r' d' actions := by
  cases rounds with
  | zero =>
      unfold runFor
      rw [h]
  | succ rounds =>
      unfold runFor
      rw [h]

def Outcome.after (o : Outcome α) (taken : List (Option (Mail α × Instant))) : Outcome α :=
  { o with taken := taken ++ o.taken }

/-- Time passes until the wait is over. -/
theorem runFor_until (h : advance now r d = (r', d')) (hd : d'.waitUntil = some due)
    (hlate : ∀ a rest, actions = a :: rest → due < max now a.time) :
    runFor (rounds + 1) now r d actions = runFor rounds due r' d' actions := by
  rw [runFor, h]
  cases actions with
  | nil => simp only [hd]
  | cons a rest =>
      have hany : d'.waitUntil.any (· < max now a.time) = true := by
        rw [hd]
        exact decide_eq_true (hlate a rest rfl)
      simp only [hany, if_true]
      rw [hd, Option.getD_some]

/-- A consumer acts before the wait is over. -/
theorem runFor_act {a : Timed} (h : advance now r d = (r', d'))
    (hearly : ∀ due, d'.waitUntil = some due → ¬ due < max now a.time) :
    runFor (rounds + 1) now r d (a :: actions) =
      (runFor rounds (max now a.time) (r'.perform a).2 d' actions).after
        [(r'.perform a).1.map (·, max now a.time)] := by
  have hnot : d'.waitUntil.any (· < max now a.time) = false := by
    cases hd : d'.waitUntil with
    | none => rfl
    | some due => simpa using hearly due hd
  rw [runFor, h]
  simp only [hnot, Bool.false_eq_true, if_false]
  rfl

/-- How the rounds until a delivery leaves its first mailbox compare with the wait of the board. -/
def Awaits (rounds : Nat) (now : Instant) (r : Router α) (d : Delivery α) (id : MailboxId)
    (rest : List MailboxId) (waitUntil : Option Instant) (n : Nat) (actions : List Timed)
    (w : Board.Waited α) : Prop :=
  ∃ left r' d', rest.length + w.actions.length ≤ left ∧ r'.Upkept (fun _ => []) ∧
    d.Leaves id rest n w.verdict w.board r'.board d' ∧
    runFor rounds now r (d.facing (id :: rest) waitUntil n) actions =
      (runFor left w.time r' d' w.actions).after w.taken

theorem awaits_at_once (hr : r.Upkept (lineAt id line)) (hf : d.Faces line waitUntil)
    (hdue : waitUntil.getD (now + r.config.publishTimeout.millis) = due)
    (h : r.refuses id = true ∨ (r.queued id).length < r.config.mailboxCapacity ∨ due ≤ now)
    (hrounds : rest.length + actions.length ≤ rounds) :
    Awaits rounds now r d id rest waitUntil n actions
      (Board.await id due actions now r.board) := by
  obtain ⟨hactions, htaken, htime, r', d', hkept, hleaves, hadvance⟩ :=
    advance_leaves rest n actions hr hf hdue h
  refine ⟨rounds, r', d', by rw [hactions]; exact hrounds, hkept, hleaves, ?_⟩
  rw [hactions, htaken, htime, runFor_congr hadvance]
  rfl

/-- The wait is over before a consumer acts. -/
theorem awaits_until (hr : r.Upkept (lineAt id line)) (hf : d.Faces line waitUntil)
    (hdue : waitUntil.getD (now + r.config.publishTimeout.millis) = due)
    (hopen : r.refuses id = false) (hfull : ¬ (r.queued id).length < r.config.mailboxCapacity)
    (hearly : ¬ due ≤ now) (hlate : ∀ a rest, actions = a :: rest → due < max now a.time)
    (hrounds : rest.length + actions.length ≤ rounds) :
    Awaits (rounds + 1) now r d id rest waitUntil n actions
      (Board.await id due actions now r.board) := by
  have hlisted : r.board.isOpen id = true := by rw [hr.isOpen_board, hopen]; rfl
  obtain ⟨r', hboard, hkept, hwaits⟩ :=
    advance_waits rest n hr hf hdue hopen hfull hearly
  have hnow : Awaits rounds due r' d id rest (some due) n actions
      (Board.await id due actions due r'.board) :=
    awaits_at_once hkept (.waiting due) rfl (.inr (.inr (Nat.le_refl due))) hrounds
  rw [hboard, Board.await_of_late hlisted hfull (Nat.le_refl due)] at hnow
  rw [Board.await_of_until hlisted hfull hearly hlate]
  unfold Awaits
  rw [runFor_until hwaits rfl hlate]
  exact hnow

theorem awaits (hr : r.Upkept (lineAt id line)) (hf : d.Faces line waitUntil)
    (hdue : waitUntil.getD (now + r.config.publishTimeout.millis) = due)
    (hrounds : rest.length + 1 + actions.length ≤ rounds) :
    Awaits rounds now r d id rest waitUntil n actions
      (Board.await id due actions now r.board) := by
  induction actions generalizing rounds now r line waitUntil with
  | nil =>
      by_cases h : r.refuses id = true ∨ (r.queued id).length < r.config.mailboxCapacity ∨ due ≤ now
      · exact awaits_at_once hr hf hdue h (Nat.le_of_succ_le hrounds)
      · obtain ⟨hopen, hfull, hearly⟩ : r.refuses id = false ∧
            ¬ (r.queued id).length < r.config.mailboxCapacity ∧ ¬ due ≤ now := by
          simpa only [not_or, Bool.not_eq_true] using h
        obtain ⟨rounds, rfl⟩ := Nat.exists_eq_succ_of_ne_zero (Nat.ne_zero_of_lt hrounds)
        exact awaits_until hr hf hdue hopen hfull hearly nofun (Nat.le_of_succ_le_succ hrounds)
  | cons a more ih =>
      by_cases h : r.refuses id = true ∨ (r.queued id).length < r.config.mailboxCapacity ∨ due ≤ now
      · exact awaits_at_once hr hf hdue h (by omega)
      · obtain ⟨hopen, hfull, hearly⟩ : r.refuses id = false ∧
            ¬ (r.queued id).length < r.config.mailboxCapacity ∧ ¬ due ≤ now := by
          simpa only [not_or, Bool.not_eq_true] using h
        obtain ⟨rounds, rfl⟩ := Nat.exists_eq_succ_of_ne_zero (Nat.ne_zero_of_lt hrounds)
        by_cases hact : due < max now a.time
        · refine awaits_until hr hf hdue hopen hfull hearly ?_ (by simp at hrounds ⊢; omega)
          rintro _ _ ⟨⟩
          exact hact
        · obtain ⟨r', hboard, hkept, hwaits⟩ :=
            advance_waits rest n hr hf hdue hopen hfull hearly
          obtain ⟨htaken, hacted, hkept⟩ := hkept.perform a
          have hlisted : r.board.isOpen id = true := by rw [hr.isOpen_board, hopen]; rfl
          have hawaits : Awaits rounds (max now a.time) (r'.perform a).2 d id rest (some due) n more
              (Board.await id due more (max now a.time) (r'.perform a).2.board) :=
            ih hkept (.waiting due) rfl (by simp at hrounds ⊢; omega)
          obtain ⟨left, r'', d', hleft, hdone, hleaves, hrun⟩ := hawaits
          rw [hacted, hboard] at hleft hleaves hrun
          rw [Board.await_of_act hlisted hfull hearly hact]
          refine ⟨left, r'', d', hleft, hdone, hleaves, ?_⟩
          rw [runFor_act hwaits (by rintro _ ⟨⟩; exact hact), htaken, hboard, hrun]
          rfl

/-- How a delivery of the router ended compares with how it ended on the board. -/
structure Ends (d : Delivery α) (n : Nat) (o : Outcome α) (w : Board.Delivered α) : Prop where
  board_eq : o.router.board = w.board
  upkept : o.router.Upkept fun _ => []
  taken_eq : o.taken = w.taken
  time_eq : o.time = w.time
  todo_eq : o.delivery.todo = []
  gaveUp_eq : o.delivery.gaveUp = (d.gaveUp || !w.complete)
  delivered_eq : o.delivery.delivered = n + w.reached

theorem Ends.after {o : Outcome α} {w : Board.Delivered α} (he : d.Ends n o w)
    (taken : List (Option (Mail α × Instant))) :
    d.Ends n (o.after taken) (w.after taken) :=
  ⟨he.board_eq, he.upkept, congrArg (taken ++ ·) he.taken_eq, he.time_eq, he.todo_eq, he.gaveUp_eq,
    he.delivered_eq⟩

/-- The rounds that are left once nothing is to be delivered. -/
theorem ends_playOut (d : Delivery α) (n : Nat) (complete : Bool) (hr : r.Upkept fun _ => [])
    (hrounds : actions.length ≤ rounds) :
    d.Ends n (runFor rounds now r (d.ended n complete) actions)
      (Board.playOut complete actions now r.board) := by
  induction actions generalizing rounds now r with
  | nil => cases rounds <;> exact ⟨rfl, hr, rfl, rfl, rfl, rfl, rfl⟩
  | cons a rest ih =>
      obtain ⟨rounds, rfl⟩ := Nat.exists_eq_succ_of_ne_zero (Nat.ne_zero_of_lt hrounds)
      obtain ⟨htaken, hacted, hkept⟩ := hr.perform a
      have hrest : d.Ends n (runFor rounds (max now a.time) (r.perform a).2 (d.ended n complete) rest)
          (Board.playOut complete rest (max now a.time) (r.board.perform a).2) := by
        rw [← hacted]
        exact ih hkept (Nat.le_of_succ_le_succ hrounds)
      have hafter := hrest.after [(r.board.perform a).1.map (·, max now a.time)]
      rw [runFor_act (advance_ended complete) (by rintro _ ⟨⟩), htaken]
      exact hafter

/-- Whatever a delivery meets and the consumers do, it ends as it does on the board. -/
theorem ends_deliver (d : Delivery α) (todo : List MailboxId) (n : Nat)
    (hr : r.Upkept fun _ => []) (hrounds : todo.length + actions.length ≤ rounds) :
    d.Ends n (runFor rounds now r (d.facing todo none n) actions)
      (Board.deliver d.mail d.persistent todo actions now r.board) := by
  induction todo generalizing rounds now r actions n with
  | nil =>
      rw [← ended_true, Board.deliver]
      exact ends_playOut d n true hr (by simpa using hrounds)
  | cons id rest ih =>
      have hempty : r.Upkept (lineAt id []) := by rwa [lineAt_nil]
      have hawaits : Awaits rounds now r d id rest none n actions (Board.await id
          (now + r.config.publishTimeout.millis) actions now r.board) :=
        awaits hempty .fresh Option.getD_none hrounds
      obtain ⟨left, r', d', hleft, hkept, hleaves, hrun⟩ := hawaits
      generalize hw : Board.await id (now + r.config.publishTimeout.millis) actions now r.board = w
        at hleft hleaves hrun
      rw [hrun]
      generalize hv : w.verdict = verdict at hleaves
      generalize hb : w.board = board at hleaves
      generalize hb' : r'.board = board' at hleaves
      cases hleaves with
      | closed =>
          rw [Board.deliver_of_closed hw hv, hb, ← hb']
          exact (ih n hkept hleft).after w.taken
      | free =>
          rw [Board.deliver_of_free hw hv, hb, ← hb']
          have hrest : d.Ends (n + 1)
              (runFor left w.time r' (d.facing rest none (n + 1)) w.actions)
              (Board.deliver d.mail d.persistent rest w.actions w.time r'.board) :=
            ih (n + 1) hkept hleft
          refine Ends.after ?_ w.taken
          exact ⟨hrest.board_eq, hrest.upkept, hrest.taken_eq, hrest.time_eq, hrest.todo_eq,
            hrest.gaveUp_eq, hrest.delivered_eq.trans (Nat.add_right_comm n 1 _)⟩
      | passed persistent =>
          rw [Board.deliver_of_passed hw hv persistent, hb, ← hb']
          exact (ih n hkept hleft).after w.taken
      | stopped persistent =>
          rw [Board.deliver_of_stopped hw hv persistent, hb, ← hb']
          refine Ends.after ?_ w.taken
          exact ends_playOut d n false hkept (Nat.le_trans (Nat.le_add_left _ _) hleft)

end Delivery

namespace Router

variable {r : Router α}

theorem eraseDups_filter {β : Type} [BEq β] [LawfulBEq β] (p : β → Bool) (l : List β) :
    (l.filter p).eraseDups = l.eraseDups.filter p := by
  induction hn : l.length using Nat.strongRecOn generalizing l with
  | _ n ih =>
      cases l with
      | nil => rfl
      | cons b rest =>
          have hlt : (rest.filter fun c => !c == b).length < n := by
            have hle := List.length_filter_le (fun c => !c == b) rest
            rw [← hn, List.length_cons]
            omega
          rw [List.eraseDups_cons]
          by_cases hb : p b = true
          · rw [List.filter_cons_of_pos hb, List.filter_cons_of_pos hb, List.eraseDups_cons,
              ← ih _ hlt _ rfl, List.filter_filter, List.filter_filter]
            congr 3
            funext c
            exact Bool.and_comm _ _
          · rw [List.filter_cons_of_neg hb, List.filter_cons_of_neg hb, ← ih _ hlt _ rfl,
              List.filter_filter]
            congr 1
            refine List.filter_congr fun c _ => ?_
            by_cases hc : c = b
            · simp [hc, hb]
            · simp [hc]

theorem run_ends (hr : r.Upkept fun _ => []) {d : Delivery α} (hd : d = d.facing d.todo none 0)
    (during : List Delivery.Timed) (now : Instant) :
    d.Ends 0 (d.run now r during)
      (Board.deliver d.mail d.persistent d.todo during now r.board) := by
  have hends : d.Ends 0 (Delivery.runFor (during.length + d.todo.length + 1) now r
      (d.facing d.todo none 0) during) (Board.deliver d.mail d.persistent d.todo during now r.board) :=
    Delivery.ends_deliver d d.todo 0 hr (by omega)
  rw [← hd] at hends
  exact hends

theorem Upkept.publish (hr : r.Upkept fun _ => []) (ticket : Nat) (topic : Topic) (mail : Mail α)
    (during : List Delivery.Timed) (now : Instant) :
    (r.publish ticket topic mail).Ends 0 ((r.publish ticket topic mail).run now r during)
      (r.board.publish topic mail during now) := by
  rw [Board.publish, hr.list_board, Board.deliver_filter hr.keys_nodup_board]
  · exact run_ends hr rfl during now
  · intro id hid
    rw [← hr.isOpen_board]
    exact hid

theorem Upkept.broadcast (hr : r.Upkept fun _ => []) (ticket : Nat) (mail : Mail α)
    (during : List Delivery.Timed) (now : Instant) :
    (r.broadcast ticket mail).Ends 0 ((r.broadcast ticket mail).run now r during)
      (r.board.broadcast mail during now) := by
  rw [Board.broadcast, flatMap_board, eraseDups_filter, Board.deliver_filter hr.keys_nodup_board]
  · exact run_ends hr rfl during now
  · intro id hid
    rw [← hr.isOpen_board]
    exact hid

end Router

end Realm
