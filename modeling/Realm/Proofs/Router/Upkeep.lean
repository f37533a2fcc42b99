import Realm.Proofs.Router.Calls

/-!
# The board of a router

The board that a router stands for has the subscriptions that are still open and leaves out the
closed ones that nobody has cleared away. What a router does to its subscriptions, and what a
consumer does to its mailbox, is what they do to the board.
-/

namespace Realm

variable {α : Type}

/-- The condition of a mailbox, given whether a topic holds it and who waits for a place in it. -/
structure Mailbox.Tended (m : Mailbox α) (capacity : Nat) (held : Bool) (line : List Nat) :
    Prop where
  capacity_eq : m.queue.capacity = capacity
  closed_of_shut : m.consumer = .shut → m.closed = true
  not_held : m.consumer = .listening → m.closed = true → held = false
  waiting_eq : m.waiting = line

namespace Router

variable {r r' : Router α} {line : MailboxId → List Nat} {id other : MailboxId} {topic : Topic}
  {m : Mailbox α} {closing : MailboxId → Bool} {f : Mailbox α → Mailbox α}

def queued (r : Router α) (id : MailboxId) : List (Mail α) :=
  ((r.box? id).map (·.queue.items)).getD []

def board (r : Router α) : Board α :=
  ⟨r.config, r.boxes.length, r.queued, sift (fun id => !r.refuses id) r.topics⟩

/-- The order that a router keeps its mailboxes in. -/
structure Tended (r : Router α) (line : MailboxId → List Nat) : Prop where
  capacity_pos : 1 ≤ r.config.mailboxCapacity
  le_made : ∀ id m, r.box? id = some m → id ≤ r.boxes.length
  box : ∀ id m, r.box? id = some m →
    m.Tended r.config.mailboxCapacity (isListed id r.topics) (line id)
  exists_box : ∀ id, isListed id r.topics = true → ∃ m, r.box? id = some m
  keys_nodup : (r.topics.map (·.1)).Nodup

/-- Every mailbox that takes mail is subscribed to a topic. -/
def Attached (r : Router α) : Prop :=
  ∀ id, r.refuses id = false → isListed id r.topics = true

/-! ## Looking up mailboxes -/

theorem id_of_box? (h : r.box? id = some m) : m.id = id := by
  simpa using List.find?_some h

theorem refuses_of_box? (h : r.box? id = some m) : r.refuses id = m.refuses := by
  simp [refuses, h]

theorem box?_of_not_refuses (h : r.refuses id = false) : ∃ m, r.box? id = some m := by
  cases hbox : r.box? id with
  | none => simp [refuses, hbox] at h
  | some m => exact ⟨m, rfl⟩

theorem queued_of_box? (h : r.box? id = some m) : r.queued id = m.queue.items := by
  simp [queued, h]

theorem find?_map_boxes {boxes : List (Mailbox α)} {g : Mailbox α → Mailbox α}
    (hg : ∀ m ∈ boxes, (g m).id = m.id) :
    (boxes.map g).find? (fun m => m.id = id) = (boxes.find? fun m => m.id = id).map g := by
  induction boxes with
  | nil => rfl
  | cons m rest ih =>
      have hrest := ih fun m hm => hg m (List.mem_cons_of_mem _ hm)
      by_cases hid : m.id = id <;> simp [hg m List.mem_cons_self, hid, hrest]

theorem box?_modifyBox (hf : ∀ m, m.id = id → (f m).id = id) :
    (r.modifyBox id f).box? other = if other = id then (r.box? other).map f else r.box? other := by
  unfold modifyBox box?
  rw [find?_map_boxes]
  · split
    · next heq =>
        subst heq
        cases h : r.boxes.find? fun m => m.id = other with
        | none => rfl
        | some m => simp [show m.id = other by simpa using List.find?_some h]
    · next hne =>
        cases h : r.boxes.find? fun m => m.id = other with
        | none => rfl
        | some m => simp [show m.id = other by simpa using List.find?_some h, hne]
  · intro m _
    split
    · next heq => rw [hf m heq, heq]
    · rfl

theorem box?_closeAll :
    (r.closeAll closing).box? id = (r.box? id).map fun m => if closing id then m.mark else m := by
  unfold closeAll box?
  rw [find?_map_boxes]
  · cases h : r.boxes.find? fun m => m.id = id with
    | none => rfl
    | some m => simp [show m.id = id by simpa using List.find?_some h]
  · intro m _
    split <;> rfl

@[simp] theorem config_modifyBox : (r.modifyBox id f).config = r.config := rfl

@[simp] theorem topics_modifyBox : (r.modifyBox id f).topics = r.topics := rfl

@[simp] theorem length_modifyBox : (r.modifyBox id f).boxes.length = r.boxes.length := by
  simp [modifyBox]

theorem topics_closeAll : (r.closeAll closing).topics = sift (fun id => !closing id) r.topics := rfl

theorem length_closeAll : (r.closeAll closing).boxes.length = r.boxes.length := by
  simp [closeAll]

/-! ## Boards that agree -/

theorem board_congr (hconfig : r'.config = r.config) (hlength : r'.boxes.length = r.boxes.length)
    (hqueued : ∀ id, r'.queued id = r.queued id) (hrefuses : ∀ id, r'.refuses id = r.refuses id)
    (htopics : r'.topics = r.topics) : r'.board = r.board := by
  simp only [board, hconfig, hlength, funext hqueued, hrefuses, htopics]

theorem Tended.keys_nodup_board (ht : r.Tended line) : (r.board.lists.map (·.1)).Nodup :=
  keys_sift.nodup ht.keys_nodup

theorem isOpen_board : r.board.isOpen id = (!r.refuses id && isListed id r.topics) := isListed_sift

theorem isOpen_board_of_attached (ha : r.Attached) : r.board.isOpen id = !r.refuses id := by
  rw [isOpen_board]
  cases h : r.refuses id with
  | true => rfl
  | false => simp [ha id h]

theorem Tended.list_board (ht : r.Tended line) :
    r.board.list topic = (r.subscribers topic).filter fun id => !r.refuses id :=
  listOf_sift ht.keys_nodup

theorem Tended.sizeOf_board (ht : r.Tended line) : r.board.sizeOf topic = r.sizeOf topic := by
  rw [Board.sizeOf, ht.list_board]
  rfl

theorem topicCount_board : r.board.topicCount = r.topicCount := by
  have hall : (r.board.lists.filter fun entry => !entry.2.isEmpty) = r.board.lists :=
    List.filter_eq_self.mpr fun entry hm => by simpa using ne_nil_of_mem_sift hm
  rw [Board.topicCount, hall]
  exact length_sift

theorem flatMap_board :
    r.board.lists.flatMap (·.2) = (r.topics.flatMap (·.2)).filter fun id => !r.refuses id :=
  flatMap_sift

/-! ## One mailbox rewritten -/

section Rewritten

theorem queued_modifyBox (hf : ∀ m, m.id = id → (f m).id = id) :
    (r.modifyBox id f).queued other =
      if other = id then ((r.box? id).map fun m => (f m).queue.items).getD [] else r.queued other := by
  unfold queued
  rw [box?_modifyBox hf]
  split
  · next heq => simp [heq, Option.map_map, Function.comp_def]
  · rfl

theorem refuses_modifyBox (hf : ∀ m, m.id = id → (f m).id = id) :
    (r.modifyBox id f).refuses other =
      if other = id then (r.box? id).all (fun m => (f m).refuses) else r.refuses other := by
  unfold refuses
  rw [box?_modifyBox hf]
  by_cases heq : other = id
  · subst heq
    cases r.box? other <;> simp
  · simp [heq]

/-- A rewritten mailbox keeps the router in order if it is in order itself. -/
theorem Tended.modifyBox {line' : MailboxId → List Nat} (ht : r.Tended line)
    (hf : ∀ m, m.id = id → (f m).id = id)
    (hm : ∀ m, r.box? id = some m →
      (f m).Tended r.config.mailboxCapacity (isListed id r.topics) (line' id))
    (hline : ∀ other, other ≠ id → line' other = line other) : (r.modifyBox id f).Tended line' := by
  refine ⟨ht.capacity_pos, ?_, ?_, ?_, ht.keys_nodup⟩
  · intro other m hbox
    rw [box?_modifyBox hf] at hbox
    rw [length_modifyBox]
    split at hbox
    · obtain ⟨old, hold, -⟩ := Option.map_eq_some_iff.mp hbox
      exact ht.le_made other old hold
    · exact ht.le_made other m hbox
  · intro other m hbox
    rw [box?_modifyBox hf] at hbox
    split at hbox
    · next heq =>
        subst heq
        obtain ⟨old, hold, rfl⟩ := Option.map_eq_some_iff.mp hbox
        exact hm old hold
    · next hne =>
        rw [hline other hne]
        exact ht.box other m hbox
  · intro other hlisted
    obtain ⟨m, hbox⟩ := ht.exists_box other hlisted
    rw [box?_modifyBox hf]
    split
    · exact ⟨f m, by rw [hbox]; rfl⟩
    · exact ⟨m, hbox⟩

/-- The board does not show a rewrite that keeps what is queued and whether mail is refused. -/
theorem board_modifyBox (hf : ∀ m, m.id = id → (f m).id = id)
    (hqueue : ∀ m, r.box? id = some m → (f m).queue.items = m.queue.items)
    (hrefuses : ∀ m, r.box? id = some m → (f m).refuses = m.refuses) :
    (r.modifyBox id f).board = r.board := by
  refine board_congr rfl length_modifyBox ?_ ?_ rfl
  · intro other
    rw [queued_modifyBox hf]
    split
    · next heq =>
        subst heq
        cases hbox : r.box? other with
        | none => simp [queued, hbox]
        | some m => simp [queued, hbox, hqueue m hbox]
    · rfl
  · intro other
    rw [refuses_modifyBox hf]
    split
    · next heq =>
        subst heq
        cases hbox : r.box? other with
        | none => simp [refuses, hbox]
        | some m => simp [refuses, hbox, hrefuses m hbox]
    · rfl

/-- A mailbox whose queue alone is rewritten. -/
theorem board_modifyBox_queue {queue : List (Mail α)} (hf : ∀ m, m.id = id → (f m).id = id)
    (hbox : r.box? id = some m) (hqueue : (f m).queue.items = queue)
    (hrefuses : (f m).refuses = m.refuses) :
    (r.modifyBox id f).board = r.board.setQueue id queue := by
  have hsame : ∀ other, (r.modifyBox id f).refuses other = r.refuses other := by
    intro other
    rw [refuses_modifyBox hf]
    split
    · next heq => simp [heq, hbox, hrefuses, refuses]
    · rfl
  simp only [board, Board.setQueue, length_modifyBox, config_modifyBox, topics_modifyBox, hsame]
  congr 1
  funext other
  rw [queued_modifyBox hf, hbox]
  simp [hqueue]

end Rewritten

/-! ## Subscriptions -/

section Subscriptions

theorem queued_closeAll : (r.closeAll closing).queued id = r.queued id := by
  rw [queued, queued, box?_closeAll, Option.map_map]
  congr 2
  funext m
  by_cases h : closing id <;> simp [h, Mailbox.mark]

theorem refuses_closeAll : (r.closeAll closing).refuses id = (r.refuses id || closing id) := by
  rw [refuses, refuses, box?_closeAll]
  cases r.box? id with
  | none => rfl
  | some m => by_cases h : closing id <;> simp [h, Mailbox.mark, Mailbox.refuses]

theorem board_closeAll : (r.closeAll closing).board = r.board.strike closing := by
  have hlists : sift (fun id => !(r.closeAll closing).refuses id) (r.closeAll closing).topics =
      sift (fun id => !closing id) (sift (fun id => !r.refuses id) r.topics) := by
    rw [topics_closeAll, sift_sift, sift_sift]
    refine sift_congr fun id _ => ?_
    rw [refuses_closeAll]
    cases closing id <;> simp
  have hqueued : (r.closeAll closing).queued = r.queued := funext fun _ => queued_closeAll
  simp only [board, Board.strike, length_closeAll, hlists, hqueued]
  rfl

theorem Tended.closeAll (ht : r.Tended line) : (r.closeAll closing).Tended line := by
  refine ⟨ht.capacity_pos, ?_, ?_, ?_, keys_sift.nodup ht.keys_nodup⟩
  · intro id m hbox
    rw [box?_closeAll] at hbox
    obtain ⟨old, hold, -⟩ := Option.map_eq_some_iff.mp hbox
    rw [length_closeAll]
    exact ht.le_made id old hold
  · intro id m hbox
    rw [box?_closeAll] at hbox
    obtain ⟨old, hold, rfl⟩ := Option.map_eq_some_iff.mp hbox
    have hm := ht.box id old hold
    rw [topics_closeAll, isListed_sift]
    cases hid : closing id with
    | true =>
        exact ⟨hm.capacity_eq, fun _ => rfl, fun _ _ => rfl, hm.waiting_eq⟩
    | false =>
        exact ⟨hm.capacity_eq, hm.closed_of_shut, hm.not_held, hm.waiting_eq⟩
  · intro id hlisted
    rw [topics_closeAll, isListed_sift, Bool.and_eq_true] at hlisted
    obtain ⟨m, hbox⟩ := ht.exists_box id hlisted.2
    exact ⟨_, by rw [box?_closeAll, hbox]; rfl⟩

theorem Attached.closeAll (ha : r.Attached) : (r.closeAll closing).Attached := by
  intro id h
  rw [refuses_closeAll, Bool.or_eq_false_iff] at h
  rw [topics_closeAll, isListed_sift, h.2, ha id h.1]
  rfl

/-- Striking what is not open strikes nothing. -/
theorem strike_board_eq_self (h : ∀ id, r.board.isOpen id = true → closing id = false) :
    r.board.strike closing = r.board := by
  have hlists : sift (fun id => !closing id) r.board.lists = r.board.lists :=
    sift_eq_self (fun _ => ne_nil_of_mem_sift) fun id hid => by rw [h id hid]; rfl
  rw [Board.strike, hlists]

theorem board_prune : r.prune.board = r.board := by
  rw [prune, board_closeAll]
  refine strike_board_eq_self fun id h => ?_
  rw [isOpen_board, Bool.and_eq_true, Bool.not_eq_true'] at h
  rw [h.1, Bool.and_false]

theorem topics_prune : r.prune.topics = r.board.lists := by
  refine sift_congr fun id hid => ?_
  have hholds : r.holds id = true := hid
  simp [hholds]

theorem refuses_prune : r.prune.refuses id = r.refuses id := by
  rw [prune, refuses_closeAll]
  cases r.refuses id <;> simp

theorem isListed_attach : isListed other (r.attach topic id).topics =
    (decide (other = id) || (!r.refuses other && isListed other r.topics)) := by
  rw [attach, isListed_append, topics_prune]
  congr 1
  exact isListed_sift

theorem board_attach (h : r.refuses id = false) :
    (r.attach topic id).board = r.board.enter topic id := by
  have hlists : sift (fun other => !r.prune.refuses other) (append topic id r.prune.topics) =
      append topic id r.board.lists := by
    rw [topics_prune]
    refine sift_eq_self (ne_nil_of_mem_append fun _ => ne_nil_of_mem_sift) fun other hother => ?_
    rw [isListed_append, Bool.or_eq_true, decide_eq_true_eq] at hother
    rw [refuses_prune]
    rcases hother with rfl | hother
    · rw [h]
      rfl
    · have hopen : r.board.isOpen other = true := hother
      rw [isOpen_board, Bool.and_eq_true] at hopen
      exact hopen.1
  have hprune := board_prune (r := r)
  calc (r.attach topic id).board
      = { r.prune.board with
          lists := sift (fun other => !r.prune.refuses other) (append topic id r.prune.topics) } := rfl
    _ = r.board.enter topic id := by rw [hlists, hprune]; rfl

theorem Tended.attach (ht : r.Tended line) (h : r.refuses id = false) :
    (r.attach topic id).Tended line := by
  have hpruned : r.prune.Tended line := ht.closeAll
  refine ⟨ht.capacity_pos, hpruned.le_made, ?_, ?_, nodup_keys_append hpruned.keys_nodup⟩
  · intro other m hbox
    have hm := hpruned.box other m hbox
    refine ⟨hm.capacity_eq, hm.closed_of_shut, ?_, hm.waiting_eq⟩
    intro hlistening hclosed
    have hold : r.prune.box? other = some m := hbox
    have hrefuses : r.refuses other = true := by
      rw [← refuses_prune, refuses_of_box? hold, Mailbox.refuses, hclosed]
      rfl
    have hne : other ≠ id := by
      rintro rfl
      rw [h] at hrefuses
      cases hrefuses
    rw [isListed_attach, hrefuses]
    simp [hne]
  · intro other hlisted
    rw [isListed_attach, Bool.or_eq_true, decide_eq_true_eq, Bool.and_eq_true] at hlisted
    have hold : ∃ m, r.box? other = some m := by
      rcases hlisted with rfl | hlisted
      · exact box?_of_not_refuses h
      · exact ht.exists_box other hlisted.2
    obtain ⟨m, hm⟩ := hold
    change ∃ m, r.prune.box? other = some m
    exact ⟨_, by rw [prune, box?_closeAll, hm]; rfl⟩

theorem attached_attach (ha : ∀ other, other ≠ id → r.refuses other = false →
    isListed other r.topics = true) : (r.attach topic id).Attached := by
  intro other h
  have hold : r.refuses other = false := by rw [← refuses_prune]; exact h
  rw [isListed_attach]
  by_cases heq : other = id
  · simp [heq]
  · simp [hold, ha other heq hold]

end Subscriptions

end Router

end Realm
