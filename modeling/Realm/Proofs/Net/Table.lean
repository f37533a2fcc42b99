import Realm.Net.Connections

/-!
# What is known of one connection

Of a table of connections this tells which are there and whether a given one is closed. Only closing
a connection changes the latter; whatever else is done to a connection leaves both alone, and what
is done to another one too.
-/

namespace Realm

namespace Connection

/-- A connection but for its queue and its writer. -/
def label (k : Connection) : ConnectionId × Bool := (k.id, k.closed)

variable (k : Connection)

@[simp] theorem label_enqueue (item : Outbound) : (k.enqueue item).2.label = k.label := by
  unfold enqueue
  split <;> rfl

@[simp] theorem label_offer (item : Outbound) : (k.offer item).2.label = k.label := by
  unfold offer
  split
  · rfl
  · exact k.label_enqueue item

@[simp] theorem label_send (p : Wire.Packet) : (k.send p).2.label = k.label := k.label_offer _

@[simp] theorem label_flush : k.flush.2.label = k.label := k.label_offer _

@[simp] theorem label_drain (n : Option Nat) : (k.drain n).2.label = k.label := by
  unfold drain
  split <;> rfl

@[simp] theorem label_close : k.close.label = (k.id, true) := by
  unfold close
  split
  · next h => exact congrArg (Prod.mk k.id) h
  · exact congrArg (fun label : ConnectionId × Bool => (label.1, true)) (k.label_enqueue .close)

theorem label_dismiss (p : Wire.Packet) : (k.dismiss p).label = (k.id, true) := by
  have hflushed : (k.send p).2.flush.2.label = k.label := by simp
  rw [dismiss, label_close]
  exact congrArg (fun label : ConnectionId × Bool => (label.1, true)) hflushed

end Connection

namespace Connections

/-- Which connections there are, and which of them are registered. -/
def outline (t : Connections) : List ConnectionId × List ConnectionId :=
  (t.opened.map (·.id), t.registered)

variable {t t' : Connections} {id c : ConnectionId} {f : Connection → Connection}

theorem outline_modify (hf : ∀ k, k.id = id → (f k).id = k.id) :
    (t.modify id f).outline = t.outline := by
  have hids : (t.modify id f).opened.map (·.id) = t.opened.map (·.id) := by
    rw [modify, List.map_map]
    refine List.map_congr_left fun k _ => ?_
    show (if k.id = id then f k else k).id = k.id
    split
    · next h => exact hf k h
    · rfl
  exact congrArg (fun ids => (ids, t.registered)) hids

theorem find?_modify (hf : ∀ k, k.id = id → (f k).id = k.id) (c : ConnectionId) :
    (t.modify id f).find? c = if c = id then (t.find? id).map f else t.find? c := by
  have hsame : (fun k : Connection => decide (k.id = c)) ∘ (fun k => if k.id = id then f k else k) =
      fun k => decide (k.id = c) := by
    funext k
    by_cases hk : k.id = id
    · simp [hk, hf k hk]
    · simp [hk]
  rw [modify, find?, List.find?_map, hsame]
  by_cases hc : c = id
  · rw [if_pos hc, hc, find?]
    cases hk : t.opened.find? fun k => k.id = id with
    | none => rfl
    | some k =>
        have hid : k.id = id := by simpa using List.find?_some hk
        rw [Option.map_some, Option.map_some, if_pos hid]
  · rw [if_neg hc, find?]
    cases hk : t.opened.find? fun k => k.id = c with
    | none => rfl
    | some k =>
        have hid : k.id = c := by simpa using List.find?_some hk
        rw [Option.map_some, if_neg (hid ▸ hc)]

theorem isClosed_modify_of_ne (hf : ∀ k, k.id = id → (f k).id = k.id) (hc : c ≠ id) :
    (t.modify id f).isClosed c = t.isClosed c := by
  unfold isClosed
  rw [find?_modify hf, if_neg hc]

/-- What is done to a connection leaves it open or closed if it does so to the one that is found. -/
theorem isClosed_modify (hid : ∀ k, k.id = id → (f k).id = k.id)
    (hf : ∀ k, t.find? id = some k → (f k).closed = k.closed) (c : ConnectionId) :
    (t.modify id f).isClosed c = t.isClosed c := by
  by_cases hc : c = id
  · unfold isClosed
    rw [find?_modify hid, if_pos hc, hc]
    cases hk : t.find? id with
    | none => rfl
    | some k => exact hf k hk
  · exact isClosed_modify_of_ne hid hc

theorem isClosed_close (t : Connections) (id c : ConnectionId) :
    (t.modify id Connection.close).isClosed c = (decide (c = id) || t.isClosed c) := by
  have hid : ∀ k : Connection, k.close.id = k.id := fun k => congrArg Prod.fst k.label_close
  by_cases hc : c = id
  · rw [decide_eq_true hc, Bool.true_or, hc]
    unfold isClosed
    rw [find?_modify fun k _ => hid k, if_pos rfl]
    cases t.find? id with
    | none => rfl
    | some k => exact congrArg Prod.snd k.label_close
  · rw [isClosed_modify_of_ne (fun k _ => hid k) hc, decide_eq_false hc, Bool.false_or]

theorem find?_register (t : Connections) (address : SocketAddress) (capacity : Nat)
    (c : ConnectionId) : (t.register address capacity).2.find? c =
      (t.find? c).or (if t.nextId = c then some (.fresh t.nextId address capacity) else none) := by
  rw [Connections.register, find?, List.find?_append, List.find?_singleton, find?]
  by_cases hc : t.nextId = c <;> simp [Connection.fresh, hc]

/-! ## Two tables -/

/-- Two tables have the same connections, and of one of them the same is known. -/
structure Alike (c : ConnectionId) (t t' : Connections) : Prop where
  outline_eq : t.outline = t'.outline
  isClosed_eq : t.isClosed c = t'.isClosed c

theorem isSome_find? : (t.find? c).isSome ↔ c ∈ t.outline.1 := by
  rw [find?, List.find?_isSome, outline, List.mem_map]
  constructor
  · rintro ⟨k, hk, heq⟩
    exact ⟨k, hk, by simpa using heq⟩
  · rintro ⟨k, hk, heq⟩
    exact ⟨k, hk, by simpa using heq⟩

theorem isSome_get? : (t.get? c).isSome ↔ c ∈ t.outline.2 ∧ c ∈ t.outline.1 := by
  rw [← isSome_find?, get?]
  by_cases hc : c ∈ t.registered
  · rw [if_pos hc]
    exact ⟨fun h => ⟨hc, h⟩, And.right⟩
  · rw [if_neg hc]
    exact ⟨nofun, fun h => absurd h.1 hc⟩

namespace Alike

theorem modify {f f' : Connection → Connection} (h : Alike c t t')
    (hf : ∀ k, k.id = id → (f k).id = k.id) (hf' : ∀ k, k.id = id → (f' k).id = k.id)
    (hclosed : (t.modify id f).isClosed c = (t'.modify id f').isClosed c) :
    Alike c (t.modify id f) (t'.modify id f') :=
  ⟨by rw [outline_modify hf, outline_modify hf', h.outline_eq], hclosed⟩

theorem close (h : Alike c t t') (id : ConnectionId) :
    Alike c (t.modify id Connection.close) (t'.modify id Connection.close) := by
  have hid : ∀ k : Connection, k.id = id → k.close.id = k.id :=
    fun k _ => congrArg Prod.fst k.label_close
  refine h.modify hid hid ?_
  rw [isClosed_close, isClosed_close, h.isClosed_eq]

theorem register (h : Alike c t t') (address : SocketAddress) (capacity : Nat) :
    Alike c (t.register address capacity).2 (t'.register address capacity).2 := by
  have hids : t.opened.map (·.id) = t'.opened.map (·.id) := congrArg Prod.fst h.outline_eq
  have hregistered : t.registered = t'.registered := congrArg Prod.snd h.outline_eq
  have hnext : t.nextId = t'.nextId := by
    have hlength := congrArg List.length hids
    rw [List.length_map, List.length_map] at hlength
    rw [nextId, nextId, hlength]
  refine ⟨?_, ?_⟩
  · simp only [Connections.register, outline, List.map_append, hids, hregistered, hnext,
      List.map_cons, List.map_nil]
  · unfold isClosed
    rw [find?_register, find?_register, ← hnext]
    have hfound : (t.find? c).isSome = (t'.find? c).isSome := by
      rw [Bool.eq_iff_iff, isSome_find?, isSome_find?, h.outline_eq]
    have hclosed := h.isClosed_eq
    unfold isClosed at hclosed
    cases hk : t.find? c with
    | none =>
        have hnone : t'.find? c = none := by simpa [hk] using hfound
        rw [hnone]
    | some k =>
        rw [hk] at hfound hclosed
        obtain ⟨k', hk'⟩ := Option.isSome_iff_exists.mp hfound.symm
        rw [hk'] at hclosed ⊢
        exact hclosed

theorem remove (h : Alike c t t') (id : ConnectionId) :
    Alike c (t.remove id).2 (t'.remove id).2 := by
  have hfound : (t.get? id).isSome = (t'.get? id).isSome := by
    rw [Bool.eq_iff_iff, isSome_get?, isSome_get?, h.outline_eq]
  unfold Connections.remove
  cases hk : t.get? id with
  | none =>
      have hnone : t'.get? id = none := by simpa [hk] using hfound
      rw [hnone]
      exact h
  | some k =>
      rw [hk] at hfound
      obtain ⟨k', hk'⟩ := Option.isSome_iff_exists.mp hfound.symm
      rw [hk']
      have hclose := h.close id
      have hregistered : t.registered = t'.registered := congrArg Prod.snd h.outline_eq
      refine ⟨?_, hclose.isClosed_eq⟩
      have hids : (t.modify id Connection.close).opened.map (·.id) =
          (t'.modify id Connection.close).opened.map (·.id) := congrArg Prod.fst hclose.outline_eq
      simp only [outline, hids, hregistered]

end Alike

end Connections

end Realm
