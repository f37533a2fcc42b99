import Realm.Proofs.Net.Use

/-!
# A table of connections over time

Whatever is done to the connections of a server, each number is given out once, a connection that
is closed stays closed, and one that is registered no more does not come back.
-/

namespace Realm

inductive TableUse where
  | register (address : SocketAddress) (capacity : Nat)
  | use (id : ConnectionId) (u : Use)
  | remove (id : ConnectionId)
  | dropWriter (id : ConnectionId)
  deriving DecidableEq, Repr

namespace Connections

def after (t : Connections) : TableUse → Connections
  | .register address capacity => (t.register address capacity).2
  | .use id u => t.modify id (·.use u)
  | .remove id => (t.remove id).2
  | .dropWriter id => t.modify id Connection.dropWriter

def afterAll (t : Connections) (us : List TableUse) : Connections := us.foldl after t

/-- The connections have the numbers from one on, and each is registered at most once. -/
structure Numbered (t : Connections) : Prop where
  ids_eq : t.outline.1 = List.range' 1 t.outline.1.length
  registered_nodup : t.outline.2.Nodup
  registered_subset : t.outline.2 ⊆ t.outline.1

structure Ages (t t' : Connections) : Prop where
  numbered : t.Numbered → t'.Numbered
  opened : t.outline.1 ⊆ t'.outline.1
  closed : ∀ id ∈ t.outline.1, t.isClosed id = true → t'.isClosed id = true
  left : ∀ id ∈ t.outline.1, id ∉ t.outline.2 → id ∉ t'.outline.2

variable {t t' t'' : Connections} {id : ConnectionId} {f : Connection → Connection}

theorem numbered_empty : empty.Numbered := ⟨rfl, .nil, List.nil_subset _⟩

theorem Ages.refl (t : Connections) : t.Ages t :=
  ⟨fun h => h, List.Subset.refl _, fun _ _ h => h, fun _ _ h => h⟩

theorem Ages.trans (h : t.Ages t') (h' : t'.Ages t'') : t.Ages t'' :=
  ⟨fun hn => h'.numbered (h.numbered hn), List.Subset.trans h.opened h'.opened,
    fun id hm hclosed => h'.closed id (h.opened hm) (h.closed id hm hclosed),
    fun id hm hleft => h'.left id (h.opened hm) (h.left id hm hleft)⟩

/-- A connection may be changed in any way that neither opens nor renumbers it. -/
theorem ages_modify (hid : ∀ k : Connection, k.id = id → (f k).id = k.id)
    (hclosed : ∀ k, t.find? id = some k → k.closed = true → (f k).closed = true) :
    t.Ages (t.modify id f) := by
  have houtline := outline_modify hid (t := t)
  refine ⟨fun h => ?_, ?_, fun c _ hc => ?_, fun c _ hleft => ?_⟩
  · exact ⟨houtline.symm ▸ h.ids_eq, houtline.symm ▸ h.registered_nodup,
      houtline.symm ▸ h.registered_subset⟩
  · rw [houtline]
    exact List.Subset.refl _
  · unfold isClosed at hc ⊢
    rw [find?_modify hid]
    by_cases heq : c = id
    · rw [if_pos heq, ← heq]
      cases hk : t.find? c with
      | none => rfl
      | some k =>
          rw [hk] at hc
          exact hclosed k (heq ▸ hk) hc
    · rw [if_neg heq]
      exact hc
  · rw [houtline]
    exact hleft

theorem ages_close (t : Connections) (id : ConnectionId) :
    t.Ages (t.modify id Connection.close) :=
  ages_modify (fun k _ => congrArg Prod.fst k.label_close)
    fun k _ _ => congrArg Prod.snd k.label_close

theorem ages_register (hn : t.Numbered) (address : SocketAddress) (capacity : Nat) :
    t.Ages (t.register address capacity).2 := by
  have hids : (t.register address capacity).2.outline.1 = t.outline.1 ++ [t.nextId] := by
    simp [Connections.register, outline, Connection.fresh]
  have hregistered : (t.register address capacity).2.outline.2 = t.outline.2 ++ [t.nextId] := rfl
  have hlength : t.outline.1.length = t.opened.length := List.length_map ..
  have hnew : ∀ c ∈ t.outline.1, c ≠ t.nextId := by
    intro c hm heq
    rw [hn.ids_eq, List.mem_range'_1, hlength] at hm
    rw [heq, nextId] at hm
    omega
  refine ⟨fun h => ⟨?_, ?_, ?_⟩, ?_, fun c hm hc => ?_, fun c hm hleft => ?_⟩
  · rw [hids, List.length_append, List.length_singleton, List.range'_1_concat, ← h.ids_eq,
      nextId, ← hlength, Nat.add_comm]
  · rw [hregistered]
    refine List.nodup_append.mpr ⟨h.registered_nodup, List.pairwise_singleton .., ?_⟩
    intro c hm c' hm'
    rw [List.mem_singleton.mp hm']
    exact hnew c (h.registered_subset hm)
  · rw [hids, hregistered]
    refine List.append_subset.mpr ⟨?_, List.subset_append_right ..⟩
    exact List.Subset.trans h.registered_subset (List.subset_append_left ..)
  · rw [hids]
    exact List.subset_append_left ..
  · unfold isClosed at hc ⊢
    rw [find?_register]
    obtain ⟨k, hk⟩ := Option.isSome_iff_exists.mp (isSome_find?.mpr hm)
    rw [hk] at hc ⊢
    exact hc
  · rw [hregistered, List.mem_append, List.mem_singleton]
    exact not_or.mpr ⟨hleft, hnew c hm⟩

theorem ages_remove (t : Connections) (id : ConnectionId) : t.Ages (t.remove id).2 := by
  unfold remove
  cases hk : t.get? id with
  | none => exact .refl t
  | some k =>
      refine (t.ages_close id).trans ⟨fun h => ⟨h.ids_eq, h.registered_nodup.erase id, ?_⟩,
        List.Subset.refl _, fun _ _ h => h, fun c _ hleft hm => ?_⟩
      · exact fun c hm => h.registered_subset (List.mem_of_mem_erase hm)
      · exact hleft (List.mem_of_mem_erase hm)

/-- A connection that was registered is so no more when it was removed. -/
theorem notMem_registered_remove (hn : t.Numbered) (id : ConnectionId) :
    id ∉ (t.remove id).2.outline.2 := by
  unfold remove
  cases hk : t.get? id with
  | none =>
      intro hm
      have hfound : (t.get? id).isSome := isSome_get?.mpr ⟨hm, hn.registered_subset hm⟩
      rw [hk] at hfound
      cases hfound
  | some k => exact fun hm => (hn.registered_nodup.mem_erase_iff.mp hm).1 rfl

theorem ages_after (hn : t.Numbered) (u : TableUse) : t.Ages (t.after u) := by
  cases u with
  | register address capacity => exact ages_register hn address capacity
  | remove id => exact ages_remove t id
  | dropWriter id => exact ages_modify (fun _ _ => rfl) fun _ _ h => h
  | use id u =>
      refine ages_modify (fun k _ => k.id_use u) fun k _ hclosed => ?_
      rw [Connection.closed_use, hclosed, Bool.true_or]

theorem ages_afterAll (hn : t.Numbered) (us : List TableUse) : t.Ages (t.afterAll us) := by
  induction us generalizing t with
  | nil => exact .refl t
  | cons u us ih =>
      have hfirst := ages_after hn u
      exact hfirst.trans (ih (hfirst.numbered hn))

end Connections

end Realm
