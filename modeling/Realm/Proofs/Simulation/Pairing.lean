import Realm.Proofs.Session.Roll
import Realm.Proofs.Store.Refinement
import Realm.Simulation.Systems

/-!
# Sessions and living entities match

The roll of the sessions and the living entities of a store match one to one: each bond names a
living entity that carries the link of the bond, and each living entity is named by a bond. Here
this is carried through the operations of the store, together with what they do to the roll.
-/

namespace Realm

namespace Roster

variable {C : Type} {r : Roster C} {h h' : Handle} {k other : Kind} {e : Entry C} {c : Option C}

/-- Writing one component leaves the components of other kinds alone. -/
theorem get?_put_write (he : r.listed? h = some e) (hk : other ≠ k) :
    (r.put h (some (e.write k c))).get? h' other = r.get? h' other := by
  unfold get? put
  by_cases hh : h' = h
  · simp [hh, he, Entry.write, hk]
  · simp [hh]

theorem listed?_of_living? (hl : r.living? h = some e) : r.listed? h = some e :=
  (Option.filter_eq_some_iff.mp hl).1

theorem get?_edit_add [Component C] {given : Option Handle} {c : C}
    (hk : other ≠ Component.kind c) :
    (r.edit given (.add h c)).get? h' other = r.get? h' other := by
  cases hl : r.living? h with
  | none => simp [edit, add, hl, Except.toOption]
  | some e =>
      simpa [edit, add, hl, Except.toOption] using get?_put_write (listed?_of_living? hl) hk

theorem get?_edit_remove [Component C] {given : Option Handle} (hk : other ≠ k) :
    (r.edit given (.remove h k)).get? h' other = r.get? h' other := by
  cases hl : r.living? h with
  | none => simp [edit, remove, hl, Except.toOption]
  | some e =>
      simpa [edit, remove, hl, Except.toOption] using get?_put_write (listed?_of_living? hl) hk

theorem get?_modify {f : C → C} (hk : other ≠ k) :
    (r.modify h k f).get? h' other = r.get? h' other := by
  unfold modify
  cases he : r.listed? h with
  | none =>
      unfold get? put
      by_cases hh : h' = h
      · simp [hh, he]
      · simp [hh]
  | some e => exact get?_put_write he hk

theorem get?_put_of_ne {entry : Option (Entry C)} (hh : h' ≠ h) :
    (r.put h entry).get? h' k = r.get? h' k := by
  simp [get?, put, hh]

/-- A new entity has the last one of the components of each kind. -/
theorem get?_create_self [Component C] (r : Roster C) (h : Handle) (cs : List C) (k : Kind) :
    (r.create h cs).get? h k = (cs.filter fun c => Component.kind c = k).getLast? := by
  have hentry : (r.create h cs).listed? h =
      some ⟨.pending, fun k => (cs.filter fun c => Component.kind c = k).getLast?⟩ := if_pos rfl
  rw [get?, hentry, Option.bind_some]

/-- Applying the changes keeps the components of living entities. -/
theorem get?_apply (hl : r.living? h = some e) : r.apply.get? h k = r.get? h k := by
  have he := listed?_of_living? hl
  have hstanding : e.standing ≠ .doomed := by
    simpa using (Option.filter_eq_some_iff.mp hl).2
  unfold get? apply
  simp only [he, Option.bind_some]
  unfold Entry.settle
  cases hs : e.standing with
  | doomed => exact absurd hs hstanding
  | pending => rfl
  | visible => rfl

end Roster

/-- The bonds on a roll and the living entities of a store match one to one. -/
structure Paired (capacity : UInt32) (t : History GameComponent) (roll : List Bond) : Prop where
  sound : t.Sound
  capacity_eq : t.store.capacity = capacity
  issued_lt : t.issued.length < 2 ^ 32
  nodup : (roll.map (·.connection)).Nodup
  linked : ∀ b ∈ roll, b.entity ∈ t.issued ∧ b.entity ∉ t.destroyed ∧
    t.store.get? b.entity .player = some (.player ⟨b.connection, b.account⟩)
  owned : ∀ h ∈ t.issued, h ∉ t.destroyed → ∃ b ∈ roll, b.entity = h

namespace Paired

variable {capacity : UInt32} {t : History GameComponent} {roll roll' : List Bond} {b : Bond}
  {h : Handle}

theorem start (capacity : UInt32) : Paired capacity (.start capacity) [] where
  sound := .start capacity
  capacity_eq := rfl
  issued_lt := by simp [History.start]
  nodup := List.nodup_nil
  linked := by intro b hb; cases hb
  owned := by intro h hm; cases hm

theorem perm (hp : Paired capacity t roll) (hroll : roll'.Perm roll) : Paired capacity t roll' where
  sound := hp.sound
  capacity_eq := hp.capacity_eq
  issued_lt := hp.issued_lt
  nodup := (hroll.map _).nodup_iff.mpr hp.nodup
  linked := fun b hb => hp.linked b (hroll.mem_iff.mp hb)
  owned := by
    intro h hm hliving
    obtain ⟨b, hb, heq⟩ := hp.owned h hm hliving
    exact ⟨b, hroll.mem_iff.mpr hb, heq⟩

theorem isAlive (hp : Paired capacity t roll) (hb : b ∈ roll) :
    t.store.isAlive b.entity = true := by
  obtain ⟨hm, hliving, -⟩ := hp.linked b hb
  exact (hp.sound.recorded.isAlive_iff hm).mpr hliving

theorem exists_living (hp : Paired capacity t roll) (hb : b ∈ roll) :
    ∃ e, t.roster.living? b.entity = some e := by
  obtain ⟨hm, -, -⟩ := hp.linked b hb
  obtain ⟨_, _, _, -, -, -, hl, -⟩ := hp.sound.living?_of_isAlive hm (hp.isAlive hb)
  exact ⟨_, hl⟩

/-- One connection has one bond. -/
theorem eq_of_connection (hp : Paired capacity t roll) {b' : Bond} (hb : b ∈ roll) (hb' : b' ∈ roll)
    (hc : b.connection = b'.connection) : b = b' := List.inj_on_of_nodup_map hp.nodup hb hb' hc

/-- One entity has one bond. -/
theorem eq_of_entity (hp : Paired capacity t roll) {b' : Bond} (hb : b ∈ roll) (hb' : b' ∈ roll)
    (he : b.entity = b'.entity) : b = b' := by
  obtain ⟨-, -, hlink⟩ := hp.linked b hb
  obtain ⟨-, -, hlink'⟩ := hp.linked b' hb'
  rw [he, hlink'] at hlink
  refine hp.eq_of_connection hb hb' ?_
  simp only [Option.some.injEq, GameComponent.player.injEq, PlayerLink.mk.injEq] at hlink
  exact hlink.1.symm

/-- A handle that has a record was given out. -/
theorem mem_issued (hp : Paired capacity t roll) (hf : (t.store.find? h).isSome = true) :
    h ∈ t.issued := by
  by_contra hm
  obtain ⟨e, he⟩ := Option.isSome_iff_exists.mp hf
  obtain ⟨standing, hentry⟩ := Store.listed?_of_find? he
  rw [hp.sound.recorded.listed?_of_not_issued hp.sound.tidy hm] at hentry
  cases hentry

/-- A living entity that has a record has its bond. -/
theorem exists_bond (hp : Paired capacity t roll) (ha : t.store.isAlive h = true)
    (hf : (t.store.find? h).isSome = true) : ∃ b ∈ roll, b.entity = h := by
  have hm := hp.mem_issued hf
  exact hp.owned h hm ((hp.sound.recorded.isAlive_iff hm).mp ha)

/-- There are as many bonds as living entities. -/
theorem countP_isAlive (hp : Paired capacity t roll) :
    t.issued.countP t.store.isAlive = roll.length := by
  have hr := hp.sound.recorded
  have hnodup : (roll.map (·.entity)).Nodup :=
    List.Nodup.map_on (fun _ hb _ hb' heq => hp.eq_of_entity hb hb' heq) hp.nodup.of_map
  have hperm : (t.issued.filter t.store.isAlive).Perm (roll.map (·.entity)) := by
    refine (List.perm_ext_iff_of_nodup (hr.issued_nodup.filter _) hnodup).mpr ?_
    intro h
    rw [List.mem_filter, List.mem_map]
    constructor
    · rintro ⟨hm, ha⟩
      exact hp.owned h hm ((hr.isAlive_iff hm).mp ha)
    · rintro ⟨b, hb, rfl⟩
      exact ⟨(hp.linked b hb).1, hp.isAlive hb⟩
  rw [List.countP_eq_length_filter, hperm.length_eq, List.length_map]

/-! ## Operations that leave the players alone -/

theorem edit (hp : Paired capacity t roll) {e : Edit GameComponent} (ha : t.Admits e)
    (hi : (t.edit e).issued = t.issued) (hd : (t.edit e).destroyed = t.destroyed)
    (hg : ∀ given h, (t.roster.edit given e).get? h .player = t.roster.get? h .player) :
    Paired capacity (t.edit e) roll := by
  have hr := hp.sound.recorded
  have hle := hr.destroyed_nodup.length_le_of_subset hr.issued_of_destroyed
  have hlt := hp.issued_lt
  have hw : (t.edit e).Unworn := History.unworn_of_length_lt (by rw [hd]; omega)
  have hroster := hp.sound.roster_edit ha hw
  have hget : ∀ h, (t.edit e).store.get? h .player = t.store.get? h .player := by
    intro h
    rw [Store.get?_eq, Store.get?_eq]
    have := hg (t.given? e) h
    rw [← hroster] at this
    exact this
  have hmoves := History.moves hp.sound.tidy ha
  refine ⟨hmoves.sound hp.sound hw, hmoves.capacity_eq.trans hp.capacity_eq,
    by rw [hi]; exact hp.issued_lt, hp.nodup, ?_, ?_⟩
  · intro b hb
    rw [hi, hd, hget]
    exact hp.linked b hb
  · intro h hm hliving
    rw [hi] at hm
    rw [hd] at hliving
    exact hp.owned h hm hliving

/-- Attaching a component to a living entity succeeds. -/
theorem add (hp : Paired capacity t roll) (hb : b ∈ roll) {c : GameComponent}
    (hc : Kind.player ≠ Component.kind c) :
    ∃ old s, t.store.add b.entity c = .ok (old, s) ∧
      Paired capacity (t.withStore s) roll := by
  obtain ⟨hm, -, -⟩ := hp.linked b hb
  have ha : t.Admits (.add b.entity c) := by
    intro h hh
    cases hh
    exact hm
  rcases hp.sound.change_insert hm c with ⟨entry, e, s, -, hok, -, -⟩ | ⟨hnone, -⟩
  · have hadd : t.store.add b.entity c = .ok (e.get? (Component.kind c), s) := by
      rw [Store.add, hok]
      rfl
    have hedit : t.edit (.add b.entity c) = t.withStore s := by simp only [History.edit, hadd]
    refine ⟨_, s, hadd, hedit ▸ hp.edit ha (by rw [hedit]; rfl) (by rw [hedit]; rfl) ?_⟩
    intro given h
    exact Roster.get?_edit_add hc
  · obtain ⟨e, hl⟩ := hp.exists_living hb
    rw [hnone] at hl
    cases hl

theorem remove (hp : Paired capacity t roll) (hb : b ∈ roll) {k : Kind} (hk : Kind.player ≠ k) :
    ∃ old s, t.store.remove b.entity k = .ok (old, s) ∧
      Paired capacity (t.withStore s) roll := by
  obtain ⟨hm, -, -⟩ := hp.linked b hb
  have ha : t.Admits (.remove b.entity k) := by
    intro h hh
    cases hh
    exact hm
  rcases hp.sound.change_erase hm k with ⟨entry, e, s, -, hok, -, -⟩ | ⟨hnone, -⟩
  · have hremove : t.store.remove b.entity k = .ok (e.get? k, s) := by
      rw [Store.remove, hok]
      rfl
    have hedit : t.edit (.remove b.entity k) = t.withStore s := by
      simp only [History.edit, hremove]
    refine ⟨_, s, hremove, hedit ▸ hp.edit ha (by rw [hedit]; rfl) (by rw [hedit]; rfl) ?_⟩
    intro given h
    exact Roster.get?_edit_remove hk
  · obtain ⟨e, hl⟩ := hp.exists_living hb
    rw [hnone] at hl
    cases hl

theorem modify (hp : Paired capacity t roll) (hb : b ∈ roll) {k : Kind} (hk : Kind.player ≠ k)
    (f : GameComponent → GameComponent) :
    Paired capacity (t.withStore (t.store.modify b.entity k f)) roll := by
  have ha : t.Admits (.modify b.entity k f) := by
    intro h hh
    cases hh
    exact (hp.linked b hb).1
  refine hp.edit ha rfl rfl ?_
  intro given h
  exact Roster.get?_modify hk

theorem apply (hp : Paired capacity t roll) : Paired capacity t.apply roll := by
  have hsettles := Store.apply_settles hp.sound.tidy hp.sound.queued
  refine ⟨hp.sound.apply, hsettles.capacity_eq.trans hp.capacity_eq, hp.issued_lt, hp.nodup, ?_,
    hp.owned⟩
  intro b hb
  obtain ⟨hm, hliving, hlink⟩ := hp.linked b hb
  obtain ⟨e, hl⟩ := hp.exists_living hb
  refine ⟨hm, hliving, ?_⟩
  have hget : t.roster.apply.get? b.entity .player = t.roster.get? b.entity .player :=
    Roster.get?_apply hl
  rw [← hp.sound.roster_apply] at hget
  rw [Store.get?_eq] at hlink ⊢
  exact Eq.trans hget hlink

/-! ## Players leave and join -/

/-- Destroying the entity of a bond succeeds and takes the bond off the roll. -/
theorem destroy (hp : Paired capacity t roll) (hb : b ∈ roll) :
    ∃ s, t.store.destroy b.entity = .ok s ∧
      Paired capacity ⟨s, t.issued, b.entity :: t.destroyed⟩
        (roll.filter fun b' => b'.connection ≠ b.connection) := by
  have hr := hp.sound.recorded
  obtain ⟨hm, hliving, -⟩ := hp.linked b hb
  have ha : t.Admits (.destroy b.entity) := by
    intro h hh
    cases hh
    exact hm
  obtain ⟨s, hs⟩ := Store.destroy_of_alive (hp.isAlive hb)
  have hedit : t.edit (.destroy b.entity) = ⟨s, t.issued, b.entity :: t.destroyed⟩ := by
    simp only [History.edit, hs]
  have hw : (t.edit (.destroy b.entity)).Unworn := by
    rw [hedit]
    refine History.unworn_of_length_lt (Nat.lt_of_le_of_lt ?_ hp.issued_lt)
    refine (List.nodup_cons.mpr ⟨hliving, hr.destroyed_nodup⟩).length_le_of_subset ?_
    intro h hh
    rcases List.mem_cons.mp hh with rfl | hh
    · exact hm
    · exact hr.issued_of_destroyed h hh
  have hmoves := History.moves hp.sound.tidy ha
  have hsound := hmoves.sound hp.sound hw
  have hcapacity := hmoves.capacity_eq.trans hp.capacity_eq
  rw [hedit] at hsound hcapacity
  have hmem : ∀ b', b' ∈ roll.filter (fun b' => b'.connection ≠ b.connection) ↔
      b' ∈ roll ∧ b'.connection ≠ b.connection := by
    intro b'
    simp [List.mem_filter]
  refine ⟨s, hs, hsound, hcapacity, hp.issued_lt, ?_, ?_, ?_⟩
  · exact hp.nodup.sublist (List.filter_sublist.map _)
  · intro b' hb'
    obtain ⟨hb', hc⟩ := (hmem b').mp hb'
    obtain ⟨hm', hliving', hlink'⟩ := hp.linked b' hb'
    have hne : b'.entity ≠ b.entity := fun heq => hc (hp.eq_of_entity hb' hb heq ▸ rfl)
    refine ⟨hm', by simp [hne, hliving'], ?_⟩
    rcases hp.sound.destroy_cases hm hw with ⟨entry, s', -, hs', hroster⟩ | ⟨-, hs'⟩
    · rw [hs] at hs'
      cases hs'
      have hget : (t.roster.put b.entity entry.doom).get? b'.entity .player =
          t.roster.get? b'.entity .player := Roster.get?_put_of_ne hne
      rw [← hroster] at hget
      rw [Store.get?_eq] at hlink' ⊢
      exact Eq.trans hget hlink'
    · rw [hs] at hs'
      cases hs'
  · intro h hm' hliving'
    obtain ⟨hne, hliving'⟩ := not_or.mp (fun hh => hliving' (List.mem_cons.mpr hh))
    obtain ⟨b', hb', heq⟩ := hp.owned h hm' hliving'
    refine ⟨b', (hmem b').mpr ⟨hb', ?_⟩, heq⟩
    intro hc
    exact hne (heq ▸ hp.eq_of_connection hb' hb hc ▸ rfl)

/-- Creating the entity of a new bond puts the bond on the roll. -/
theorem create (hp : Paired capacity t roll) {s : Store GameComponent} {cs : List GameComponent}
    (hs : t.store.create cs = .ok (b.entity, s)) (hlt : t.issued.length + 1 < 2 ^ 32)
    (hc : ∀ b' ∈ roll, b'.connection ≠ b.connection)
    (hlink : (cs.filter fun c => Component.kind c = Kind.player).getLast? =
      some (.player ⟨b.connection, b.account⟩)) :
    Paired capacity ⟨s, b.entity :: t.issued, t.destroyed⟩ (b :: roll) := by
  obtain ⟨hcreates, htakes⟩ := Store.creates_of_ok hp.sound.tidy.toBounded hs
  have hsound := hp.sound.create hcreates htakes
  have hnew := hp.sound.recorded.not_issued_of_creates hcreates htakes
  have hroster := hp.sound.roster_create hs
  have hget : ∀ h, (⟨s, b.entity :: t.issued, t.destroyed⟩ : History GameComponent).store.get? h
      .player = (t.roster.create b.entity cs).get? h .player := by
    intro h
    rw [← hroster, Store.get?_eq]
    rfl
  refine ⟨hsound, hcreates.capacity_eq.trans hp.capacity_eq, hlt, ?_, ?_, ?_⟩
  · rw [List.map_cons, List.nodup_cons]
    refine ⟨?_, hp.nodup⟩
    intro hm
    obtain ⟨b', hb', heq⟩ := List.mem_map.mp hm
    exact hc b' hb' heq
  · intro b' hb'
    rw [hget]
    rcases List.mem_cons.mp hb' with rfl | hb'
    · refine ⟨List.mem_cons_self, ?_, ?_⟩
      · exact fun hd => hnew (hp.sound.recorded.issued_of_destroyed _ hd)
      · exact (Roster.get?_create_self _ _ cs _).trans hlink
    · obtain ⟨hm', hliving', hlink'⟩ := hp.linked b' hb'
      have hne : b'.entity ≠ b.entity := fun heq => hnew (heq ▸ hm')
      refine ⟨List.mem_cons_of_mem _ hm', hliving', ?_⟩
      rw [Store.get?_eq] at hlink'
      exact Eq.trans (Roster.get?_put_of_ne hne) hlink'
  · intro h hm hliving
    rcases List.mem_cons.mp hm with rfl | hm
    · exact ⟨b, List.mem_cons_self, rfl⟩
    · obtain ⟨b', hb', heq⟩ := hp.owned h hm hliving
      exact ⟨b', List.mem_cons_of_mem _ hb', heq⟩

end Paired

end Realm
