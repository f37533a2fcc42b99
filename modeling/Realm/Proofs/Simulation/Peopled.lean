import Realm.Proofs.Session.Roll
import Realm.Proofs.World.Attend
import Realm.Simulation.Basic

/-!
# Stages with players

Every bond on the roll names a living entity that carries its link, and every living entity is named
by a bond. Unlike a count of the handles that were given out this needs no bound: it speaks of the
records that a steady store holds, whatever generations they carry.
-/

namespace Realm

/-- Bonds and living entities of a stage match. -/
structure Peopled (stage : Stage GameComponent Lobby) : Prop where
  steady : stage.store.Steady stage.store.changes.toList
  nodup : (stage.shared.roll.map (·.connection)).Nodup
  linked : ∀ b ∈ stage.shared.roll, ∃ e, stage.store.living? b.entity = some e ∧
    e.get? .player = some (.player ⟨b.connection, b.account⟩)
  owned : ∀ h e, stage.store.living? h = some e → ∃ b ∈ stage.shared.roll, b.entity = h

/-- While the systems run nothing waits to be seen. -/
structure Ready (stage : Stage GameComponent Lobby) : Prop extends Peopled stage where
  idle : stage.store.Idle

namespace Peopled

variable {stage : Stage GameComponent Lobby} {b b' : Bond} {h : Handle} {k : Kind}
  {c : GameComponent} {x : Session} {client : ConnectionId}

theorem empty (capacity : UInt32) : Peopled ⟨.empty capacity, .empty⟩ where
  steady := .empty capacity
  nodup := List.nodup_nil
  linked := nofun
  owned := by
    intro h e hl
    obtain ⟨slot, hslot, -⟩ := Store.living?_eq_some_iff.mp hl
    simp [Store.at?, Store.empty] at hslot

/-! ## Who is who -/

theorem eq_of_connection (hp : Peopled stage) (hb : b ∈ stage.shared.roll)
    (hb' : b' ∈ stage.shared.roll) (hc : b.connection = b'.connection) : b = b' :=
  List.inj_on_of_nodup_map hp.nodup hb hb' hc

theorem eq_of_entity (hp : Peopled stage) (hb : b ∈ stage.shared.roll)
    (hb' : b' ∈ stage.shared.roll) (he : b.entity = b'.entity) : b = b' := by
  obtain ⟨e, hl, hlink⟩ := hp.linked b hb
  obtain ⟨e', hl', hlink'⟩ := hp.linked b' hb'
  rw [he, hl'] at hl
  obtain rfl := Option.some.inj hl
  rw [hlink', Option.some.injEq, GameComponent.player.injEq, PlayerLink.mk.injEq] at hlink
  exact hp.eq_of_connection hb hb' hlink.1.symm

theorem isAlive (hp : Peopled stage) (hb : b ∈ stage.shared.roll) :
    stage.store.isAlive b.entity = true := by
  obtain ⟨e, hl, -⟩ := hp.linked b hb
  exact Store.isAlive_of_living hl

theorem playerOf_eq (hp : Peopled stage) (hb : b ∈ stage.shared.roll) :
    stage.store.playerOf b.entity = some b.connection := by
  obtain ⟨e, hl, hlink⟩ := hp.linked b hb
  rw [Store.playerOf, Store.get?, Store.find?_of_living hl, Option.bind_some, hlink]
  rfl

/-- A living entity of which a component is found has its bond. -/
theorem exists_bond (hp : Peopled stage) (ha : stage.store.isAlive h = true)
    (hc : stage.store.get? h k = some c) : ∃ b ∈ stage.shared.roll, b.entity = h := by
  obtain ⟨e, hf, -⟩ := Option.bind_eq_some_iff.mp hc
  exact hp.owned h e ((Store.living?_of_isAlive ha).trans hf)

/-- A living entity with a player has the bond that its link tells of. -/
theorem exists_bond_of_player (hp : Peopled stage) (ha : stage.store.isAlive h = true)
    (hc : stage.store.playerOf h = some client) :
    ∃ b ∈ stage.shared.roll, b.entity = h ∧ b.connection = client := by
  obtain ⟨link, hlink, -⟩ := Option.map_eq_some_iff.mp hc
  obtain ⟨component, hcomponent, -⟩ := Option.bind_eq_some_iff.mp hlink
  obtain ⟨b, hb, rfl⟩ := hp.exists_bond ha hcomponent
  rw [hp.playerOf_eq hb] at hc
  exact ⟨b, hb, rfl, Option.some.inj hc⟩

theorem mem_roll (hx : stage.shared.session? client = some x) :
    x.bond ∈ stage.shared.roll ∧ x.connection = client :=
  ⟨Sessions.mem_roll_of_get? hx, (Sessions.get?_eq_some hx).2⟩

/-- The session of a connection is the only one with its entity. -/
theorem session_of_bond (hp : Peopled stage) (hb : b ∈ stage.shared.roll) :
    ∃ x, stage.shared.session? b.connection = some x ∧ x.bond = b :=
  Sessions.get?_of_mem_roll hp.nodup hb

/-! ## What keeps it -/

theorem withShared {l : Lobby} (hp : Peopled stage) (hl : l.roll.Perm stage.shared.roll) :
    Peopled { stage with shared := l } where
  steady := hp.steady
  nodup := (hl.map _).nodup_iff.mpr hp.nodup
  linked := fun b hb => hp.linked b (hl.mem_iff.mp hb)
  owned := by
    intro h e hl'
    obtain ⟨b, hb, heq⟩ := hp.owned h e hl'
    exact ⟨b, hl.mem_iff.mpr hb, heq⟩

theorem apply (hp : Peopled stage) : Peopled { stage with store := stage.store.apply.2 } where
  steady := hp.steady.apply
  nodup := hp.nodup
  linked := by
    intro b hb
    rw [hp.steady.living?_apply]
    exact hp.linked b hb
  owned := by
    intro h e hl
    rw [hp.steady.living?_apply] at hl
    exact hp.owned h e hl

theorem ready_apply (hp : Peopled stage) : Ready { stage with store := stage.store.apply.2 } :=
  ⟨hp.apply, hp.steady.idle_apply⟩

theorem create {s : Store GameComponent} {cs : List GameComponent} {l : Lobby}
    (hp : Peopled stage) (hs : stage.store.create cs = .ok (b.entity, s))
    (hnew : ∀ b' ∈ stage.shared.roll, b'.connection ≠ b.connection)
    (hlink : (cs.filter fun c => Component.kind c = Kind.player).getLast? =
      some (.player ⟨b.connection, b.account⟩)) (hl : l.roll.Perm (b :: stage.shared.roll)) :
    Peopled ⟨s, l⟩ := by
  obtain ⟨hcreates, htakes⟩ := Store.creates_of_ok hp.steady.toBounded hs
  have hliving := hp.steady.living?_create hcreates htakes
  have hfresh := hp.steady.living?_eq_none_of_takes htakes
  refine ⟨hp.steady.create hcreates htakes, ?_, ?_, ?_⟩
  · refine (hl.map _).nodup_iff.mpr (List.nodup_cons.mpr ⟨?_, hp.nodup⟩)
    intro hm
    obtain ⟨b', hb', heq⟩ := List.mem_map.mp hm
    exact hnew b' hb' heq
  · intro b' hb'
    rw [hliving]
    rcases List.mem_cons.mp (hl.mem_iff.mp hb') with rfl | hb'
    · exact ⟨_, if_pos rfl, (Entity.get?_ofComponents _ cs _).trans hlink⟩
    · obtain ⟨e, hold, hlinked⟩ := hp.linked b' hb'
      have hne : b'.entity ≠ b.entity := by
        intro heq
        rw [heq, hfresh] at hold
        cases hold
      exact ⟨e, (if_neg hne).trans hold, hlinked⟩
  · intro h e hl'
    rw [hliving] at hl'
    by_cases heq : h = b.entity
    · exact ⟨b, hl.mem_iff.mpr List.mem_cons_self, heq.symm⟩
    · rw [if_neg heq] at hl'
      obtain ⟨b', hb', heq'⟩ := hp.owned h e hl'
      exact ⟨b', hl.mem_iff.mpr (List.mem_cons_of_mem b hb'), heq'⟩

end Peopled

namespace Ready

variable {stage : Stage GameComponent Lobby} {b : Bond} {s : Store GameComponent} {l : Lobby}
  {f : Slot GameComponent → Slot GameComponent} {e e' : Entity GameComponent}

theorem withShared (hr : Ready stage) (hl : l.roll = stage.shared.roll) :
    Ready { stage with shared := l } := ⟨hr.toPeopled.withShared (hl ▸ .refl _), hr.idle⟩

/-- The components of an entity change, but for its link. -/
theorem rewrite (hr : Ready stage) (hl : stage.store.living? b.entity = some e)
    (ht : stage.store.Touches b.entity f s) (hs : s.living? b.entity = some e')
    (hlink : e'.get? .player = e.get? .player) (hroll : l.roll = stage.shared.roll) :
    Ready ⟨s, l⟩ := by
  have hother := fun h' (hne : h' ≠ b.entity) => ht.living?_of_ne hr.idle hne
  refine ⟨⟨ht.steady hr.steady, hroll ▸ hr.nodup, ?_, ?_⟩, ht.idle hr.idle⟩
  · intro b' hb'
    obtain ⟨old, hold, hlinked⟩ := hr.linked b' (hroll ▸ hb')
    by_cases heq : b'.entity = b.entity
    · rw [heq, hl] at hold
      obtain rfl := Option.some.inj hold
      exact ⟨e', heq ▸ hs, hlink.trans hlinked⟩
    · exact ⟨old, (hother _ heq).trans hold, hlinked⟩
  · intro h found hfound
    by_cases heq : h = b.entity
    · obtain ⟨b', hb', hentity⟩ := hr.owned b.entity e hl
      exact ⟨b', hroll ▸ hb', hentity.trans heq.symm⟩
    · rw [hother h heq] at hfound
      obtain ⟨b', hb', hentity⟩ := hr.owned h found hfound
      exact ⟨b', hroll ▸ hb', hentity⟩

theorem destroy (hr : Ready stage) (hb : b ∈ stage.shared.roll)
    (ht : stage.store.Touches b.entity f s) (hs : s.isAlive b.entity = false)
    (hroll : l.roll = stage.shared.roll.filter fun b' => b'.connection ≠ b.connection) :
    Ready ⟨s, l⟩ := by
  have hother := fun h' (hne : h' ≠ b.entity) => ht.living?_of_ne hr.idle hne
  have hmem : ∀ b', b' ∈ l.roll ↔ b' ∈ stage.shared.roll ∧ b'.connection ≠ b.connection := by
    intro b'
    simp [hroll, List.mem_filter]
  refine ⟨⟨ht.steady hr.steady, ?_, ?_, ?_⟩, ht.idle hr.idle⟩
  · rw [hroll]
    exact hr.nodup.sublist (List.filter_sublist.map _)
  · intro b' hb'
    obtain ⟨hb', hne⟩ := (hmem b').mp hb'
    have hentity : b'.entity ≠ b.entity := fun heq => hne (hr.eq_of_entity hb' hb heq ▸ rfl)
    obtain ⟨old, hold, hlinked⟩ := hr.linked b' hb'
    exact ⟨old, (hother _ hentity).trans hold, hlinked⟩
  · intro h found hfound
    have hne : h ≠ b.entity := by
      rintro rfl
      rw [Store.living?_eq_none hs] at hfound
      cases hfound
    rw [hother h hne] at hfound
    obtain ⟨b', hb', rfl⟩ := hr.owned h found hfound
    refine ⟨b', (hmem b').mpr ⟨hb', ?_⟩, rfl⟩
    exact fun hc => hne (hr.eq_of_connection hb' hb hc ▸ rfl)

end Ready

end Realm
