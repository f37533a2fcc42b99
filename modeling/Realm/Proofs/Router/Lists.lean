import Realm.Router.Basic
import Mathlib.Data.List.Nodup

/-!
# Lists by topic

Mailboxes listed by topic, sifted and extended. A list that becomes empty disappears with its topic.
-/

namespace Realm

/-- The lists with only the mailboxes that pass; a list that becomes empty disappears. -/
def sift (p : MailboxId → Bool) (lists : List (Topic × List MailboxId)) :
    List (Topic × List MailboxId) :=
  (lists.map fun entry => (entry.1, entry.2.filter p)).filter fun entry => !entry.2.isEmpty

def listOf (topic : Topic) (lists : List (Topic × List MailboxId)) : List MailboxId :=
  (lists.lookup topic).getD []

def isListed (id : MailboxId) (lists : List (Topic × List MailboxId)) : Bool :=
  lists.any fun entry => id ∈ entry.2

section Lists

variable {p q : MailboxId → Bool} {id : MailboxId} {topic : Topic}
  {lists : List (Topic × List MailboxId)}

@[simp] theorem sift_nil : sift p [] = [] := rfl

theorem sift_cons (entry : Topic × List MailboxId) :
    sift p (entry :: lists) =
      if entry.2.filter p = [] then sift p lists
      else (entry.1, entry.2.filter p) :: sift p lists := by
  by_cases h : entry.2.filter p = [] <;> simp [sift, h]

theorem isListed_cons (entry : Topic × List MailboxId) :
    isListed id (entry :: lists) = (decide (id ∈ entry.2) || isListed id lists) := rfl

theorem isListed_iff : isListed id lists = true ↔ ∃ entry ∈ lists, id ∈ entry.2 := by
  simp [isListed]

theorem isListed_sift : isListed id (sift p lists) = (p id && isListed id lists) := by
  rw [Bool.eq_iff_iff, Bool.and_eq_true, isListed_iff, isListed_iff]
  constructor
  · rintro ⟨entry, hmem, hid⟩
    obtain ⟨old, hold, rfl⟩ := List.mem_map.mp (List.mem_of_mem_filter hmem)
    obtain ⟨hid, hp⟩ := List.mem_filter.mp hid
    exact ⟨hp, old, hold, hid⟩
  · rintro ⟨hp, entry, hmem, hid⟩
    have hkept : id ∈ entry.2.filter p := List.mem_filter.mpr ⟨hid, hp⟩
    refine ⟨(entry.1, entry.2.filter p), ?_, hkept⟩
    refine List.mem_filter.mpr ⟨List.mem_map_of_mem hmem, ?_⟩
    simp [List.ne_nil_of_mem hkept]

theorem sift_sift : sift p (sift q lists) = sift (fun id => q id && p id) lists := by
  induction lists with
  | nil => rfl
  | cons entry rest ih =>
      have hboth : (entry.2.filter q).filter p = entry.2.filter fun id => q id && p id := by
        rw [List.filter_filter]
        exact List.filter_congr fun id _ => Bool.and_comm _ _
      rw [sift_cons, sift_cons, ← hboth]
      by_cases hq : entry.2.filter q = []
      · simp [hq, ih]
      · rw [if_neg hq, sift_cons, ih]

theorem sift_congr (h : ∀ id, isListed id lists = true → p id = q id) :
    sift p lists = sift q lists := by
  induction lists with
  | nil => rfl
  | cons entry rest ih =>
      have hentry : entry.2.filter p = entry.2.filter q :=
        List.filter_congr fun id hid => h id (by simp [isListed_cons, hid])
      rw [sift_cons, sift_cons, hentry, ih fun id hid => h id (by simp [isListed_cons, hid])]

theorem sift_eq_self (hne : ∀ entry ∈ lists, entry.2 ≠ [])
    (hp : ∀ id, isListed id lists = true → p id = true) : sift p lists = lists := by
  induction lists with
  | nil => rfl
  | cons entry rest ih =>
      have hall : entry.2.filter p = entry.2 :=
        List.filter_eq_self.mpr fun id hid => hp id (by simp [isListed_cons, hid])
      rw [sift_cons, hall, if_neg (hne entry List.mem_cons_self)]
      rw [ih (fun e he => hne e (List.mem_cons_of_mem _ he))
        fun id hid => hp id (by simp [isListed_cons, hid])]

theorem keys_sift : ((sift p lists).map (·.1)).Sublist (lists.map (·.1)) := by
  have hmap : (lists.map fun entry => (entry.1, entry.2.filter p)).map (·.1) =
      lists.map (·.1) := by
    rw [List.map_map]
    rfl
  rw [← hmap]
  exact List.filter_sublist.map _

theorem listOf_cons (entry : Topic × List MailboxId) :
    listOf topic (entry :: lists) = if topic = entry.1 then entry.2 else listOf topic lists := by
  obtain ⟨key, ids⟩ := entry
  by_cases h : topic = key
  · simp [listOf, h]
  · have hkey : (topic == key) = false := beq_false_of_ne h
    simp [listOf, List.lookup_cons, hkey, h]

theorem isListed_of_mem_listOf (h : id ∈ listOf topic lists) : isListed id lists = true := by
  induction lists with
  | nil => cases h
  | cons entry rest ih =>
    rw [listOf_cons] at h
    rw [isListed_cons, Bool.or_eq_true]
    split at h
    · exact .inl (by simpa using h)
    · exact .inr (ih h)

theorem listOf_of_not_mem (h : topic ∉ lists.map (·.1)) : listOf topic lists = [] := by
  have hnone : lists.lookup topic = none := by
    rw [List.lookup_eq_none_iff]
    intro entry hmem
    have hne : topic ≠ entry.1 := fun heq => h (heq ▸ List.mem_map_of_mem hmem)
    simpa using hne
  simp [listOf, hnone]

theorem listOf_sift (hn : (lists.map (·.1)).Nodup) :
    listOf topic (sift p lists) = (listOf topic lists).filter p := by
  induction lists with
  | nil => rfl
  | cons entry rest ih =>
      rw [List.map_cons, List.nodup_cons] at hn
      rw [sift_cons, listOf_cons]
      by_cases htopic : topic = entry.1
      · subst htopic
        have hnot : entry.1 ∉ (sift p rest).map (·.1) := fun hm => hn.1 (keys_sift.subset hm)
        by_cases hnil : entry.2.filter p = []
        · rw [if_pos hnil, if_pos rfl, hnil, listOf_of_not_mem hnot]
        · rw [if_neg hnil, listOf_cons, if_pos rfl, if_pos rfl]
      · by_cases hnil : entry.2.filter p = []
        · rw [if_pos hnil, if_neg htopic, ih hn.2]
        · rw [if_neg hnil, listOf_cons, if_neg htopic, if_neg htopic, ih hn.2]

theorem flatMap_sift : (sift p lists).flatMap (·.2) = (lists.flatMap (·.2)).filter p := by
  induction lists with
  | nil => rfl
  | cons entry rest ih =>
      rw [sift_cons, List.flatMap_cons, List.filter_append, ← ih]
      split
      · next hnil => rw [hnil, List.nil_append]
      · rw [List.flatMap_cons]

theorem length_sift :
    (sift p lists).length = (lists.filter fun entry => entry.2.any p).length := by
  induction lists with
  | nil => rfl
  | cons entry rest ih =>
      rw [sift_cons]
      by_cases hany : entry.2.any p = true
      · have hne : entry.2.filter p ≠ [] := by simpa using hany
        rw [if_neg hne, List.filter_cons_of_pos (by simpa using hany), List.length_cons,
          List.length_cons, ih]
      · have hnil : entry.2.filter p = [] := by simpa using hany
        rw [if_pos hnil, List.filter_cons_of_neg (by simpa using hany), ih]

theorem ne_nil_of_mem_sift {entry : Topic × List MailboxId} (h : entry ∈ sift p lists) :
    entry.2 ≠ [] := by
  simpa using (List.mem_filter.mp h).2

end Lists

section Append

variable {id other : MailboxId} {topic key : Topic} {lists : List (Topic × List MailboxId)}

theorem isListed_append :
    isListed other (Router.append topic id lists) = (decide (other = id) || isListed other lists) := by
  induction lists with
  | nil => simp [Router.append, isListed]
  | cons entry rest ih =>
      unfold Router.append
      split
      · simp only [isListed_cons, List.mem_append, List.mem_singleton, Bool.decide_or]
        ac_rfl
      · simp only [isListed_cons, ih]
        ac_rfl

theorem listOf_append :
    listOf key (Router.append topic id lists) =
      listOf key lists ++ if topic = key then [id] else [] := by
  induction lists with
  | nil =>
      rw [Router.append, listOf_cons]
      by_cases h : key = topic
      · simp [h, listOf]
      · simp [h, Ne.symm h, listOf]
  | cons entry rest ih =>
      unfold Router.append
      split
      · next heq =>
          subst heq
          by_cases h : key = entry.1
          · simp [listOf_cons, h]
          · simp [listOf_cons, h, Ne.symm h]
      · next hne =>
          rw [listOf_cons, listOf_cons, ih]
          by_cases h : key = entry.1
          · have hkey : ¬ topic = entry.1 := fun heq => hne heq.symm
            simp [h, hkey]
          · simp [h]

theorem ne_nil_of_mem_append (hne : ∀ entry ∈ lists, entry.2 ≠ []) :
    ∀ entry ∈ Router.append topic id lists, entry.2 ≠ [] := by
  induction lists with
  | nil => simp [Router.append]
  | cons first rest ih =>
      have hrest := ih fun e he => hne e (List.mem_cons_of_mem _ he)
      have hfirst := hne first List.mem_cons_self
      unfold Router.append
      split
      · simpa using fun a b hab => hne (a, b) (List.mem_cons_of_mem _ hab)
      · simpa using ⟨hfirst, fun a b hab => hrest (a, b) hab⟩

theorem keys_append : (Router.append topic id lists).map (·.1) =
    if topic ∈ lists.map (·.1) then lists.map (·.1) else lists.map (·.1) ++ [topic] := by
  induction lists with
  | nil => rfl
  | cons entry rest ih =>
      unfold Router.append
      by_cases h : entry.1 = topic
      · simp [h]
      · rw [if_neg h, List.map_cons, ih]
        by_cases hm : topic ∈ rest.map (·.1)
        · simp [hm]
        · simp [hm, Ne.symm h]

theorem nodup_keys_append (hn : (lists.map (·.1)).Nodup) :
    ((Router.append topic id lists).map (·.1)).Nodup := by
  rw [keys_append]
  split
  · exact hn
  · next hm =>
      rw [← List.concat_eq_append]
      exact hn.concat hm

end Append

end Realm
