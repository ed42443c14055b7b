import Claxedo.Lib.Table

/-! Writes that wait. A queue keeps one write of each key, merging what comes after into what waits;
taking the queue in does what taking in each write as it came would have done, where a write of one
key leaves alone what a write of another has touched. -/

namespace Claxedo.Lib

variable {σ α κ τ : Type*}

/-- One more write: merged where one of its key waits, last where none does. -/
def absorb [DecidableEq κ] (key : α → κ) (merge : α → α → α) (queue : List α) (a : α) : List α :=
  match Table.get key (key a) queue with
  | some prev => Table.put key (merge prev a) queue
  | none => Table.put key a queue

def coalesce [DecidableEq κ] (key : α → κ) (merge : α → α → α) (as : List α) : List α := as.foldl (absorb key merge) []

/-- When writes may wait: merging joins two writes of a key that agree on their tag, and a write
commutes with those of other keys once something of its own key is there. -/
structure Waits (key : α → κ) (tag : α → τ) (merge : α → α → α) (act : σ → α → σ) (Good : α → Prop) (Inv : σ → Prop)
    (There : κ → σ → Prop) : Prop where
  key_merge : ∀ p a, key (merge p a) = key p
  tag_merge : ∀ p a, tag (merge p a) = tag p
  good_merge : ∀ p a, Good p → Good a → Good (merge p a)
  inv : ∀ s a, Inv s → Good a → Inv (act s a)
  there : ∀ s a, Inv s → Good a → There (key a) (act s a)
  stays : ∀ s a k, Inv s → Good a → There k s → There k (act s a)
  act_merge : ∀ s p a, Inv s → Good p → Good a → key p = key a → tag p = tag a → act s (merge p a) = act (act s p) a
  comm : ∀ s a b, Inv s → Good a → Good b → key a ≠ key b → There (key a) s → act (act s b) a = act (act s a) b

section Queue

variable [DecidableEq κ] {key : α → κ} {merge : α → α → α}

theorem coalesce_snoc (as : List α) (a : α) : coalesce key merge (as ++ [a]) = absorb key merge (coalesce key merge as) a := by
  rw [coalesce, List.foldl_append]
  rfl

theorem mem_absorb {queue : List α} {a b : α} (hb : b ∈ absorb key merge queue a) :
    b ∈ queue ∨ b = a ∨ ∃ p ∈ queue, key p = key a ∧ b = merge p a := by
  unfold absorb at hb
  split at hb
  · rename_i prev hprev
    obtain ⟨hmem, hk⟩ := Table.mem_of_get hprev
    rcases Table.mem_put hb with rfl | hb
    · exact .inr (.inr ⟨prev, hmem, hk, rfl⟩)
    · exact .inl hb
  · rcases Table.mem_put hb with rfl | hb
    · exact .inr (.inl rfl)
    · exact .inl hb

/-- A queue holds the write that came last, as it came or merged into what waited. -/
theorem absorb_mem (key : α → κ) (merge : α → α → α) (queue : List α) (a : α) :
    a ∈ absorb key merge queue a ∨ ∃ p ∈ queue, key p = key a ∧ merge p a ∈ absorb key merge queue a := by
  unfold absorb
  split
  · rename_i prev hprev
    obtain ⟨hmem, hk⟩ := Table.mem_of_get hprev
    exact .inr ⟨prev, hmem, hk, Table.put_mem _ _⟩
  · exact .inl (Table.put_mem _ _)

theorem coalesce_eq_nil_iff {as : List α} : coalesce key merge as = [] ↔ as = [] := by
  rcases as.eq_nil_or_concat with rfl | ⟨as, a, rfl⟩
  · exact ⟨fun _ => rfl, fun _ => rfl⟩
  · refine ⟨fun h => ?_, fun h => by simp at h⟩
    rw [List.concat_eq_append, coalesce_snoc] at h
    rcases absorb_mem key merge (coalesce key merge as) a with ha | ⟨p, -, -, hp⟩
    · rw [h] at ha
      cases ha
    · rw [h] at hp
      cases hp

theorem nodup_coalesce (key : α → κ) (merge : α → α → α) (as : List α) : ((coalesce key merge as).map key).Nodup := by
  induction as using List.reverseRecOn with
  | nil => exact List.nodup_nil
  | append_singleton as a ih =>
    rw [coalesce_snoc]
    unfold absorb
    split <;> exact Table.nodup_keys_put ih

end Queue

namespace Waits

variable {key : α → κ} {tag : α → τ} {merge : α → α → α} {act : σ → α → σ} {Good : α → Prop}
  {Inv : σ → Prop} {There : κ → σ → Prop}

variable (h : Waits key tag merge act Good Inv There)

include h

variable {s : σ} {as : List α}

/-- A write moves past writes of other keys. -/
theorem foldl_comm {bs : List α} {a : α} (ha : Good a) (hbs : ∀ b ∈ bs, Good b ∧ key a ≠ key b) (hs : Inv s)
    (hthere : There (key a) s) : bs.foldl act (act s a) = act (bs.foldl act s) a := by
  induction bs generalizing s with
  | nil => rfl
  | cons b bs ih =>
    obtain ⟨⟨hb, hne⟩, hrest⟩ := List.forall_mem_cons.mp hbs
    rw [List.foldl_cons, List.foldl_cons, ← h.comm s a b hs ha hb hne hthere]
    exact ih hrest (h.inv s b hs hb) (h.stays s b _ hs hb hthere)

theorem inv_foldl (has : ∀ a ∈ as, Good a) (hs : Inv s) : Inv (as.foldl act s) := by
  induction as generalizing s with
  | nil => exact hs
  | cons a as ih =>
    obtain ⟨ha, hrest⟩ := List.forall_mem_cons.mp has
    exact ih hrest (h.inv s a hs ha)

variable [DecidableEq κ]

/-- What waits is good, and of the key and the tag of a write that came. -/
theorem of_mem_coalesce (hgood : ∀ a ∈ as, Good a) {p : α} (hp : p ∈ coalesce key merge as) :
    Good p ∧ ∃ a ∈ as, key a = key p ∧ tag a = tag p := by
  induction as using List.reverseRecOn generalizing p with
  | nil => cases hp
  | append_singleton as a ih =>
    have hgood' : ∀ a ∈ as, Good a := fun b hb => hgood b (List.mem_append_left _ hb)
    have ha : Good a := hgood a (List.mem_append_right _ List.mem_cons_self)
    rw [coalesce_snoc] at hp
    rcases mem_absorb hp with hp | rfl | ⟨q, hq, hk, rfl⟩
    · obtain ⟨hgoodp, b, hb, hkb⟩ := ih hgood' hp
      exact ⟨hgoodp, b, List.mem_append_left _ hb, hkb⟩
    · exact ⟨ha, p, List.mem_append_right _ List.mem_cons_self, rfl, rfl⟩
    · obtain ⟨hgoodq, b, hb, hkb, htb⟩ := ih hgood' hq
      exact ⟨h.good_merge q a hgoodq ha, b, List.mem_append_left _ hb, by rw [h.key_merge, hkb], by rw [h.tag_merge, htb]⟩

/-- Every write that came waits under its key. -/
theorem mem_keys_coalesce {a : α} (ha : a ∈ as) : key a ∈ (coalesce key merge as).map key := by
  induction as using List.reverseRecOn with
  | nil => cases ha
  | append_singleton as b ih =>
    rw [coalesce_snoc]
    unfold absorb
    rcases List.mem_append.mp ha with ha | ha
    · split
      all_goals
        rw [Table.keys_put]
        split_ifs
      · exact ih ha
      · exact List.mem_append_left _ (ih ha)
      · exact ih ha
      · exact List.mem_append_left _ (ih ha)
    · obtain rfl := List.mem_singleton.mp ha
      split
      · rename_i prev hprev
        obtain ⟨-, hk⟩ := Table.mem_of_get hprev
        exact List.mem_map.mpr ⟨_, Table.put_mem _ _, by rw [h.key_merge, hk]⟩
      · exact List.mem_map_of_mem (Table.put_mem _ _)

/-- Taking the queue in is taking in every write, in order. -/
theorem foldl_coalesce (hgood : ∀ a ∈ as, Good a) (htag : ∀ a ∈ as, ∀ b ∈ as, key a = key b → tag a = tag b) (hs : Inv s) :
    (coalesce key merge as).foldl act s = as.foldl act s := by
  induction as using List.reverseRecOn with
  | nil => rfl
  | append_singleton as a ih =>
    have hleft : ∀ b ∈ as, b ∈ as ++ [a] := fun b hb => List.mem_append_left _ hb
    have hlast : a ∈ as ++ [a] := List.mem_append_right _ List.mem_cons_self
    have hgood' : ∀ b ∈ as, Good b := fun b hb => hgood b (hleft b hb)
    have ha : Good a := hgood a hlast
    rw [List.foldl_append, ← ih hgood' fun b hb c hc => htag b (hleft b hb) c (hleft c hc), List.foldl_cons, List.foldl_nil,
      coalesce_snoc]
    unfold absorb
    rcases hget : Table.get key (key a) (coalesce key merge as) with _ | p
    · rw [Table.put_of_get_none hget, List.foldl_append]
      rfl
    · dsimp only
      obtain ⟨hp, hk⟩ := Table.mem_of_get hget
      obtain ⟨hgoodp, b, hb, hkb, htb⟩ := h.of_mem_coalesce hgood' hp
      have hmerged : Table.get key (key (merge p a)) (coalesce key merge as) = some p := by rw [h.key_merge, hk, hget]
      obtain ⟨before, after, hsplit, hput⟩ := Table.put_of_get hmerged
      have hall : ∀ q ∈ before ++ p :: after, Good q := fun q hq => (h.of_mem_coalesce hgood' (hsplit ▸ hq)).1
      have hnodup := nodup_coalesce key merge as
      rw [hsplit, List.map_append, List.map_cons, List.nodup_append, List.nodup_cons] at hnodup
      have hbefore : Inv (before.foldl act s) := h.inv_foldl (fun q hq => hall q (List.mem_append_left _ hq)) hs
      have htagp : tag p = tag a := htb.symm.trans (htag b (hleft b hb) a hlast (hkb.trans hk))
      rw [hput, hsplit, List.foldl_append, List.foldl_append, List.foldl_cons, List.foldl_cons,
        h.act_merge _ p a hbefore hgoodp ha hk htagp]
      refine h.foldl_comm ha (fun q hq => ⟨hall q (List.mem_append_right _ (List.mem_cons_of_mem _ hq)), fun hkq => ?_⟩)
        (h.inv _ p hbefore hgoodp) (hk ▸ h.there _ p hbefore hgoodp)
      exact hnodup.2.1.1 (List.mem_map.mpr ⟨q, hq, by rw [hk, hkq]⟩)

end Waits

end Claxedo.Lib
