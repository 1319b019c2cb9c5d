import Mathlib.Data.List.AList

/-!
# Least-recently-used caches

A cache as `container/list` programs build it: a doubly linked list of elements, most recent first,
and a map from keys to list elements. An element is named by a number that is never reused, as its
address is, so the list and the map are two structures that the operations keep in step.
-/

namespace Lib

open List AList

/-- A list element: its identity, the key it was pushed for and its value. -/
structure LruElem (K V : Type) where
  el : Nat
  key : K
  value : V

structure Lru (K V : Type) where
  order : List (LruElem K V)
  index : AList fun _ : K => Nat
  fresh : Nat

namespace Lru

variable {K V : Type} [DecidableEq K]

def empty : Lru K V := ⟨[], ∅, 0⟩

def moveToFront (c : Lru K V) (el : Nat) : Lru K V :=
  match c.order.find? (·.el = el) with
  | some e => { c with order := e :: c.order.filter (·.el ≠ el) }
  | none => c

def setValue (c : Lru K V) (el : Nat) (v : V) : Lru K V :=
  { c with order := c.order.map fun e => if e.el = el then { e with value := v } else e }

def evict (c : Lru K V) : Lru K V :=
  match c.order.getLast? with
  | some e => { c with order := c.order.dropLast, index := c.index.erase e.key }
  | none => c

def pushFront (c : Lru K V) (k : K) (v : V) : Lru K V :=
  { order := ⟨c.fresh, k, v⟩ :: c.order, index := c.index.insert k c.fresh, fresh := c.fresh + 1 }

def put (max : Nat) (c : Lru K V) (k : K) (v : V) : Lru K V :=
  match c.index.lookup k with
  | some el => (c.setValue el v).moveToFront el
  | none =>
    let c := c.pushFront k v
    if 0 < max ∧ max < c.order.length then c.evict else c

def get (c : Lru K V) (k : K) : Option (V × Lru K V) :=
  match c.index.lookup k with
  | some el => (c.order.find? (·.el = el)).map fun e => (e.value, c.moveToFront el)
  | none => none

/-! ## What a cache holds -/

structure Inv (Good : K → V → Prop) (c : Lru K V) : Prop where
  good : ∀ e ∈ c.order, Good e.key e.value
  keyed : ∀ k el, c.index.lookup k = some el → ∀ e ∈ c.order, e.el = el → e.key = k
  order_lt : ∀ e ∈ c.order, e.el < c.fresh
  index_lt : ∀ k el, c.index.lookup k = some el → el < c.fresh

lemma inv_empty {Good : K → V → Prop} : (empty : Lru K V).Inv Good where
  good := by simp [empty]
  keyed := by simp [empty]
  order_lt := by simp [empty]
  index_lt := by simp [empty]

lemma mem_moveToFront {c : Lru K V} {el : Nat} {e : LruElem K V}
    (h : e ∈ (c.moveToFront el).order) : e ∈ c.order := by
  unfold moveToFront at h
  split at h
  · rename_i x hx
    rcases mem_cons.mp h with rfl | h
    · exact mem_of_find?_eq_some hx
    · exact mem_of_mem_filter h
  · exact h

lemma moveToFront_index (c : Lru K V) (el : Nat) : (c.moveToFront el).index = c.index := by
  unfold moveToFront
  split <;> rfl

lemma moveToFront_fresh (c : Lru K V) (el : Nat) : (c.moveToFront el).fresh = c.fresh := by
  unfold moveToFront
  split <;> rfl

variable {c : Lru K V}

namespace Inv

variable {Good : K → V → Prop} (h : c.Inv Good)
include h

lemma mono {Good' : K → V → Prop} (hle : ∀ k v, Good k v → Good' k v) : c.Inv Good' where
  good e he := hle _ _ (h.good e he)
  keyed := h.keyed
  order_lt := h.order_lt
  index_lt := h.index_lt

lemma moveToFront (el : Nat) : (c.moveToFront el).Inv Good where
  good e he := h.good e (mem_moveToFront he)
  keyed k el' hk e he := by
    rw [moveToFront_index] at hk
    exact h.keyed k el' hk e (mem_moveToFront he)
  order_lt e he := by
    rw [moveToFront_fresh]
    exact h.order_lt e (mem_moveToFront he)
  index_lt k el' hk := by
    rw [moveToFront_index] at hk
    rw [moveToFront_fresh]
    exact h.index_lt k el' hk

lemma get {k : K} {v : V} {c' : Lru K V} (hget : c.get k = some (v, c')) :
    Good k v ∧ c'.Inv Good := by
  unfold Lru.get at hget
  cases hk : c.index.lookup k with
  | none => simp [hk] at hget
  | some el =>
    simp only [hk, Option.map_eq_some_iff, Prod.mk.injEq] at hget
    obtain ⟨e, hfind, rfl, rfl⟩ := hget
    have hmem := mem_of_find?_eq_some hfind
    have hel : e.el = el := by simpa using find?_some hfind
    exact ⟨h.keyed k el hk e hmem hel ▸ h.good e hmem, h.moveToFront el⟩

lemma setValue {k : K} {el : Nat} {v : V} (hk : c.index.lookup k = some el) (hv : Good k v) :
    (c.setValue el v).Inv Good := by
  have hmem : ∀ e ∈ (c.setValue el v).order, ∃ x ∈ c.order, e.el = x.el ∧ e.key = x.key ∧
      (e.value = x.value ∨ x.el = el ∧ e.value = v) := by
    intro e he
    obtain ⟨x, hx, rfl⟩ := mem_map.mp he
    by_cases hel : x.el = el
    · exact ⟨x, hx, by simp [hel]⟩
    · exact ⟨x, hx, by simp [hel]⟩
  refine ⟨?_, ?_, ?_, h.index_lt⟩
  · intro e he
    obtain ⟨x, hx, -, hkey, hval | ⟨hel, hval⟩⟩ := hmem e he
    · rw [hkey, hval]
      exact h.good x hx
    · rw [hkey, hval, h.keyed k el hk x hx hel]
      exact hv
  · intro k' el' hk' e he hel'
    obtain ⟨x, hx, hel, hkey, -⟩ := hmem e he
    rw [hkey]
    exact h.keyed k' el' hk' x hx (hel ▸ hel')
  · intro e he
    obtain ⟨x, hx, hel, -⟩ := hmem e he
    rw [hel]
    exact h.order_lt x hx

lemma evict : c.evict.Inv Good := by
  unfold Lru.evict
  split
  · rename_i last hlast
    have hsub : ∀ e ∈ c.order.dropLast, e ∈ c.order := fun e he =>
      (dropLast_sublist c.order).subset he
    have hold : ∀ k el, (c.index.erase last.key).lookup k = some el →
        c.index.lookup k = some el := by
      intro k el hk
      by_cases hkey : k = last.key
      · subst hkey
        simp at hk
      · rwa [lookup_erase_ne hkey] at hk
    exact ⟨fun e he => h.good e (hsub e he),
      fun k el hk e he => h.keyed k el (hold k el hk) e (hsub e he),
      fun e he => h.order_lt e (hsub e he), fun k el hk => h.index_lt k el (hold k el hk)⟩
  · exact h

lemma pushFront {k : K} {v : V} (hv : Good k v) : (c.pushFront k v).Inv Good := by
  have hindex : ∀ k' el, (c.index.insert k c.fresh).lookup k' = some el →
      (k' = k ∧ el = c.fresh) ∨ c.index.lookup k' = some el := by
    intro k' el hk
    by_cases hkey : k' = k
    · subst hkey
      rw [lookup_insert, Option.some.injEq] at hk
      exact .inl ⟨rfl, hk.symm⟩
    · rw [lookup_insert_ne hkey] at hk
      exact .inr hk
  refine ⟨?_, ?_, ?_, ?_⟩
  · intro e he
    rcases mem_cons.mp he with rfl | he
    · exact hv
    · exact h.good e he
  · intro k' el hk e he hel
    rcases hindex k' el hk with ⟨rfl, rfl⟩ | hk
    · rcases mem_cons.mp he with rfl | he
      · rfl
      · exact absurd hel (Nat.ne_of_lt (h.order_lt e he))
    · rcases mem_cons.mp he with rfl | he
      · exact absurd hel (Nat.ne_of_gt (h.index_lt k' el hk))
      · exact h.keyed k' el hk e he hel
  · intro e he
    rcases mem_cons.mp he with rfl | he
    · exact Nat.lt_succ_self _
    · exact Nat.lt_succ_of_lt (h.order_lt e he)
  · intro k' el hk
    rcases hindex k' el hk with ⟨-, rfl⟩ | hk
    · exact Nat.lt_succ_self _
    · exact Nat.lt_succ_of_lt (h.index_lt k' el hk)

/-- **A write of a good value keeps the cache good**, whatever it evicts. -/
theorem put (max : Nat) {k : K} {v : V} (hv : Good k v) : (c.put max k v).Inv Good := by
  unfold Lru.put
  cases hk : c.index.lookup k with
  | some el => exact (h.setValue hk hv).moveToFront el
  | none =>
    simp only
    split
    · exact (h.pushFront hv).evict
    · exact h.pushFront hv

end Inv

/-! ## The map and the list in step -/

/-- The keys of the elements, each with its element. -/
def links (c : Lru K V) : List (K × Nat) := c.order.map fun e => (e.key, e.el)

/-- **The map and the list are in bijection, within the bound**: no element is listed twice, and the
map leads from each listed key to its element and nowhere else. -/
structure Linked (max : Nat) (c : Lru K V) : Prop where
  nodup : (c.links.map Prod.snd).Nodup
  lookup_iff : ∀ k el, c.index.lookup k = some el ↔ (k, el) ∈ c.links
  fresh : ∀ x ∈ c.links, x.2 < c.fresh
  bound : 0 < max → c.links.length ≤ max

lemma linked_empty (max : Nat) : (empty : Lru K V).Linked max :=
  ⟨.nil, by simp [empty, links], by simp [empty, links], by simp [empty, links]⟩

omit [DecidableEq K] in
lemma setValue_links (c : Lru K V) (el : Nat) (v : V) : (c.setValue el v).links = c.links := by
  rw [links, links, setValue, map_map]
  refine map_congr_left fun e _ => ?_
  simp only [Function.comp_apply]
  split <;> rfl

lemma cons_filter_perm {α : Type} {f : α → Nat} {n : Nat} {l : List α} {x : α}
    (hnodup : (l.map f).Nodup) (hfind : l.find? (f · = n) = some x) :
    (x :: l.filter (f · ≠ n)).Perm l := by
  induction l with
  | nil => cases hfind
  | cons y l ih =>
    obtain ⟨hnot, hnodup⟩ := nodup_cons.mp hnodup
    by_cases hy : f y = n
    · obtain rfl : y = x := by simpa [hy] using hfind
      have hall : l.filter (f · ≠ n) = l := filter_eq_self.mpr fun z hz => by
        simpa using fun heq => hnot (mem_map.mpr ⟨z, hz, heq.trans hy.symm⟩)
      rw [filter_cons_of_neg (by simpa using hy), hall]
    · have hrest : l.find? (f · = n) = some x := by simpa [hy] using hfind
      rw [filter_cons_of_pos (by simpa using hy)]
      exact (List.Perm.swap _ _ _).trans ((ih hnodup hrest).cons y)

namespace Linked

variable {max : Nat} (h : c.Linked max)
include h

lemma of_perm {c' : Lru K V} (hperm : c'.links.Perm c.links) (hindex : c'.index = c.index)
    (hfresh : c'.fresh = c.fresh) : c'.Linked max where
  nodup := (hperm.map Prod.snd).nodup_iff.mpr h.nodup
  lookup_iff k el := by rw [hindex, hperm.mem_iff, h.lookup_iff]
  fresh x hx := by
    rw [hfresh]
    exact h.fresh x (hperm.mem_iff.mp hx)
  bound hmax := hperm.length_eq ▸ h.bound hmax

lemma moveToFront (el : Nat) : (c.moveToFront el).Linked max := by
  refine h.of_perm ?_ (moveToFront_index c el) (moveToFront_fresh c el)
  unfold Lru.moveToFront
  split
  · rename_i e he
    have hnodup := h.nodup
    rw [links, map_map] at hnodup
    exact (cons_filter_perm hnodup he).map _
  · exact .refl _

lemma get {k : K} {v : V} {c' : Lru K V} (hget : c.get k = some (v, c')) : c'.Linked max := by
  unfold Lru.get at hget
  cases hk : c.index.lookup k with
  | none => simp [hk] at hget
  | some el =>
    simp only [hk, Option.map_eq_some_iff, Prod.mk.injEq] at hget
    obtain ⟨e, -, -, rfl⟩ := hget
    exact h.moveToFront el

lemma evict : c.evict.Linked (c.links.length - 1) := by
  unfold Lru.evict
  cases hlast : c.order.getLast? with
  | none =>
    have hnil : c.links = [] := by rw [links, getLast?_eq_none_iff.mp hlast, map_nil]
    exact ⟨h.nodup, h.lookup_iff, h.fresh, by simp [hnil]⟩
  | some e =>
    obtain ⟨rest, hrest⟩ := getLast?_eq_some_iff.mp hlast
    have hlinks : c.links = rest.map (fun e => (e.key, e.el)) ++ [(e.key, e.el)] := by
      rw [links, hrest, map_append, map_singleton]
    have hdrop : c.order.dropLast = rest := by rw [hrest, dropLast_concat]
    simp only [hdrop]
    generalize hkept : rest.map (fun e => (e.key, e.el)) = kept at hlinks
    have hnodup := h.nodup
    rw [hlinks, map_append, nodup_append] at hnodup
    refine ⟨by simpa [links, hkept] using hnodup.1, fun k el => ?_, fun x hx => ?_, fun _ => ?_⟩
    · have hmem : (k, el) ∈ c.links ↔ (k, el) ∈ kept ∨ (k, el) = (e.key, e.el) := by
        rw [hlinks, mem_append, mem_singleton]
      show _ ↔ (k, el) ∈ rest.map _
      rw [hkept]
      by_cases hk : k = e.key
      · subst hk
        -- the key has one element, and it is the last one
        refine ⟨fun hnone => by simp at hnone, fun hin => ?_⟩
        have hboth := (h.lookup_iff e.key e.el).mpr (by simp [hlinks])
        rw [(h.lookup_iff e.key el).mpr (hmem.mpr (.inl hin)), Option.some.injEq] at hboth
        exact absurd hboth (hnodup.2.2 el (mem_map_of_mem hin) e.el (by simp))
      · rw [lookup_erase_ne hk, h.lookup_iff, hmem]
        exact or_iff_left fun heq => hk (congrArg Prod.fst heq)
    · have hx : x ∈ kept := hkept ▸ hx
      exact h.fresh x (by simp [hlinks, hx])
    · simp [links, hrest]

lemma pushFront {k : K} (hk : c.index.lookup k = none) (v : V) :
    (c.pushFront k v).Linked (c.links.length + 1) where
  nodup := nodup_cons.mpr ⟨fun hin => by
    obtain ⟨x, hx, heq⟩ := mem_map.mp hin
    exact absurd heq (Nat.ne_of_lt (h.fresh x hx)), h.nodup⟩
  lookup_iff k' el := by
    show (c.index.insert k c.fresh).lookup k' = some el ↔ (k', el) ∈ (k, c.fresh) :: c.links
    rw [mem_cons, ← h.lookup_iff]
    by_cases hkey : k' = k
    · subst hkey
      simp [hk, eq_comm]
    · simp [lookup_insert_ne hkey, hkey]
  fresh x hx := by
    rcases mem_cons.mp hx with rfl | hx
    · exact Nat.lt_succ_self _
    · exact Nat.lt_succ_of_lt (h.fresh x hx)
  bound _ := Nat.le_refl _

/-- **A write keeps the map and the list in step**, and evicts when the list would be too long. -/
theorem put (k : K) (v : V) : (c.put max k v).Linked max := by
  unfold Lru.put
  cases hk : c.index.lookup k with
  | some el =>
    have hset : (c.setValue el v).Linked max := h.of_perm (by rw [setValue_links]) rfl rfl
    exact hset.moveToFront el
  | none =>
    have hpush := h.pushFront hk v
    have hlen : (c.pushFront k v).order.length = (c.pushFront k v).links.length := by simp [links]
    simp only
    split
    · have hevict := hpush.evict
      have hold : (c.pushFront k v).links.length = c.links.length + 1 := rfl
      have hbound := h.bound
      have hshort := hevict.bound
      exact ⟨hevict.nodup, hevict.lookup_iff, hevict.fresh, fun hmax => by omega⟩
    · rename_i hfits
      exact ⟨hpush.nodup, hpush.lookup_iff, hpush.fresh, fun hmax => by omega⟩

end Linked

end Lru

end Lib
