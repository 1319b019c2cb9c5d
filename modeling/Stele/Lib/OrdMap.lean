import Mathlib.Data.List.Basic
import Mathlib.Data.List.Lookmap
import Mathlib.Order.Basic
import Mathlib.Data.List.Sort

/-!
# Ordered key-value maps

The part of a key-value store that one key prefix covers: a finite map that is read by key and
iterated in key order. `OrdMap` keeps the bindings in a list with strictly increasing keys, and the
order is a field, so iteration order is not a separate invariant.
-/

namespace Lib

open List

structure OrdMap (K V : Type) [LinearOrder K] where
  toList : List (K × V)
  sorted : (toList.map Prod.fst).Pairwise (· < ·)

namespace OrdMap

variable {K V : Type} [LinearOrder K] {m : OrdMap K V}

@[ext] lemma ext {n : OrdMap K V} (h : m.toList = n.toList) : m = n := by
  cases m; cases n; cases h; rfl

def empty : OrdMap K V := ⟨[], List.Pairwise.nil⟩

def keys (m : OrdMap K V) : List K := m.toList.map Prod.fst

def getList (k : K) : List (K × V) → Option V
  | [] => none
  | (k', v) :: l => if k = k' then some v else getList k l

def get (m : OrdMap K V) (k : K) : Option V := getList k m.toList

def setList (k : K) (v : V) : List (K × V) → List (K × V)
  | [] => [(k, v)]
  | (k', v') :: l =>
    if k < k' then (k, v) :: (k', v') :: l
    else if k = k' then (k, v) :: l
    else (k', v') :: setList k v l

variable {k : K} {v : V} {l : List (K × V)}

lemma mem_keys_setList {x : K} (h : x ∈ (setList k v l).map Prod.fst) :
    x = k ∨ x ∈ l.map Prod.fst := by
  induction l with
  | nil => simpa [setList] using h
  | cons b l ih =>
    obtain ⟨k', v'⟩ := b
    unfold setList at h
    split at h
    · simpa using h
    · split at h
      · simp only [map_cons, mem_cons] at h ⊢
        rcases h with h | h
        · exact .inl h
        · exact .inr (.inr h)
      · simp only [map_cons, mem_cons] at h ⊢
        rcases h with h | h
        · exact .inr (.inl h)
        · rcases ih h with h | h
          · exact .inl h
          · exact .inr (.inr h)

lemma setList_sorted (h : (l.map Prod.fst).Pairwise (· < ·)) :
    ((setList k v l).map Prod.fst).Pairwise (· < ·) := by
  induction l with
  | nil => simp [setList]
  | cons b l ih =>
    obtain ⟨k', v'⟩ := b
    simp only [map_cons, pairwise_cons] at h
    obtain ⟨hhead, htail⟩ := h
    unfold setList
    split
    · rename_i hlt
      simp only [map_cons, pairwise_cons, mem_cons]
      refine ⟨?_, hhead, htail⟩
      rintro x (rfl | hx)
      · exact hlt
      · exact lt_trans hlt (hhead x hx)
    · split
      · rename_i heq
        subst heq
        simp only [map_cons, pairwise_cons]
        exact ⟨hhead, htail⟩
      · rename_i hnlt hne
        simp only [map_cons, pairwise_cons]
        refine ⟨fun x hx => ?_, ih htail⟩
        rcases mem_keys_setList hx with rfl | hx
        · exact lt_of_le_of_ne (not_lt.mp hnlt) (Ne.symm hne)
        · exact hhead x hx

def set (m : OrdMap K V) (k : K) (v : V) : OrdMap K V :=
  ⟨setList k v m.toList, setList_sorted m.sorted⟩

@[simp] lemma get_empty (k : K) : (empty : OrdMap K V).get k = none := rfl

lemma getList_setList_self (k : K) (v : V) (l : List (K × V)) :
    getList k (setList k v l) = some v := by
  induction l with
  | nil => simp [setList, getList]
  | cons b l ih =>
    obtain ⟨k', v'⟩ := b
    unfold setList
    split
    · simp [getList]
    · split
      · simp [getList]
      · rename_i hne
        rw [getList, if_neg hne, ih]

@[simp] lemma get_set_self (m : OrdMap K V) (k : K) (v : V) : (m.set k v).get k = some v :=
  getList_setList_self k v m.toList

lemma getList_setList_ne {k' : K} (h : k' ≠ k) (v : V) (l : List (K × V)) :
    getList k' (setList k v l) = getList k' l := by
  induction l with
  | nil => simp [setList, getList, h]
  | cons b l ih =>
    obtain ⟨kb, vb⟩ := b
    unfold setList
    split
    · simp [getList, h]
    · split
      · rename_i heq
        subst heq
        simp [getList, h]
      · simp only [getList]
        rw [ih]

lemma get_set_ne (m : OrdMap K V) {k' : K} (h : k' ≠ k) (v : V) : (m.set k v).get k' = m.get k' :=
  getList_setList_ne h v m.toList

lemma mem_keys_of_getList (h : getList k l = some v) : k ∈ l.map Prod.fst := by
  induction l with
  | nil => cases h
  | cons b l ih =>
    obtain ⟨k', v'⟩ := b
    rw [getList] at h
    by_cases hk : k = k'
    · simp [hk]
    · rw [if_neg hk] at h
      exact mem_cons_of_mem _ (ih h)

lemma mem_keys_of_get (h : m.get k = some v) : k ∈ m.keys := mem_keys_of_getList h

lemma get_of_mem (h : (k, v) ∈ m.toList) : m.get k = some v := by
  obtain ⟨l, hsorted⟩ := m
  unfold get
  simp only at h ⊢
  induction l with
  | nil => cases h
  | cons b l ih =>
    obtain ⟨k', v'⟩ := b
    simp only [map_cons, pairwise_cons] at hsorted
    rcases mem_cons.mp h with heq | h
    · cases heq
      rw [getList, if_pos rfl]
    · have hlt := hsorted.1 k (mem_map_of_mem h)
      rw [getList, if_neg (ne_of_gt hlt)]
      exact ih hsorted.2 h

lemma le_of_getLast {last : K} {w : V} (h : m.get k = some v)
    (hlast : m.toList.getLast? = some (last, w)) : k ≤ last := by
  obtain ⟨init, hinit⟩ := getLast?_eq_some_iff.mp hlast
  have hkey := mem_keys_of_get h
  have hsorted := m.sorted
  rw [keys, hinit, map_append, mem_append] at hkey
  rw [hinit, map_append] at hsorted
  rcases hkey with hkey | hkey
  · exact le_of_lt ((pairwise_append.mp hsorted).2.2 k hkey last (by simp))
  · rw [show k = last by simpa using hkey]

lemma setList_of_lt (h : ∀ x ∈ l.map Prod.fst, x < k) (v : V) :
    setList k v l = l ++ [(k, v)] := by
  induction l with
  | nil => rfl
  | cons b l ih =>
    obtain ⟨k', v'⟩ := b
    have hk : k' < k := h k' (by simp)
    have htail : ∀ x ∈ l.map Prod.fst, x < k := fun x hx => h x (mem_cons_of_mem _ hx)
    rw [setList, if_neg (lt_asymm hk), if_neg (ne_of_gt hk), cons_append, ih htail]

/-- **Writing above every key appends to the iteration order.** -/
theorem set_toList_of_lt (h : ∀ x ∈ m.keys, x < k) (v : V) :
    (m.set k v).toList = m.toList ++ [(k, v)] :=
  setList_of_lt h v

/-! ## Sequences -/

section
variable {V : Type}

def IsSeq (m : OrdMap Nat V) (vs : List V) : Prop := m.toList = vs.zipIdx.map Prod.swap

lemma isSeq_empty : (empty : OrdMap Nat V).IsSeq [] := rfl

namespace IsSeq

variable {m : OrdMap Nat V} {vs : List V} (h : m.IsSeq vs)
include h

lemma keys_eq : m.keys = List.range vs.length := by
  unfold keys
  rw [h, map_map, show Prod.fst ∘ Prod.swap = (Prod.snd : V × Nat → Nat) from rfl,
    zipIdx_map_snd, range_eq_range']

lemma values_eq : m.toList.map Prod.snd = vs := by
  rw [h, map_map, show Prod.snd ∘ Prod.swap = (Prod.fst : V × Nat → V) from rfl, zipIdx_map_fst]

lemma length_eq : m.toList.length = vs.length := by rw [h, length_map, length_zipIdx]

lemma set (v : V) : (m.set vs.length v).IsSeq (vs ++ [v]) := by
  have hlt : ∀ x ∈ m.keys, x < vs.length := fun x hx => by
    rw [h.keys_eq] at hx
    exact mem_range.mp hx
  unfold IsSeq
  rw [set_toList_of_lt hlt, h, zipIdx_append, map_append, Nat.zero_add]
  rfl

end IsSeq

lemma getList_zipIdx (vs : List V) (k i : Nat) :
    getList (k + i) ((vs.zipIdx k).map Prod.swap) = vs[i]? := by
  induction vs generalizing k i with
  | nil => rfl
  | cons v vs ih =>
    rw [zipIdx_cons, map_cons, Prod.swap_prod_mk, getList]
    cases i with
    | zero => simp
    | succ i =>
      rw [if_neg (by omega), getElem?_cons_succ, ← ih (k + 1) i]
      congr 1
      omega

lemma IsSeq.get {m : OrdMap Nat V} {vs : List V} (h : m.IsSeq vs) (i : Nat) :
    m.get i = vs[i]? := by
  have := getList_zipIdx vs 0 i
  rw [Nat.zero_add] at this
  rw [← this, OrdMap.get, h]

end

end OrdMap

end Lib
