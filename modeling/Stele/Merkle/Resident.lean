import Stele.Merkle.Bounded

/-!
# What stays in memory (`pkg/merkle`)

Each of the two caches is a map and a list that every lookup reorders. Whatever is appended and
asked for, and whichever reads of the leaf store fail or find nothing on the way, the map and the
list stay in step, within the bound, and what they hold are hashes of the tree.
-/

namespace Stele

open Lib List

/-- What the store has are leaves of the tree. -/
def LeafStore.Faithful (leaves : List Bytes) : LeafStore → Prop
  | .mem m => ∀ i h, m.lookup i = some h → leaves[i]? = some h
  | .adapter => True

namespace Tree

variable {R : RangeImpl Bytes}

/-- A read that finds a hash finds that of the leaf. It may also fail, or find nothing. -/
def TrueReads (leaves : List Bytes) (read : LeafReads) : Prop :=
  ∀ k i h, read k i = .ok (some h) → leaves[i]? = some h

def Use.TrueReads (leaves : List Bytes) : Use → Prop
  | .appendLeafHash _ => True
  | .inclusionProof read _ _ => Tree.TrueReads leaves read
  | .consistencyProof read _ _ => Tree.TrueReads leaves read

def TrueUses : List Bytes → List Use → Prop
  | _, [] => True
  | leaves, u :: us => u.TrueReads leaves ∧ TrueUses (leaves ++ u.leaf.toList) us

/-- The caches are within their bounds and in step with their maps. -/
structure Linked (maxInternalNodes maxLeafNodes : Nat) (t : Tree R) : Prop where
  maxLeaf : t.maxLeaf = maxLeafNodes
  leafLRU : t.leafLRU.Linked maxLeafNodes
  maxInternal : t.maxInternal = maxInternalNodes
  internal : t.internal.Linked maxInternalNodes

/-- The tree is ready for any call, its caches are in step, and its store has no other leaves. -/
structure Kept (C : Crypto) (RngHolds : R.Rng → List Bytes → Prop)
    (maxInternalNodes maxLeafNodes : Nat) (leaves : List Bytes) (t : Tree R) : Prop where
  ready : Call.Ready C RngHolds leaves ⟨t, 0⟩
  linked : t.Linked maxInternalNodes maxLeafNodes
  store : t.leafStore.Faithful leaves

/-! ## A call touches the tree by its lookups -/

variable {C : Crypto} {c : Call R}

section
variable {read : LeafReads} {P : ProofImpl Bytes} {I : Tree R → Prop}

lemma andThen_keeps {α β : Type} {x : Call R × Res α} {k : Call R → α → Call R × Res β}
    (hx : I x.1.tree) (hk : ∀ c a, I c.tree → I (k c a).1.tree) :
    I (Call.andThen x k).1.tree := by
  obtain ⟨c, f | a⟩ := x
  · exact hx
  · exact hk c a hx

variable (hnode : ∀ (c : Call R) id, I c.tree → I (nodeHash read c id).1.tree) (h : I c.tree)
include hnode h

lemma subRoot_keeps (fuel start stop : Nat) :
    I (subRoot C read fuel c start stop).1.tree := by
  induction fuel generalizing c start stop with
  | zero => exact h
  | succ fuel ih =>
    rw [subRoot]
    split
    · refine andThen_keeps (hnode c _ h) fun c found hc => ?_
      cases found <;> exact hc
    · exact andThen_keeps (ih h _ _) fun c left hc => andThen_keeps (ih hc _ _) fun c right hc => hc

lemma materialiseNodes_keeps (ids : List NodeID) :
    I (materialiseNodes C read c ids).1.tree := by
  induction ids generalizing c with
  | nil => exact h
  | cons id ids ih =>
    rw [materialiseNodes]
    refine andThen_keeps ?_ fun c x hc => andThen_keeps (ih hc) fun c xs hc => hc
    refine andThen_keeps (hnode c id h) fun c found hc => ?_
    cases found with
    | some => exact hc
    | none =>
      show I (computeNode C read c id).1.tree
      rw [computeNode]
      generalize (if c.tree.size < id.coverage.2 then c.tree.size else id.coverage.2) = stop
      split
      · exact hc
      · exact subRoot_keeps hnode hc _ _ _

lemma inclusionProof_keeps (idx treeSize : Nat) :
    I (inclusionProof C read P c idx treeSize).1.tree := by
  unfold inclusionProof
  split
  · exact h
  · split
    · exact h
    · exact andThen_keeps (materialiseNodes_keeps hnode h _) fun c xs hc => hc

lemma consistencyProof_keeps (oldSize newSize : Nat) :
    I (consistencyProof C read P c oldSize newSize).1.tree := by
  unfold consistencyProof
  split
  · exact h
  · split
    · exact h
    · split
      · exact h
      · split
        · exact h
        · exact andThen_keeps (materialiseNodes_keeps hnode h _) fun c xs hc => hc

end

/-! ## Lookups -/

variable {RngHolds : R.Rng → List Bytes → Prop} {maxInternalNodes maxLeafNodes : Nat}
  {leaves : List Bytes}

section
variable {t : Tree R} {read : LeafReads} {i : Nat} {leaf : Bytes}

lemma Linked.putNode (h : t.Linked maxInternalNodes maxLeafNodes) (id : NodeID) (hash : Bytes) :
    (t.putNode id hash).Linked maxInternalNodes maxLeafNodes := by
  unfold Tree.putNode
  split
  · refine ⟨h.maxLeaf, ?_, h.maxInternal, h.internal⟩
    show (t.leafLRU.put t.maxLeaf _ _).Linked _
    rw [h.maxLeaf]
    exact h.leafLRU.put _ _
  · refine ⟨h.maxLeaf, h.leafLRU, h.maxInternal, ?_⟩
    show (t.internal.put t.maxInternal _ _).Linked _
    rw [h.maxInternal]
    exact h.internal.put _ _

lemma faithful_putLeafHash {ls : LeafStore} (h : ls.Faithful leaves)
    (hi : leaves[i]? = some leaf) : (ls.putLeafHash i leaf).Faithful leaves := by
  cases ls with
  | adapter => trivial
  | mem =>
    intro j x hj
    by_cases hji : j = i
    · subst hji
      rw [AList.lookup_insert, Option.some.injEq] at hj
      rw [hi, hj]
    · rw [AList.lookup_insert_ne hji] at hj
      exact h j x hj

lemma Kept.putLeaf (h : t.Kept C RngHolds maxInternalNodes maxLeafNodes leaves)
    (hi : leaves[i]? = some leaf) :
    (t.putLeaf i leaf).Kept C RngHolds maxInternalNodes maxLeafNodes leaves :=
  ⟨h.ready.putLeaf hi, h.linked.putNode ⟨0, i⟩ leaf, faithful_putLeafHash h.store hi⟩

variable (read) in
lemma getLeafHash_tree (c : Call R) (i : Nat) : (getLeafHash read c i).1.tree = c.tree := by
  unfold getLeafHash
  split <;> rfl

lemma getLeafHash_true (hread : TrueReads leaves read) (h : c.tree.leafStore.Faithful leaves)
    (hget : (getLeafHash read c i).2 = .ok (some leaf)) : leaves[i]? = some leaf := by
  unfold getLeafHash at hget
  split at hget
  · rename_i m hls
    rw [hls] at h
    exact h i leaf (Except.ok.inj hget)
  · exact hread _ _ _ hget

/-- **A read that fails or finds nothing changes no cache.** -/
theorem nodeHash_unread (hmiss : c.tree.leafLRU.get i = none)
    (hread : ∀ h, (getLeafHash read c i).2 ≠ .ok (some h)) :
    (nodeHash read c ⟨0, i⟩).1.tree = c.tree := by
  have htree := getLeafHash_tree read c i
  unfold nodeHash
  simp only [↓reduceIte, hmiss]
  rcases hget : getLeafHash read c i with ⟨c', f | (_ | x)⟩
  · rwa [hget] at htree
  · rwa [hget] at htree
  · exact absurd (congrArg Prod.snd hget) (hread x)

lemma nodeHash_kept (hread : TrueReads leaves read)
    (h : c.tree.Kept C RngHolds maxInternalNodes maxLeafNodes leaves) (id : NodeID) :
    (nodeHash read c id).1.tree.Kept C RngHolds maxInternalNodes maxLeafNodes leaves := by
  obtain ⟨level, i⟩ := id
  by_cases hlevel : level = 0
  · subst hlevel
    cases hget : c.tree.leafLRU.get i with
    | some out =>
      obtain ⟨x, lru⟩ := out
      simp only [nodeHash, ↓reduceIte, hget]
      have hlru := h.ready.cached.leafLRU.get hget
      exact ⟨⟨h.ready.holds, ⟨hlru.2, h.ready.cached.internal⟩, h.ready.stored⟩,
        ⟨h.linked.maxLeaf, h.linked.leafLRU.get hget, h.linked.maxInternal, h.linked.internal⟩,
        h.store⟩
    | none =>
      by_cases hfound : ∃ x, (getLeafHash read c i).2 = .ok (some x)
      · obtain ⟨x, hx⟩ := hfound
        have hput := h.putLeaf (getLeafHash_true hread h.store hx)
        rw [← getLeafHash_tree read c i] at hput
        simp only [nodeHash, ↓reduceIte, hget]
        rcases hout : getLeafHash read c i with ⟨c', res⟩
        rw [hout] at hx hput
        simp only at hx
        subst hx
        exact hput
      · rw [nodeHash_unread hget fun x hx => hfound ⟨x, hx⟩]
        exact h
  · simp only [nodeHash, if_neg hlevel]
    cases hget : c.tree.internal.get ⟨level, i⟩ with
    | some out =>
      obtain ⟨x, lru⟩ := out
      have hlru := h.ready.cached.internal.get hget
      exact ⟨⟨h.ready.holds, ⟨h.ready.cached.leafLRU, hlru.2⟩, h.ready.stored⟩,
        ⟨h.linked.maxLeaf, h.linked.leafLRU, h.linked.maxInternal, h.linked.internal.get hget⟩,
        h.store⟩
    | none => exact h

end

/-! ## Histories -/

section
variable (hR : R.Lawful (hashChildren C) (emptyRoot C) RngHolds)
  (hrep : R.Reports (hashChildren C) (emptyRoot C) RngHolds) (P : ProofImpl Bytes) {t t' : Tree R}
include hR hrep

section

variable (h : t.Kept C RngHolds maxInternalNodes maxLeafNodes leaves)

include h

lemma appendLeafHash_kept
    {leafHash : Bytes} {idx : Nat} (happ : t.appendLeafHash leafHash = .ok (t', idx))
    (hholds : t'.Holds RngHolds (leaves ++ [leafHash])) :
    t'.Kept C RngHolds maxInternalNodes maxLeafNodes (leaves ++ [leafHash]) := by
  have hold := h.ready.holds
  have hstore : t.leafStore.Faithful (leaves ++ [leafHash]) := by
    cases hls : t.leafStore with
    | adapter => trivial
    | mem =>
      have hfaithful := h.store
      rw [hls] at hfaithful
      intro i x hi
      have hx := hfaithful i x hi
      rw [List.getElem?_append_left (List.getElem?_eq_some_iff.mp hx).1, hx]
  refine ⟨⟨hholds, appendLeafHash_cached hR hrep hold happ h.ready.cached,
    appendLeafHash_stored hR hrep hold happ h.ready.stored⟩, ?_, ?_⟩
  · exact appendLeafHash_induct hrep hold happ (I := Linked maxInternalNodes maxLeafNodes)
      (fun _ _ ht => ⟨ht.1, ht.2, ht.3, ht.4⟩) (fun _ id _ ht => ht.putNode id _)
      (h.linked.putNode _ _)
  · refine appendLeafHash_induct hrep hold happ
      (I := fun t => t.leafStore.Faithful (leaves ++ [leafHash])) (fun _ _ ht => ht) ?_ ?_
    · intro t id hid ht
      unfold Tree.putNode
      split
      · exact faithful_putLeafHash ht (Cached.getElem?_of_within hid ‹_›)
      · exact ht
    · refine faithful_putLeafHash hstore ?_
      rw [size_eq hR hold]
      exact getElem?_concat_length

lemma kept_use {u : Use} (hu : u.TrueReads leaves) :
    (use C P t u).Kept C RngHolds maxInternalNodes maxLeafNodes (leaves ++ u.leaf.toList) := by
  cases u with
  | appendLeafHash leafHash =>
    obtain ⟨t', happ, hholds⟩ := appendLeafHash_ok hR h.ready.holds leafHash
    have huse : use C P t (.appendLeafHash leafHash) = t' := by rw [use, happ]
    rw [huse]
    exact appendLeafHash_kept hR hrep h happ hholds
  | inclusionProof read idx n =>
    rw [Use.leaf, Option.toList_none, append_nil]
    exact inclusionProof_keeps (c := ⟨t, 0⟩) (fun _ id hc => nodeHash_kept hu hc id) h idx n
  | consistencyProof read m n =>
    rw [Use.leaf, Option.toList_none, append_nil]
    exact consistencyProof_keeps (c := ⟨t, 0⟩) (fun _ id hc => nodeHash_kept hu hc id) h m n

lemma kept_run {us : List Use}
    (hus : TrueUses leaves us) : (run (use C P) t us).Kept C RngHolds maxInternalNodes
      maxLeafNodes (leaves ++ appended us) := by
  induction us generalizing t leaves with
  | nil =>
    rw [appended, filterMap_nil, append_nil]
    exact h
  | cons u us ih =>
    have hnext := ih (kept_use hR hrep P h hus.1) hus.2
    rwa [append_leaf_appended] at hnext

end

lemma kept_history (maxInternalNodes maxLeafNodes : Nat) {ls : LeafStore} (hls : ls.Faithful [])
    {us : List Use} (hus : TrueUses [] us) :
    (run (use C P) (newBoundedTreeWithStore R maxInternalNodes maxLeafNodes ls) us).Kept C RngHolds
      maxInternalNodes maxLeafNodes (appended us) :=
  kept_run hR hrep P
    ⟨new_ready hR _ _ _, ⟨rfl, Lru.linked_empty _, rfl, Lru.linked_empty _⟩, hls⟩ hus

/-- **The caches keep their invariant.** After any history of appends and requests, with any bounds
(one that is not positive is none) and whichever reads fail or find nothing: each map is in
bijection with its list, no list exceeds its bound, and what is resident are hashes of leaves and of
complete subtrees. And a read that yields no hash leaves the tree as it was. -/
theorem caches_keep_invariant (maxInternalNodes maxLeafNodes : Int) (ls : LeafStore)
    (hls : ls.Faithful []) (us : List Use) (hus : TrueUses [] us) {t : Tree R}
    (ht : run (use C P)
      (newBoundedTreeWithStore R maxInternalNodes.toNat maxLeafNodes.toNat ls) us = t) :
    t.leafLRU.Linked maxLeafNodes.toNat ∧ t.internal.Linked maxInternalNodes.toNat ∧
    (∀ e ∈ t.leafLRU.order, (appended us)[e.key]? = some e.value) ∧
    (∀ e ∈ t.internal.order, e.key.Within (appended us).length ∧ e.value =
      rfc6962Root C (segment (appended us) e.key.coverage.1 e.key.coverage.2)) ∧
    ∀ (c : Call R) (read : LeafReads) (i : Nat), c.tree.leafLRU.get i = none →
      (∀ h, (getLeafHash read c i).2 ≠ .ok (some h)) →
      (nodeHash read c ⟨0, i⟩).1.tree = c.tree := by
  have hkept := kept_history hR hrep P maxInternalNodes.toNat maxLeafNodes.toNat hls hus
  rw [ht] at hkept
  exact ⟨hkept.linked.leafLRU, hkept.linked.internal, hkept.ready.cached.leafLRU.good,
    hkept.ready.cached.internal.good, fun _ _ _ => nodeHash_unread⟩

end

def failingHistory : List Use :=
  [.appendLeafHash [1], .appendLeafHash [2],
    .inclusionProof (fun _ _ => .error (errorf "disk" [])) 1 2,
    .consistencyProof (fun _ _ => .ok none) 1 2, .appendLeafHash [3]]

theorem caches_keep_invariant_failing :
    let t := run (use .sample (pathTree (hashChildren .sample) (emptyRoot .sample)))
      (newBoundedTreeWithStore (leafList (hashChildren .sample) (emptyRoot .sample)) 1 1 .adapter)
      failingHistory
    t.leafLRU.Linked 1 ∧ t.leafLRU.order.map LruElem.value = [[3]] :=
  ⟨(caches_keep_invariant (leafList_lawful (hashChildren .sample) (emptyRoot .sample))
    (leafList_reports _ _) _ 1 1 .adapter trivial failingHistory
    ⟨trivial, trivial, nofun, nofun, trivial, trivial⟩ rfl).1, by decide +kernel⟩

end Tree

end Stele
