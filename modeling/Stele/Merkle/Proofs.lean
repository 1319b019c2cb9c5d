import Stele.Merkle.Tree
import Stele.Lib.MerkleProofs

/-!
# Serving Merkle proofs (`pkg/merkle`)

A proof is a list of node hashes. A node is looked up in the caches; a leaf that is not cached is
read from the leaf store, and an internal node that was evicted is computed from its leaves again.
Which nodes a proof is made of is the business of the `transparency-dev/merkle` code, a parameter
`P`; what the development assumes about it is `Lib.ProofImpl.Lawful`.
-/

namespace Stele

open Lib List AList

/-! ## The root determines the leaves -/

section
variable (C : Crypto)

def treeMessages (leaves : List Bytes) : List Bytes :=
  (nodePairs (hashChildren C) (emptyRoot C) leaves).map fun p => 1 :: (p.1 ++ p.2)

variable {C}

lemma rfc6962Root_length {leaves : List Bytes} (hleaves : ∀ h ∈ leaves, h.length = 32) :
    (rfc6962Root C leaves).length = 32 := by
  induction leaves using split_induction with
  | nil => exact C.sha256_length _
  | leaf h => exact hleaves h (by simp)
  | split l hlong =>
    rw [rfc6962Root, mth_split _ _ hlong]
    exact C.sha256_length _

lemma nodePairs_length {leaves : List Bytes} (hleaves : ∀ h ∈ leaves, h.length = 32)
    {p : Bytes × Bytes} (hp : p ∈ nodePairs (hashChildren C) (emptyRoot C) leaves) :
    p.1.length = 32 := by
  induction leaves using split_induction with
  | nil => cases hp
  | leaf => cases hp
  | split l hlong ihl ihr =>
    rw [nodePairs_split _ _ hlong] at hp
    rcases mem_cons.mp hp with rfl | hp
    · exact rfc6962Root_length fun h hh => hleaves h (mem_of_mem_take hh)
    · rcases mem_append.mp hp with hp | hp
      · exact ihl (fun h hh => hleaves h (mem_of_mem_take hh)) hp
      · exact ihr (fun h hh => hleaves h (mem_of_mem_drop hh)) hp

/-- **Two trees of one size with one root have the same leaf hashes**, unless two of their nodes
collide. -/
theorem rfc6962Root_inj {l l' : List Bytes} (hl : ∀ h ∈ l, h.length = 32)
    (hl' : ∀ h ∈ l', h.length = 32) (hlen : l.length = l'.length)
    (hcf : C.CollisionFree (treeMessages C l ++ treeMessages C l'))
    (h : rfc6962Root C l = rfc6962Root C l') : l = l' := by
  refine mth_inj _ _ hlen (fun p hp q hq hnode => ?_) h
  have hmsg := hcf _ (mem_append_left _ (mem_map_of_mem hp)) _
    (mem_append_right _ (mem_map_of_mem hq)) hnode
  obtain ⟨hfst, hsnd⟩ := append_inj (List.cons.inj hmsg).2
    ((nodePairs_length hl hp).trans (nodePairs_length hl' hq).symm)
  exact Prod.ext hfst hsnd

end

def LeafStore.Stored (leaves : List Bytes) : LeafStore → Prop
  | .mem m => ∀ i h, leaves[i]? = some h → m.lookup i = some h
  | .adapter => True

variable {leaves : List Bytes}

namespace LeafStore.Stored

variable {ls : LeafStore} (h : ls.Stored leaves)
include h

lemma putLeafHash {i : Nat} {leaf : Bytes} (hi : leaves[i]? = some leaf) :
    (ls.putLeafHash i leaf).Stored leaves := by
  cases ls with
  | adapter => trivial
  | mem =>
    intro j x hj
    by_cases hji : j = i
    · subst hji
      rw [lookup_insert, ← hi, hj]
    · rw [lookup_insert_ne hji]
      exact h j x hj

lemma concat (leaf : Bytes) : (ls.putLeafHash leaves.length leaf).Stored (leaves ++ [leaf]) := by
  cases ls with
  | adapter => trivial
  | mem =>
    intro j x hj
    by_cases hjn : j = leaves.length
    · subst hjn
      rw [getElem?_concat_length] at hj
      rw [lookup_insert, hj]
    · have hlt := (List.getElem?_eq_some_iff.mp hj).1
      simp only [List.length_append, List.length_singleton] at hlt
      rw [List.getElem?_append_left (by omega)] at hj
      rw [lookup_insert_ne hjn]
      exact h j x hj

end LeafStore.Stored

namespace Tree

variable {R : RangeImpl Bytes}

/-! ## The functions -/

/-- A tree during a call, and how often the call has read the leaf store. -/
structure Call (R : RangeImpl Bytes) where
  tree : Tree R
  reads : Nat

abbrev LeafReads := Nat → Nat → Res (Option Bytes)

/-- Go on with the value of a call that succeeded, and return its error otherwise. -/
def Call.andThen {α β : Type} (x : Call R × Res α) (k : Call R → α → Call R × Res β) :
    Call R × Res β :=
  match x with
  | (c, .error f) => (c, .error f)
  | (c, .ok a) => k c a

def Call.wrapErr {α : Type} (format : String) (args : List Arg) (x : Call R × Res α) :
    Call R × Res α :=
  (x.1, Lib.wrapErr format args x.2)

section
variable (C : Crypto) (read : LeafReads)

def getLeafHash (c : Call R) (idx : Nat) : Call R × Res (Option Bytes) :=
  match c.tree.leafStore with
  | .mem leaves => (c, .ok (leaves.lookup idx))
  | .adapter => ({ c with reads := c.reads + 1 }, read c.reads idx)

def nodeHash (c : Call R) (id : NodeID) : Call R × Res (Option Bytes) :=
  if id.level = 0 then
    match c.tree.leafLRU.get id.index with
    | some (h, lru) => ({ c with tree.leafLRU := lru }, .ok (some h))
    | none =>
      Call.andThen (Call.wrapErr "merkle: leaf store read L0[%d]: %w" [.nat id.index]
        (getLeafHash read c id.index)) fun c found =>
          match found with
          | none => (c, .ok none)
          | some h => ({ c with tree := c.tree.putLeaf id.index h }, .ok (some h))
  else
    match c.tree.internal.get id with
    | some (h, lru) => ({ c with tree.internal := lru }, .ok (some h))
    | none => (c, .ok none)

/-- The loop of `subRoot` that doubles `k` while it stays below the span. -/
def splitLoop : Nat → Nat → Nat → Nat
  | 0, k, _ => k
  | fuel + 1, k, span => if k * 2 < span then splitLoop fuel (k * 2) span else k

def subRoot : Nat → Call R → Nat → Nat → Call R × Res Bytes
  | 0, c, _, _ => (c, .error (.panic "merkle: no leaves"))
  | fuel + 1, c, start, stop =>
    if start + 1 = stop then
      Call.andThen (nodeHash read c ⟨0, start⟩) fun c found =>
        match found with
        | none => (c, .error (errorf "missing leaf %d" [.nat start]))
        | some h => (c, .ok h)
    else
      let split := start + splitLoop (stop - start) 1 (stop - start)
      Call.andThen (subRoot fuel c start split) fun c left =>
        Call.andThen (subRoot fuel c split stop) fun c right => (c, .ok (hashChildren C left right))

def computeNode (c : Call R) (id : NodeID) : Call R × Res Bytes :=
  let start := id.coverage.1
  let stop := if c.tree.size < id.coverage.2 then c.tree.size else id.coverage.2
  if stop ≤ start then
    (c, .error (errorf "empty coverage for L%d[%d]" [.nat id.level, .nat id.index]))
  else subRoot C read (stop - start) c start stop

def materialiseNode (c : Call R) (id : NodeID) : Call R × Res Bytes :=
  Call.andThen (nodeHash read c id) fun c found =>
    match found with
    | some h => (c, .ok h)
    | none =>
      Call.wrapErr "merkle: cannot materialise node L%d[%d]: %w" [.nat id.level, .nat id.index]
        (computeNode C read c id)

def materialiseNodes : Call R → List NodeID → Call R × Res (List Bytes)
  | c, [] => (c, .ok [])
  | c, id :: ids =>
    Call.andThen (materialiseNode C read c id) fun c h =>
      Call.andThen (materialiseNodes c ids) fun c hs => (c, .ok (h :: hs))

variable (P : ProofImpl Bytes)

def materialise (c : Call R) (nodes : P.Nodes) : Call R × Res (List Bytes) :=
  Call.andThen (materialiseNodes C read c (P.ids nodes)) fun c hashes =>
    (c, (P.rehash nodes hashes).mapError .err)

def inclusionProof (c : Call R) (idx treeSize : Nat) : Call R × Res (List Bytes) :=
  if c.tree.size < treeSize then
    (c, .error (errorf "merkle: treeSize %d exceeds current size %d"
      [.nat treeSize, .nat c.tree.size]))
  else
    match P.inclusion idx treeSize with
    | .error e => (c, .error (.err (.wrap "merkle: building inclusion node list: %w" [] e)))
    | .ok nodes => materialise C read P c nodes

def consistencyProof (c : Call R) (oldSize newSize : Nat) : Call R × Res (List Bytes) :=
  if newSize < oldSize then
    (c, .error (errorf "merkle: oldSize %d > newSize %d" [.nat oldSize, .nat newSize]))
  else if c.tree.size < newSize then
    (c, .error (errorf "merkle: newSize %d exceeds current size %d"
      [.nat newSize, .nat c.tree.size]))
  else if oldSize = 0 ∨ oldSize = newSize then (c, .ok [])
  else
    match P.consistency oldSize newSize with
    | .error e => (c, .error (.err (.wrap "merkle: building consistency node list: %w" [] e)))
    | .ok nodes => materialise C read P c nodes

end

/-! ## What the caches hold -/

def nodeOf (C : Crypto) (leaves : List Bytes) (id : NodeID) : Bytes :=
  treeNode (hashChildren C) (emptyRoot C) leaves id

structure Cached (C : Crypto) (leaves : List Bytes) (t : Tree R) : Prop where
  leafLRU : t.leafLRU.Inv fun i h => leaves[i]? = some h
  internal : t.internal.Inv fun id h => id.Within leaves.length ∧ h = nodeOf C leaves id

lemma newBoundedTreeWithStore_cached (C : Crypto) (maxInternalNodes maxLeafNodes : Nat)
    (ls : LeafStore) : (newBoundedTreeWithStore R maxInternalNodes maxLeafNodes ls).Cached C [] :=
  ⟨Lru.inv_empty, Lru.inv_empty⟩

namespace Cached

variable {C : Crypto} {t : Tree R} (h : t.Cached C leaves)
include h

lemma append (leaf : Bytes) : t.Cached C (leaves ++ [leaf]) where
  leafLRU := h.leafLRU.mono fun i x hx => by
    have hlt := (List.getElem?_eq_some_iff.mp hx).1
    rw [List.getElem?_append_left hlt, hx]
  internal := h.internal.mono fun id x hx => by
    obtain ⟨hwithin, rfl⟩ := hx
    refine ⟨hwithin.mono (by simp), ?_⟩
    exact (treeNode_append hwithin [leaf]).symm

omit h in
lemma getElem?_of_within {id : NodeID} (hid : id.Within leaves.length) (hlevel : id.level = 0) :
    leaves[id.index]? = some (nodeOf C leaves id) := by
  obtain ⟨level, index⟩ := id
  simp only at hlevel
  subst hlevel
  have hget := getElem?_eq_getElem (NodeID.within_leaf.mp hid)
  rw [hget, nodeOf, treeNode_leaf hget]

lemma putNode {id : NodeID} (hid : id.Within leaves.length) :
    (t.putNode id (nodeOf C leaves id)).Cached C leaves := by
  unfold Tree.putNode
  split
  · rename_i hlevel
    exact ⟨h.leafLRU.put t.maxLeaf (getElem?_of_within hid hlevel), h.internal⟩
  · exact ⟨h.leafLRU, h.internal.put t.maxInternal ⟨hid, rfl⟩⟩

end Cached

variable {RngHolds : R.Rng → List Bytes → Prop} {idx : Nat}

section
variable {C : Crypto} (hR : R.Lawful (hashChildren C) (emptyRoot C) RngHolds)
  (hrep : R.Reports (hashChildren C) (emptyRoot C) RngHolds) {t t' : Tree R}
  (hholds : t.Holds RngHolds leaves) {leafHash : Bytes}
  (happ : t.appendLeafHash leafHash = .ok (t', idx))
include hrep hholds happ

/-- What holds after an append: what holds after the leaf was put and survives putting nodes of the
new tree. -/
lemma appendLeafHash_induct {I : Tree R → Prop}
    (hrng : ∀ (t : Tree R) (rng : R.Rng), I t → I { t with rng := rng })
    (hput : ∀ (t : Tree R) (id : NodeID), id.Within (leaves ++ [leafHash]).length → I t →
      I (t.putNode id (nodeOf C (leaves ++ [leafHash]) id)))
    (hfirst : I (t.putNode ⟨0, t.size⟩ leafHash)) : I t' := by
  have hfold : ∀ (visits : List (NodeID × Bytes)) (t : Tree R), I t →
      (∀ v ∈ visits, v.1.Within (leaves ++ [leafHash]).length ∧
        v.2 = nodeOf C (leaves ++ [leafHash]) v.1) →
      I (visits.foldl (fun t v => t.putNode v.1 v.2) t) := by
    intro visits
    induction visits with
    | nil => exact fun t ht _ => ht
    | cons v visits ih =>
      intro t ht hv
      obtain ⟨hwithin, hhash⟩ := hv v (by simp)
      rw [foldl_cons, hhash]
      exact ih _ (hput t v.1 hwithin ht) fun w hw => hv w (by simp [hw])
  unfold appendLeafHash at happ
  simp only [putNode_rng] at happ
  cases hr : R.append t.rng leafHash with
  | error => simp [hr] at happ
  | ok out =>
    obtain ⟨rng, visits⟩ := out
    simp only [hr, Except.ok.injEq, Prod.mk.injEq] at happ
    obtain ⟨rfl, -⟩ := happ
    refine hfold visits _ (hrng _ rng hfirst) fun v hv => ?_
    obtain ⟨hwithin, hhash⟩ := hrep hholds hr v hv
    exact ⟨by simpa using hwithin, hhash⟩

include hR

lemma appendLeafHash_stored (h : t.leafStore.Stored leaves) :
    t'.leafStore.Stored (leaves ++ [leafHash]) := by
  let I : Tree R → Prop := fun t => t.leafStore.Stored (leaves ++ [leafHash])
  refine appendLeafHash_induct hrep hholds happ (I := I) (fun _ _ ht => ht) ?_ ?_
  · intro t id hid ht
    show (t.putNode id _).leafStore.Stored _
    unfold Tree.putNode
    split
    · rename_i hlevel
      exact ht.putLeafHash (Cached.getElem?_of_within hid hlevel)
    · exact ht
  · rw [size_eq hR hholds]
    exact h.concat leafHash

/-- **Appending keeps the caches right**, whatever it evicts. -/
theorem appendLeafHash_cached (h : t.Cached C leaves) : t'.Cached C (leaves ++ [leafHash]) := by
  refine appendLeafHash_induct hrep hholds happ (fun _ _ ht => ⟨ht.leafLRU, ht.internal⟩)
    (fun _ _ hid ht => ht.putNode hid) ?_
  have hleaf : nodeOf C (leaves ++ [leafHash]) ⟨0, t.size⟩ = leafHash := by
    rw [size_eq hR hholds]
    exact treeNode_leaf getElem?_concat_length
  have hwithin : (⟨0, t.size⟩ : NodeID).Within (leaves ++ [leafHash]).length := by
    rw [NodeID.within_leaf, size_eq hR hholds]
    simp
  have hput := (h.append leafHash).putNode hwithin
  rwa [hleaf] at hput

end

/-! ## What the functions yield -/

def ReadsOf (leaves : List Bytes) (read : LeafReads) : Prop :=
  ∀ k i h, leaves[i]? = some h → read k i = .ok (some h) ∨ ∃ f, read k i = .error f

def NoFault (read : LeafReads) : Prop := ∀ k i f, read k i ≠ .error f

/-- The call ends with a value that satisfies `Q`, or with an error because a read failed. -/
def Yields {α : Type} (read : LeafReads) (Q : α → Prop) (res : Res α) : Prop :=
  (∃ a, res = .ok a ∧ Q a) ∨ ((∃ f, res = .error f) ∧ ¬ NoFault read)

structure Call.Ready (C : Crypto) (RngHolds : R.Rng → List Bytes → Prop) (leaves : List Bytes)
    (c : Call R) : Prop where
  holds : c.tree.Holds RngHolds leaves
  cached : c.tree.Cached C leaves
  stored : c.tree.leafStore.Stored leaves

/-- The call leaves the tree ready and yields `Q`. -/
structure Serves {α : Type} (C : Crypto) (RngHolds : R.Rng → List Bytes → Prop)
    (leaves : List Bytes) (read : LeafReads) (Q : α → Prop) (out : Call R × Res α) : Prop where
  ready : out.1.Ready C RngHolds leaves
  yields : Yields read Q out.2

section
variable {C : Crypto} {read : LeafReads} {c : Call R}

lemma Call.Ready.ok {α : Type} (h : c.Ready C RngHolds leaves) {Q : α → Prop} {a : α}
    (ha : Q a) : Serves C RngHolds leaves read Q (c, .ok a) :=
  ⟨h, .inl ⟨a, rfl, ha⟩⟩

/-- Sequencing: what the first part yields is what the second part may use. -/
lemma Serves.andThen {α β : Type} {Q : α → Prop} {Q' : β → Prop} {x : Call R × Res α}
    {k : Call R → α → Call R × Res β} (hx : Serves C RngHolds leaves read Q x)
    (hk : ∀ c a, c.Ready C RngHolds leaves → Q a → Serves C RngHolds leaves read Q' (k c a)) :
    Serves C RngHolds leaves read Q' (Call.andThen x k) := by
  obtain ⟨c, f | a⟩ := x
  · rcases hx.yields with ⟨_, hok, -⟩ | ⟨-, hfault⟩
    · cases hok
    · exact ⟨hx.ready, .inr ⟨⟨f, rfl⟩, hfault⟩⟩
  · rcases hx.yields with ⟨_, hok, hQ⟩ | ⟨⟨f, hf⟩, -⟩
    · cases hok
      exact hk c a hx.ready hQ
    · cases hf

lemma Serves.value {α : Type} {a : α} {x : Call R × Res α}
    (hx : Serves C RngHolds leaves read (· = a) x) (hok : NoFault read) : x.2 = .ok a := by
  rcases hx.yields with ⟨_, hval, rfl⟩ | ⟨-, hfault⟩
  · exact hval
  · exact absurd hok hfault

lemma Serves.wrapErr {α : Type} {Q : α → Prop} {x : Call R × Res α}
    (hx : Serves C RngHolds leaves read Q x) (format : String) (args : List Arg) :
    Serves C RngHolds leaves read Q (Call.wrapErr format args x) := by
  refine ⟨hx.ready, ?_⟩
  rcases hx.yields with ⟨a, hok, hQ⟩ | ⟨⟨f, hf⟩, hfault⟩
  · exact .inl ⟨a, wrapErr_ok.mpr hok, hQ⟩
  · refine .inr ⟨⟨f.wrap format args, ?_⟩, hfault⟩
    rw [Call.wrapErr, hf]
    rfl

variable {leaf : Bytes}

lemma Call.Ready.putLeaf (h : c.Ready C RngHolds leaves) {i : Nat} (hi : leaves[i]? = some leaf) :
    Call.Ready C RngHolds leaves { c with tree := c.tree.putLeaf i leaf } where
  holds := h.holds
  cached := ⟨h.cached.leafLRU.put _ hi, h.cached.internal⟩
  stored := h.stored.putLeafHash hi

lemma splitLoop_eq {fuel j span : Nat} (hlt : 2 ^ j < span) (hfuel : span ≤ 2 ^ j + fuel) :
    splitLoop fuel (2 ^ j) span = splitPoint span := by
  induction fuel generalizing j with
  | zero => omega
  | succ fuel ih =>
    have hdouble : 2 ^ j * 2 = 2 ^ (j + 1) := (Nat.pow_succ 2 j).symm
    have hpos : 0 < 2 ^ j := Nat.two_pow_pos j
    rw [splitLoop]
    by_cases hmore : 2 ^ j * 2 < span
    · rw [if_pos hmore, hdouble]
      rw [hdouble] at hmore
      exact ih hmore (by omega)
    · rw [if_neg hmore, splitPoint_eq hlt (Nat.not_lt.mp hmore)]

variable (hread : ReadsOf leaves read)
include hread

lemma getLeafHash_spec (h : c.Ready C RngHolds leaves) {i : Nat} (hi : leaves[i]? = some leaf) :
    Serves C RngHolds leaves read (· = some leaf) (getLeafHash read c i) := by
  unfold getLeafHash
  cases hls : c.tree.leafStore with
  | mem =>
    have hstored := h.stored
    rw [hls] at hstored
    exact h.ok (hstored i leaf hi)
  | adapter =>
    refine ⟨⟨h.holds, h.cached, by rw [hls]; trivial⟩, ?_⟩
    rcases hread c.reads i leaf hi with hok | ⟨f, herr⟩
    · exact .inl ⟨_, hok, rfl⟩
    · exact .inr ⟨⟨f, herr⟩, fun hno => hno _ _ _ herr⟩

variable {id : NodeID}

/-- **A lookup finds the node's hash or nothing, and a leaf it finds.** -/
theorem nodeHash_spec (h : c.Ready C RngHolds leaves) (hid : id.Within leaves.length) :
    Serves C RngHolds leaves read
      (fun found => found = some (nodeOf C leaves id) ∨ id.level ≠ 0 ∧ found = none)
      (nodeHash read c id) := by
  unfold nodeHash
  by_cases hlevel : id.level = 0
  · rw [if_pos hlevel]
    obtain ⟨level, i⟩ := id
    simp only at hlevel
    subst hlevel
    obtain ⟨leaf, hi⟩ : ∃ leaf, leaves[i]? = some leaf :=
      ⟨_, getElem?_eq_getElem (NodeID.within_leaf.mp hid)⟩
    have hnode : nodeOf C leaves ⟨0, i⟩ = leaf := treeNode_leaf hi
    cases hget : c.tree.leafLRU.get i with
    | some out =>
      obtain ⟨x, lru⟩ := out
      obtain ⟨hx, hlru⟩ := h.cached.leafLRU.get hget
      have hready : Call.Ready C RngHolds leaves { c with tree.leafLRU := lru } :=
        ⟨h.holds, ⟨hlru, h.cached.internal⟩, h.stored⟩
      exact hready.ok (.inl (by rw [hnode, Option.some.inj (hx.symm.trans hi)]))
    | none =>
      refine ((getLeafHash_spec hread h hi).wrapErr _ _).andThen fun c found hc hfound => ?_
      subst hfound
      exact (hc.putLeaf hi).ok (.inl (by rw [hnode]))
  · rw [if_neg hlevel]
    cases hget : c.tree.internal.get id with
    | some out =>
      obtain ⟨x, lru⟩ := out
      obtain ⟨⟨-, rfl⟩, hlru⟩ := h.cached.internal.get hget
      have hready : Call.Ready C RngHolds leaves { c with tree.internal := lru } :=
        ⟨h.holds, ⟨h.cached.leafLRU, hlru⟩, h.stored⟩
      exact hready.ok (.inl rfl)
    | none => exact h.ok (.inr ⟨hlevel, rfl⟩)

lemma subRoot_spec {fuel start stop : Nat} (hlt : start < stop) (hstop : stop ≤ leaves.length)
    (hfuel : stop - start ≤ fuel) (h : c.Ready C RngHolds leaves) :
    Serves C RngHolds leaves read
      (· = mth (hashChildren C) (emptyRoot C) (segment leaves start stop))
      (subRoot C read fuel c start stop) := by
  induction fuel generalizing c start stop with
  | zero => omega
  | succ fuel ih =>
    rw [subRoot]
    by_cases hone : start + 1 = stop
    · subst hone
      rw [if_pos rfl]
      have hwithin : (⟨0, start⟩ : NodeID).Within leaves.length := NodeID.within_leaf.mpr hstop
      refine (nodeHash_spec hread h hwithin).andThen fun c found hc hfound => ?_
      rcases hfound with rfl | ⟨hne, -⟩
      · exact hc.ok (by simp [nodeOf, treeNode, NodeID.coverage])
      · exact absurd rfl hne
    · rw [if_neg hone]
      have hspan : 2 ≤ stop - start := by omega
      have hsplit : splitLoop (stop - start) 1 (stop - start) = splitPoint (stop - start) := by
        simpa using @splitLoop_eq (stop - start) 0 (stop - start) (by omega) (by omega)
      have hpos := splitPoint_pos (stop - start)
      have hsmall := splitPoint_lt hspan
      have hlen : (segment leaves start stop).length = stop - start := segment_length hstop
      simp only [hsplit]
      generalize hk : splitPoint (stop - start) = k at hpos hsmall
      have hleft := @ih c start (start + k) (by omega) (by omega) (by omega) h
      refine hleft.andThen fun c left hc hl => ?_
      have hright := @ih c (start + k) stop (by omega) hstop (by omega) hc
      refine hright.andThen fun c right hc hr => hc.ok ?_
      have hlong : 2 ≤ (segment leaves start stop).length := by rw [hlen]; exact hspan
      rw [mth_split _ _ hlong, hlen, hk, segment_take (by omega), segment_drop, hl, hr]

variable (hR : R.Lawful (hashChildren C) (emptyRoot C) RngHolds)
include hR

section

variable (h : c.Ready C RngHolds leaves)

include h

lemma computeNode_spec (hid : id.Within leaves.length) :
    Serves C RngHolds leaves read (· = nodeOf C leaves id) (computeNode C read c id) := by
  have hsize : c.tree.size = leaves.length := size_eq hR h.holds
  have hlt := id.coverage_lt
  have hle : id.coverage.2 ≤ leaves.length := hid
  unfold computeNode
  simp only [hsize, if_neg (Nat.not_lt.mpr hle), if_neg (Nat.not_le.mpr hlt)]
  exact subRoot_spec hread hlt hle (Nat.le_refl _) h

lemma materialiseNode_spec (hid : id.Within leaves.length) :
    Serves C RngHolds leaves read (· = nodeOf C leaves id) (materialiseNode C read c id) := by
  unfold materialiseNode
  refine (nodeHash_spec hread h hid).andThen fun c found hc hfound => ?_
  rcases hfound with rfl | ⟨-, rfl⟩
  · exact hc.ok rfl
  · exact (computeNode_spec hread hR hc hid).wrapErr _ _

lemma materialiseNodes_spec {ids : List NodeID} (hids : ∀ id ∈ ids, id.Within leaves.length) :
    Serves C RngHolds leaves read (· = ids.map (nodeOf C leaves))
      (materialiseNodes C read c ids) := by
  induction ids generalizing c with
  | nil => exact h.ok rfl
  | cons id ids ih =>
    rw [materialiseNodes]
    refine (materialiseNode_spec hread hR h (hids id (by simp))).andThen fun c x hc hx => ?_
    refine (ih hc fun i hi => hids i (by simp [hi])).andThen fun c xs hc hxs => hc.ok ?_
    rw [hx, hxs, map_cons]

end

variable {P : ProofImpl Bytes} {n : Nat} {Q : List Bytes → Prop}

lemma materialise_spec (h : c.Ready C RngHolds leaves) {nodes : P.Nodes} (hn : n ≤ leaves.length)
    (hids : ∀ id ∈ P.ids nodes, id.Within n)
    (hQ : ∃ proof, P.rehash nodes ((P.ids nodes).map (nodeOf C (leaves.take n))) = .ok proof ∧
      Q proof) : Serves C RngHolds leaves read Q (materialise C read P c nodes) := by
  obtain ⟨proof, hproof, hQ⟩ := hQ
  have hsame : (P.ids nodes).map (nodeOf C (leaves.take n)) =
      (P.ids nodes).map (nodeOf C leaves) :=
    map_congr_left fun id hid => treeNode_take hn (hids id hid)
  refine (materialiseNodes_spec hread hR h fun id hid => (hids id hid).mono hn).andThen
    fun c hashes hc hh => ?_
  rw [hh, ← hsame, hproof]
  exact hc.ok hQ

lemma inclusionProof_serves (h : c.Ready C RngHolds leaves) (hn : n ≤ leaves.length)
    (hnodes : ∃ nodes, P.inclusion idx n = .ok nodes ∧ (∀ id ∈ P.ids nodes, id.Within n) ∧
      ∃ proof, P.rehash nodes ((P.ids nodes).map (nodeOf C (leaves.take n))) = .ok proof ∧
        Q proof) : Serves C RngHolds leaves read Q (inclusionProof C read P c idx n) := by
  obtain ⟨nodes, hok, hids, hQ⟩ := hnodes
  unfold inclusionProof
  rw [size_eq hR h.holds, if_neg (Nat.not_lt.mpr hn), hok]
  exact materialise_spec hread hR h hn hids hQ

variable {m : Nat}

lemma consistencyProof_serves (h : c.Ready C RngHolds leaves) (hm : 0 < m) (hmn : m < n)
    (hn : n ≤ leaves.length)
    (hnodes : ∃ nodes, P.consistency m n = .ok nodes ∧ (∀ id ∈ P.ids nodes, id.Within n) ∧
      ∃ proof, P.rehash nodes ((P.ids nodes).map (nodeOf C (leaves.take n))) = .ok proof ∧
        Q proof) : Serves C RngHolds leaves read Q (consistencyProof C read P c m n) := by
  obtain ⟨nodes, hok, hids, hQ⟩ := hnodes
  unfold consistencyProof
  rw [size_eq hR h.holds, if_neg (by omega), if_neg (by omega), if_neg (by omega), hok]
  exact materialise_spec hread hR h hn hids hQ

omit hread in
lemma consistencyProof_trivial (h : c.Ready C RngHolds leaves) (hmn : m ≤ n)
    (hn : n ≤ leaves.length) (htrivial : m = 0 ∨ m = n) :
    consistencyProof C read P c m n = (c, .ok []) := by
  unfold consistencyProof
  rw [size_eq hR h.holds, if_neg (by omega), if_neg (by omega), if_pos htrivial]

omit hread in
lemma inclusionProof_out (hout : ∀ {i n : Nat}, n ≤ i → ∃ e, P.inclusion i n = .error e)
    (h : c.Ready C RngHolds leaves) (hnot : ¬ (idx < n ∧ n ≤ leaves.length)) :
    ∃ f, inclusionProof C read P c idx n = (c, .error f) := by
  unfold inclusionProof
  rw [size_eq hR h.holds]
  by_cases hn : n ≤ leaves.length
  · obtain ⟨e, he⟩ := hout (i := idx) (n := n) (by omega)
    rw [if_neg (Nat.not_lt.mpr hn), he]
    exact ⟨_, rfl⟩
  · rw [if_pos (Nat.not_le.mp hn)]
    exact ⟨_, rfl⟩

omit hread in
lemma consistencyProof_out (h : c.Ready C RngHolds leaves)
    (hnot : ¬ (m ≤ n ∧ n ≤ leaves.length)) :
    ∃ f, consistencyProof C read P c m n = (c, .error f) := by
  unfold consistencyProof
  rw [size_eq hR h.holds]
  by_cases hmn : m ≤ n
  · rw [if_neg (Nat.not_lt.mpr hmn), if_pos (by omega)]
    exact ⟨_, rfl⟩
  · rw [if_pos (Nat.not_le.mp hmn)]
    exact ⟨_, rfl⟩

variable (hP : P.Lawful (hashChildren C) (emptyRoot C))
include hP

section

variable (h : c.Ready C RngHolds leaves)

include h

/-- **Inclusion proofs verify.** A proof that is asked for within the tree is served unless a read
fails, and it verifies against the root of that size. -/
theorem inclusionProof_spec (hidx : idx < n)
    (hn : n ≤ leaves.length) (hleaf : leaves[idx]? = some leaf) :
    Serves C RngHolds leaves read
      (fun proof => P.verifyInclusion idx n leaf proof (rfc6962Root C (leaves.take n)) = .ok ())
      (inclusionProof C read P c idx n) := by
  obtain ⟨nodes, hnodes, hids, hproof⟩ := hP.inclusion_ok hidx
  refine inclusionProof_serves hread hR h hn
    ⟨nodes, hnodes, hids, hproof (leaves.take n) leaf ?_ ?_⟩
  · rw [length_take, Nat.min_eq_left hn]
  · rw [getElem?_take_of_lt hidx, hleaf]

lemma consistencyProof_spec (hmn : m ≤ n) (hn : n ≤ leaves.length) :
    Serves C RngHolds leaves read
      (fun proof => P.verifyConsistency m n proof (rfc6962Root C (leaves.take m))
        (rfc6962Root C (leaves.take n)) = .ok ()) (consistencyProof C read P c m n) := by
  by_cases htrivial : m = 0 ∨ m = n
  · rw [consistencyProof_trivial hR h hmn hn htrivial]
    refine h.ok ?_
    by_cases hsame : m = n
    · subst hsame
      exact hP.consistency_same m _
    · have hz : m = 0 := htrivial.resolve_right hsame
      subst hz
      exact hP.consistency_empty n _ _ (by omega)
  · obtain ⟨hm, hne⟩ := not_or.mp htrivial
    have hpos : 0 < m := Nat.pos_of_ne_zero hm
    have hlt : m < n := Nat.lt_of_le_of_ne hmn hne
    obtain ⟨nodes, hnodes, hids, hproof⟩ := hP.consistency_ok hpos hlt
    have hlen : (leaves.take n).length = n := by rw [length_take, Nat.min_eq_left hn]
    have htake : (leaves.take n).take m = leaves.take m := by rw [take_take, Nat.min_eq_left hmn]
    obtain ⟨proof, hre, hver⟩ := hproof (leaves.take n) hlen
    rw [htake] at hver
    exact consistencyProof_serves hread hR h hpos hlt hn ⟨nodes, hnodes, hids, proof, hre, hver⟩

lemma inclusionProof_ok {proof : List Bytes}
    (hok : (inclusionProof C read P c idx n).2 = .ok proof) :
    n ≤ leaves.length ∧ idx < n ∧ ∃ leaf, leaves[idx]? = some leaf ∧
      P.verifyInclusion idx n leaf proof (rfc6962Root C (leaves.take n)) = .ok () := by
  by_cases hin : idx < n ∧ n ≤ leaves.length
  · obtain ⟨hidx, hn⟩ := hin
    have hleaf : leaves[idx]? = some leaves[idx] := getElem?_eq_getElem (by omega)
    rcases (inclusionProof_spec hread hR hP h hidx hn hleaf).yields with
      ⟨_, hok', hver⟩ | ⟨⟨f, hf⟩, -⟩
    · cases hok.symm.trans hok'
      exact ⟨hn, hidx, _, hleaf, hver⟩
    · cases hok.symm.trans hf
  · obtain ⟨f, hf⟩ : ∃ f, inclusionProof C read P c idx n = (c, .error f) :=
      inclusionProof_out hR hP.inclusion_out h hin
    rw [hf] at hok
    cases hok

lemma consistencyProof_ok {proof : List Bytes}
    (hok : (consistencyProof C read P c m n).2 = .ok proof) :
    m ≤ n ∧ n ≤ leaves.length ∧ P.verifyConsistency m n proof (rfc6962Root C (leaves.take m))
      (rfc6962Root C (leaves.take n)) = .ok () := by
  by_cases hin : m ≤ n ∧ n ≤ leaves.length
  · obtain ⟨hmn, hn⟩ := hin
    rcases (consistencyProof_spec hread hR hP h hmn hn).yields with
      ⟨_, hok', hver⟩ | ⟨⟨f, hf⟩, -⟩
    · cases hok.symm.trans hok'
      exact ⟨hmn, hn, hver⟩
    · cases hok.symm.trans hf
  · obtain ⟨f, hf⟩ : ∃ f, consistencyProof C read P c m n = (c, .error f) :=
      consistencyProof_out hR h hin
    rw [hf] at hok
    cases hok

lemma inclusionProof_ready (idx n : Nat) :
    (inclusionProof C read P c idx n).1.Ready C RngHolds leaves := by
  by_cases hin : idx < n ∧ n ≤ leaves.length
  · obtain ⟨hidx, hn⟩ := hin
    have hleaf : leaves[idx]? = some leaves[idx] := getElem?_eq_getElem (by omega)
    exact (inclusionProof_spec hread hR hP h hidx hn hleaf).ready
  · obtain ⟨f, hf⟩ : ∃ f, inclusionProof C read P c idx n = (c, .error f) :=
      inclusionProof_out hR hP.inclusion_out h hin
    rw [hf]
    exact h

lemma consistencyProof_ready (m n : Nat) :
    (consistencyProof C read P c m n).1.Ready C RngHolds leaves := by
  by_cases hin : m ≤ n ∧ n ≤ leaves.length
  · exact (consistencyProof_spec hread hR hP h hin.1 hin.2).ready
  · obtain ⟨f, hf⟩ : ∃ f, consistencyProof C read P c m n = (c, .error f) :=
      consistencyProof_out hR h hin
    rw [hf]
    exact h

end

end

end Tree

end Stele
