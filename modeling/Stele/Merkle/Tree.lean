import Stele.Crypto
import Stele.Lib.Lru
import Stele.Lib.Rfc6962

/-!
# The Merkle tree (`pkg/merkle`)

`Tree` keeps a compact range, a leaf store and two caches of node hashes. The compact range is the
`transparency-dev/merkle` code and stands as a parameter `R`; what the development assumes about it
is `Lib.RangeImpl.Lawful`.
-/

namespace Stele

open Lib

section Hasher
variable (C : Crypto)

def hashLeaf (data : Bytes) : Bytes := C.sha256 (0 :: data)

def hashChildren (l r : Bytes) : Bytes := C.sha256 (1 :: (l ++ r))

def emptyRoot : Bytes := C.sha256 []

def rfc6962Root (leaves : List Bytes) : Bytes := mth (hashChildren C) (emptyRoot C) leaves

lemma hashLeaf_length (data : Bytes) : (hashLeaf C data).length = 32 := C.sha256_length _

end Hasher

/-- `LeafStore`: the in-memory default, or the adapter to the database, whose `PutLeafHash` does
nothing because the leaf is written with its entry. -/
inductive LeafStore
  | mem (leaves : AList fun _ : Nat => Bytes)
  | adapter

def LeafStore.putLeafHash (idx : Nat) (hash : Bytes) : LeafStore → LeafStore
  | .mem leaves => .mem (leaves.insert idx hash)
  | .adapter => .adapter

structure Tree (R : RangeImpl Bytes) where
  rng : R.Rng
  leafStore : LeafStore
  leafLRU : Lru Nat Bytes
  maxLeaf : Nat
  internal : Lru NodeID Bytes
  maxInternal : Nat

namespace Tree

variable {R : RangeImpl Bytes} (C : Crypto)

def newBoundedTreeWithStore (R : RangeImpl Bytes) (maxInternalNodes maxLeafNodes : Nat)
    (ls : LeafStore) : Tree R where
  rng := R.newEmptyRange
  leafStore := ls
  leafLRU := .empty
  maxLeaf := maxLeafNodes
  internal := .empty
  maxInternal := maxInternalNodes

def putLeaf (t : Tree R) (idx : Nat) (hash : Bytes) : Tree R :=
  { t with
    leafStore := t.leafStore.putLeafHash idx hash
    leafLRU := t.leafLRU.put t.maxLeaf idx hash }

def putNode (t : Tree R) (id : NodeID) (hash : Bytes) : Tree R :=
  if id.level = 0 then t.putLeaf id.index hash
  else { t with internal := t.internal.put t.maxInternal id hash }

def size (t : Tree R) : Nat := R.stop t.rng

def root (t : Tree R) : Res Bytes :=
  if t.size = 0 then .ok (emptyRoot C)
  else
    match R.getRootHash t.rng with
    | .ok h => .ok h
    | .error _ => .error (.panic "merkle: GetRootHash failed")

def appendLeafHash (t : Tree R) (leafHash : Bytes) : Res (Tree R × Nat) :=
  let idx := t.size
  let t := t.putNode ⟨0, idx⟩ leafHash
  match R.append t.rng leafHash with
  | .ok (rng, visits) =>
    .ok (visits.foldl (fun t v => t.putNode v.1 v.2) { t with rng := rng }, idx)
  | .error _ => .error (.panic "merkle: Append failed")

/-! ## What the tree holds -/

@[simp] lemma putNode_rng (t : Tree R) (id : NodeID) (hash : Bytes) :
    (t.putNode id hash).rng = t.rng := by
  unfold putNode; split <;> rfl

lemma foldl_putNode_rng (visits : List (NodeID × Bytes)) (t : Tree R) :
    (visits.foldl (fun t v => t.putNode v.1 v.2) t).rng = t.rng := by
  induction visits generalizing t with
  | nil => rfl
  | cons v visits ih => rw [List.foldl_cons, ih, putNode_rng]

def Holds (RngHolds : R.Rng → List Bytes → Prop) (t : Tree R) (leaves : List Bytes) : Prop :=
  RngHolds t.rng leaves

variable {C} {RngHolds : R.Rng → List Bytes → Prop}
  (hR : R.Lawful (hashChildren C) (emptyRoot C) RngHolds) {t : Tree R} {leaves : List Bytes}
include hR

lemma newBoundedTreeWithStore_holds (maxInternalNodes maxLeafNodes : Nat) (ls : LeafStore) :
    (newBoundedTreeWithStore R maxInternalNodes maxLeafNodes ls).Holds RngHolds [] :=
  hR.holds_empty

section

variable (h : t.Holds RngHolds leaves)

include h

lemma size_eq : t.size = leaves.length := hR.stop_eq h

lemma root_eq : t.root C = .ok (rfc6962Root C leaves) := by
  unfold root
  rw [size_eq hR h]
  split
  · rename_i hz
    rw [List.length_eq_zero_iff.mp hz]
    rfl
  · rename_i hz
    have hne : leaves ≠ [] := fun he => hz (by rw [he]; rfl)
    rw [hR.root_eq h hne]
    rfl

lemma appendLeafHash_ok (leafHash : Bytes) :
    ∃ t', t.appendLeafHash leafHash = .ok (t', leaves.length) ∧
      t'.Holds RngHolds (leaves ++ [leafHash]) := by
  obtain ⟨rng, visits, happ, hrng⟩ := hR.append_ok leafHash h
  refine ⟨visits.foldl (fun t v => t.putNode v.1 v.2)
    { t.putNode ⟨0, t.size⟩ leafHash with rng := rng }, ?_, ?_⟩
  · unfold appendLeafHash
    simp only [putNode_rng, happ, size_eq hR h]
  · unfold Holds
    rw [foldl_putNode_rng]
    exact hrng

end

end Tree

end Stele
