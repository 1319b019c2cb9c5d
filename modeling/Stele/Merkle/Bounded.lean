import Stele.Lib.AuditPaths
import Stele.Lib.Runs
import Stele.Merkle.Proofs

/-!
# Bounded trees (`pkg/merkle`)

A tree with bounded caches forgets nodes and computes them again from the leaf store, and every
request for a proof moves cache entries. What it serves depends on the leaves alone.
-/

namespace Stele.Tree

open Lib List

variable {R : RangeImpl Bytes}

/-- A call on a tree. A request for a proof comes with the answers of the leaf store. -/
inductive Use
  | appendLeafHash (leafHash : Bytes)
  | inclusionProof (read : LeafReads) (idx treeSize : Nat)
  | consistencyProof (read : LeafReads) (oldSize newSize : Nat)

def use (C : Crypto) (P : ProofImpl Bytes) (t : Tree R) : Use → Tree R
  | .appendLeafHash leafHash =>
    match t.appendLeafHash leafHash with
    | .ok (t', _) => t'
    | .error _ => t
  | .inclusionProof read idx treeSize => (inclusionProof C read P ⟨t, 0⟩ idx treeSize).1.tree
  | .consistencyProof read oldSize newSize =>
    (consistencyProof C read P ⟨t, 0⟩ oldSize newSize).1.tree

def Use.leaf : Use → Option Bytes
  | .appendLeafHash leafHash => some leafHash
  | .inclusionProof .. => none
  | .consistencyProof .. => none

def appended (us : List Use) : List Bytes := us.filterMap Use.leaf

lemma append_leaf_appended (leaves : List Bytes) (u : Use) (us : List Use) :
    leaves ++ u.leaf.toList ++ appended us = leaves ++ appended (u :: us) := by
  rw [append_assoc, appended, appended]
  cases hu : u.leaf <;> simp [hu]

def Use.Faithful (leaves : List Bytes) : Use → Prop
  | .appendLeafHash _ => True
  | .inclusionProof read _ _ => ReadsOf leaves read
  | .consistencyProof read _ _ => ReadsOf leaves read

def Faithful : List Bytes → List Use → Prop
  | _, [] => True
  | leaves, u :: us => u.Faithful leaves ∧ Faithful (leaves ++ u.leaf.toList) us

section
variable {C : Crypto} {RngHolds : R.Rng → List Bytes → Prop}
  (hR : R.Lawful (hashChildren C) (emptyRoot C) RngHolds)
  (hrep : R.Reports (hashChildren C) (emptyRoot C) RngHolds)
  {P : ProofImpl Bytes} (hP : P.Rfc6962 (hashChildren C) (emptyRoot C)) {leaves : List Bytes}
  {c : Call R} {read : LeafReads} (hread : ReadsOf leaves read)

include hR hP hread

lemma inclusionProof_path (h : c.Ready C RngHolds leaves) {idx n : Nat} (hidx : idx < n)
    (hn : n ≤ leaves.length) :
    Serves C RngHolds leaves read
      (· = auditPath (hashChildren C) (emptyRoot C) idx (leaves.take n))
      (inclusionProof C read P c idx n) := by
  obtain ⟨nodes, hnodes, hids, hpath⟩ := hP.inclusion hidx
  have hlen : (leaves.take n).length = n := by rw [length_take, Nat.min_eq_left hn]
  exact inclusionProof_serves hread hR h hn ⟨nodes, hnodes, hids, _, hpath _ hlen, rfl⟩

lemma consistencyProof_path (h : c.Ready C RngHolds leaves) {m n : Nat} (hmn : m ≤ n)
    (hn : n ≤ leaves.length) :
    Serves C RngHolds leaves read
      (· = consistencyPath (hashChildren C) (emptyRoot C) m (leaves.take n))
      (consistencyProof C read P c m n) := by
  have hlen : (leaves.take n).length = n := by rw [length_take, Nat.min_eq_left hn]
  by_cases htrivial : m = 0 ∨ m = n
  · rw [consistencyProof_trivial hR h hmn hn htrivial]
    refine h.ok ?_
    by_cases hz : m = 0
    · rw [consistencyPath, if_pos hz]
    · have hne : leaves.take n ≠ [] := ne_nil_of_length_pos (by omega)
      have hall := subProof_all (hashChildren C) (emptyRoot C) true hne
      rw [hlen] at hall
      rw [consistencyPath, if_neg hz, htrivial.resolve_left hz, hall]
      rfl
  · obtain ⟨hm, hne⟩ := not_or.mp htrivial
    have hpos : 0 < m := Nat.pos_of_ne_zero hm
    have hlt : m < n := Nat.lt_of_le_of_ne hmn hne
    obtain ⟨nodes, hnodes, hids, hpath⟩ := hP.consistency hpos hlt
    exact consistencyProof_serves hread hR h hpos hlt hn ⟨nodes, hnodes, hids, _, hpath _ hlen, rfl⟩

omit hread
include hrep

lemma ready_use {t : Tree R} (h : Call.Ready C RngHolds leaves ⟨t, 0⟩) {u : Use}
    (hu : u.Faithful leaves) :
    Call.Ready C RngHolds (leaves ++ u.leaf.toList) ⟨use C P t u, 0⟩ := by
  cases u with
  | appendLeafHash leafHash =>
    obtain ⟨t', happ, hholds⟩ := appendLeafHash_ok hR h.holds leafHash
    have huse : use C P t (.appendLeafHash leafHash) = t' := by rw [use, happ]
    rw [huse]
    exact ⟨hholds, appendLeafHash_cached hR hrep h.holds happ h.cached,
      appendLeafHash_stored hR hrep h.holds happ h.stored⟩
  | inclusionProof read idx n =>
    have hready : (inclusionProof C read P ⟨t, 0⟩ idx n).1.Ready C RngHolds leaves := by
      by_cases hin : idx < n ∧ n ≤ leaves.length
      · exact (inclusionProof_path hR hP hu h hin.1 hin.2).ready
      · obtain ⟨f, hf⟩ : ∃ f, inclusionProof C read P ⟨t, 0⟩ idx n = (⟨t, 0⟩, .error f) :=
          inclusionProof_out hR hP.inclusion_out h hin
        rw [hf]
        exact h
    rw [Use.leaf, Option.toList_none, append_nil]
    exact ⟨hready.holds, hready.cached, hready.stored⟩
  | consistencyProof read m n =>
    have hready : (consistencyProof C read P ⟨t, 0⟩ m n).1.Ready C RngHolds leaves := by
      by_cases hin : m ≤ n ∧ n ≤ leaves.length
      · exact (consistencyProof_path hR hP hu h hin.1 hin.2).ready
      · obtain ⟨f, hf⟩ : ∃ f, consistencyProof C read P ⟨t, 0⟩ m n = (⟨t, 0⟩, .error f) :=
          consistencyProof_out hR h hin
        rw [hf]
        exact h
    rw [Use.leaf, Option.toList_none, append_nil]
    exact ⟨hready.holds, hready.cached, hready.stored⟩

lemma ready_run {t : Tree R} (h : Call.Ready C RngHolds leaves ⟨t, 0⟩) {us : List Use}
    (hus : Faithful leaves us) :
    Call.Ready C RngHolds (leaves ++ appended us) ⟨run (use C P) t us, 0⟩ := by
  induction us generalizing t leaves with
  | nil =>
    rw [appended, filterMap_nil, append_nil]
    exact h
  | cons u us ih =>
    have hnext := ih (ready_use hR hrep hP h hus.1) hus.2
    rwa [append_leaf_appended] at hnext

omit hP hrep in
lemma new_ready (maxInternalNodes maxLeafNodes : Nat) (ls : LeafStore) :
    Call.Ready C RngHolds [] ⟨newBoundedTreeWithStore R maxInternalNodes maxLeafNodes ls, 0⟩ := by
  refine ⟨newBoundedTreeWithStore_holds hR _ _ _, newBoundedTreeWithStore_cached C _ _ _, ?_⟩
  cases ls with
  | mem => exact nofun
  | adapter => trivial

lemma ready_history (maxInternalNodes maxLeafNodes : Nat) (ls : LeafStore) {us : List Use}
    (hus : Faithful [] us) : Call.Ready C RngHolds (appended us)
      ⟨run (use C P) (newBoundedTreeWithStore R maxInternalNodes maxLeafNodes ls) us, 0⟩ :=
  ready_run hR hrep hP (new_ready hR _ _ ls) hus

/-- **A bounded tree proves what an unbounded one proves.** After any history of appends and
requests, whatever the bounds of the caches and whatever was evicted or asked for before, each
inclusion proof is the audit path and each consistency proof the one of RFC 6962, over the leaves of
the size that was asked for. -/
theorem bounded_proofs (maxInternalNodes maxLeafNodes : Nat) (ls : LeafStore) (us : List Use)
    (hus : Faithful [] us) (read : LeafReads) (hread : ReadsOf (appended us) read)
    (hok : NoFault read) :
    let t := run (use C P) (newBoundedTreeWithStore R maxInternalNodes maxLeafNodes ls) us
    t.size = (appended us).length ∧
    (∀ idx n, idx < n → n ≤ t.size → (inclusionProof C read P ⟨t, 0⟩ idx n).2 =
      .ok (auditPath (hashChildren C) (emptyRoot C) idx ((appended us).take n))) ∧
    ∀ m n, m ≤ n → n ≤ t.size → (consistencyProof C read P ⟨t, 0⟩ m n).2 =
      .ok (consistencyPath (hashChildren C) (emptyRoot C) m ((appended us).take n)) := by
  have hready := ready_history hR hrep hP maxInternalNodes maxLeafNodes ls hus
  have hsize := size_eq hR hready.holds
  exact ⟨hsize,
    fun idx n hidx hn => (inclusionProof_path hR hP hread hready hidx (hsize ▸ hn)).value hok,
    fun m n hmn hn => (consistencyProof_path hR hP hread hready hmn (hsize ▸ hn)).value hok⟩

end

def readsFrom (leaves : List Bytes) : LeafReads := fun _ i => .ok leaves[i]?

lemma readsFrom_spec (leaves : List Bytes) :
    ReadsOf leaves (readsFrom leaves) ∧ NoFault (readsFrom leaves) :=
  ⟨fun _ _ _ hi => .inl (congrArg Except.ok hi), nofun⟩

def sampleHistory : List Use :=
  [.appendLeafHash [1], .appendLeafHash [2], .inclusionProof (readsFrom [[1], [2]]) 0 2,
    .appendLeafHash [3]]

theorem bounded_proofs_sample :
    let t := run (use Crypto.sample (pathTree (hashChildren .sample) (emptyRoot .sample)))
      (newBoundedTreeWithStore (leafList (hashChildren .sample) (emptyRoot .sample)) 1 1 .adapter)
      sampleHistory
    t.leafLRU.order.length = 1 ∧
    (inclusionProof .sample (readsFrom [[1], [2], [3]])
      (pathTree (hashChildren .sample) (emptyRoot .sample)) ⟨t, 0⟩ 0 3).2 = .ok [[2], [3]] := by
  have hproofs := bounded_proofs (leafList_lawful (hashChildren .sample) (emptyRoot .sample))
    (leafList_reports _ _) (pathTree_rfc6962 _ _) 1 1 .adapter sampleHistory
    ⟨trivial, trivial, (readsFrom_spec _).1, trivial, trivial⟩ (readsFrom [[1], [2], [3]])
    (readsFrom_spec _).1 (readsFrom_spec _).2
  refine ⟨by decide +kernel, (hproofs.2.1 0 3 (by decide) ?_).trans (by decide +kernel)⟩
  rw [hproofs.1]
  decide

end Stele.Tree
