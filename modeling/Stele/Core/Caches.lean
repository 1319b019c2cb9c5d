import Stele.Core.Serving
import Stele.Core.Stored

/-!
# The tree of a running log

The proofs of a log come from its tree, with the node cache and the leaf cache that the appends
have filled, and from the leaf mirror of its store. Over all runs of the operator both agree with
the entries.
-/

namespace Stele.Core

open Lib List

variable {C : Crypto} {R : RangeImpl Bytes} {RngHolds : R.Rng → List Bytes → Prop}

def Cached (C : Crypto) (RngHolds : R.Rng → List Bytes → Prop) (es : List Entry) (p : Proc R) :
    Prop :=
  ∃ pre, (⟨p.tree, 0⟩ : Tree.Call R).Ready C RngHolds (pre.map Entry.leafHash) ∧
    es = pre ++ p.pending

lemma threadStep_tree (opts : Options) (t : Tid) (r : Reads) (db : Db) (p : Proc R) :
    (threadStep C opts t r db p).2.1.tree = p.tree ∨
    ∃ e tree idx, p.pc t = .appendTree e ∧ p.tree.appendLeafHash e.leafHash = .ok (tree, idx) ∧
      (threadStep C opts t r db p).2.1.tree = tree := by
  have hacts := threadStep_acts C opts t r db p
  generalize threadStep C opts t r db p = out at hacts
  cases hacts with
  | publish hpc happ => exact .inr ⟨_, _, _, hpc, happ, rfl⟩
  | _ => exact .inl rfl

variable {es : List Entry}

section
variable (hR : R.Lawful (hashChildren C) (emptyRoot C) RngHolds)
include hR

lemma begins_unique {t : Tree R} {pre pre' : List Entry} (h : pre <+: es) (h' : pre' <+: es)
    (ht : t.Holds RngHolds (pre.map Entry.leafHash))
    (ht' : t.Holds RngHolds (pre'.map Entry.leafHash)) : pre = pre' := by
  have hlen : pre.length = pre'.length := by
    have hsize := Tree.size_eq hR ht
    rw [Tree.size_eq hR ht', length_map, length_map] at hsize
    exact hsize.symm
  rw [prefix_iff_eq_take.mp h, prefix_iff_eq_take.mp h', hlen]

variable {es' : List Entry}

lemma Cached.keep {p p' : Proc R} (h : Cached C RngHolds es p) (hpre : es <+: es')
    (hp' : p'.Inv C RngHolds es') (htree : p'.tree = p.tree) : Cached C RngHolds es' p' := by
  obtain ⟨pre, hready, hes⟩ := h
  obtain ⟨pre', hholds, hes'⟩ := hp'.tree
  refine ⟨pre', ?_, hes'⟩
  rw [htree] at hholds ⊢
  have hbegins : pre <+: es' := List.IsPrefix.trans ⟨_, hes.symm⟩ hpre
  rwa [← begins_unique hR hbegins ⟨_, hes'.symm⟩ hready.holds hholds]

variable (hrep : R.Reports (hashChildren C) (emptyRoot C) RngHolds)
include hrep

lemma Cached.appendTree {p p' : Proc R} {t : Tid} {e : Entry} {tree : Tree R} {idx : Nat}
    (h : Cached C RngHolds es p) (hp : p.Inv C RngHolds es) (hpc : p.pc t = .appendTree e)
    (happ : p.tree.appendLeafHash e.leafHash = .ok (tree, idx)) (hpre : es <+: es')
    (hp' : p'.Inv C RngHolds es') (htree : p'.tree = tree) : Cached C RngHolds es' p' := by
  obtain ⟨pre, hready, hes⟩ := h
  have hmu : p.mu = some t := hp.holder t (by rw [hpc]; rfl)
  have hpending : p.pending = [e] := by simp [Proc.pending, hmu, hpc, Pc.pending]
  rw [hpending] at hes
  obtain ⟨tree', happ', hholds⟩ := Tree.appendLeafHash_ok hR hready.holds e.leafHash
  cases happ.symm.trans happ'
  have hready' : (⟨tree, 0⟩ : Tree.Call R).Ready C RngHolds (es.map Entry.leafHash) := by
    rw [hes, map_append]
    exact ⟨hholds, Tree.appendLeafHash_cached hR hrep hready.holds happ hready.cached,
      Tree.appendLeafHash_stored hR hrep hready.holds happ hready.stored⟩
  obtain ⟨pre', hholds', hes'⟩ := hp'.tree
  refine ⟨pre', ?_, hes'⟩
  rw [htree] at hholds' ⊢
  rwa [← begins_unique hR hpre ⟨_, hes'.symm⟩ hready'.holds hholds']

lemma newLog_mirrored {opts : Options} {faults : Nat → ReplayFaults} {db db' : Db}
    (h : db.Holds C es) {tree : Tree R} (hnew : newLog C R opts faults db = (db', .ok tree)) :
    Mirrored C RngHolds (es.map Entry.leafHash) db' tree := by
  have hitems : (Disk.ofDb db).items = db.entry.toList := by
    have hsnd : (Disk.ofDb db).iter.map Prod.snd = es.map fun e => some e.marshal := by
      rw [Disk.ofDb, map_map]
      exact h.entry.values_eq
    rw [Disk.items, hsnd]
    exact h.entry.symm
  have hon : newLogOn C R opts faults (Disk.ofDb db) = (db', .ok tree) := by
    rw [← hnew, newLog_eq, newLogOn, hitems]
    rfl
  obtain ⟨es', hdec, hdone⟩ := newLogOn_ok hR hrep hon
  have hes : es' = es := by
    have hmap : es.map (Except.ok : Entry → Res Entry) = es'.map .ok := by
      rw [← hdec, Disk.ofDb, map_map]
      have hvalues := congrArg (List.map (Doc.decode Entry.unmarshal)) h.entry.values_eq
      rw [map_map, map_map] at hvalues
      refine (hvalues.trans (map_congr_left fun e he => ?_)).symm
      exact Entry.unmarshal_marshal (h.utf8 e he)
    exact (map_injective_iff.mpr (fun _ _ h => Except.ok.inj h) hmap).symm
  subst hes
  exact Disk.mirrored hdec hdone (untampered_of_holds h)

lemma step_cached (opts : Options) {s : State R} (h : s.Inv C RngHolds es)
    (hcached : ∀ p, s.proc = some p → Cached C RngHolds es p) {a : Action} (hpre : es <+: es')
    (h' : (step C opts s a).Inv C RngHolds es') :
    ∀ p, (step C opts s a).proc = some p → Cached C RngHolds es' p := by
  intro p' hp'
  have hinv := h'.proc p' hp'
  have hacts := step_acts C opts s a
  generalize step C opts s a = s' at hacts hp'
  cases hacts with
  | store => exact (hcached p' hp').keep hR hpre hinv rfl
  | begun hproc =>
    cases hp'
    exact (hcached _ hproc).keep hR hpre hinv rfl
  | @thread t r p hproc =>
    cases hp'
    rcases threadStep_tree (C := C) opts t r s.db p with hsame | ⟨e, tree, idx, hpc, happ, heq⟩
    · exact (hcached p hproc).keep hR hpre hinv (by rw [hsame])
    · exact (hcached p hproc).appendTree hR hrep (h.proc p hproc) hpc happ hpre hinv (by rw [heq])
  | crash => cases hp'
  | started _ hnew =>
    cases hp'
    have hready := (newLog_mirrored hR hrep h.db hnew).ready
    obtain ⟨pre', hholds, hes'⟩ := hinv.tree
    refine ⟨pre', ?_, hes'⟩
    rwa [← begins_unique hR hpre ⟨_, hes'.symm⟩ hready.holds hholds]

end

/-! ## The log as it is served -/

structure State.Upheld (C : Crypto) (RngHolds : R.Rng → List Bytes → Prop) (es : List Entry)
    (s : State R) : Prop where
  inv : s.Inv C RngHolds es
  recorded : Recorded C es s.db
  cached : ∀ p, s.proc = some p → Cached C RngHolds es p

lemma init_upheld : (init R).Upheld C RngHolds [] := ⟨init_inv, nofun, nofun⟩

lemma State.Upheld.step (hR : R.Lawful (hashChildren C) (emptyRoot C) RngHolds)
    (hrep : R.Reports (hashChildren C) (emptyRoot C) RngHolds) (opts : Options) {s : State R}
    (h : s.Upheld C RngHolds es) {a : Action} (ha : a.IsUtf8) :
    ∃ es', es <+: es' ∧ (step C opts s a).Upheld C RngHolds es' := by
  obtain ⟨es', hpre, hinv⟩ := step_inv h.inv hR opts ha
  obtain ⟨es'', hinv', hrec⟩ := step_recorded hR opts h.inv h.recorded ha
  obtain rfl : es'' = es' := hinv'.db.unique hinv.db
  exact ⟨es'', hpre, hinv, hrec, step_cached hR hrep opts h.inv h.cached hpre hinv⟩

lemma getEntry_of_holds {db : Db} (h : db.Holds C es) {i : Nat} {e : Entry}
    (he : es[i]? = some e) : db.getEntry none i = .ok e := by
  have hget : db.entry.get i = some (some e.marshal) := by
    rw [h.entry.get, getElem?_map, he]
    rfl
  simp only [Db.getEntry, Db.view, hget]
  exact Entry.unmarshal_marshal (h.utf8 e (mem_of_getElem? he))

lemma storeHas_of_holds {db : Db} (h : db.Holds C es) :
    StoreHas (es.map Entry.leafHash) db where
  leaf i x hi := by
    refine ⟨by rw [h.leaf.get, hi], fun hnil => ?_⟩
    rw [getElem?_map, Option.map_eq_some_iff] at hi
    obtain ⟨e, he, rfl⟩ := hi
    have hlen := (h.sound e (mem_of_getElem? he)).leafHash_length
    rw [hnil] at hlen
    cases hlen
  entry i x hi := by
    rw [getElem?_map, Option.map_eq_some_iff] at hi
    obtain ⟨e, he, rfl⟩ := hi
    exact ⟨e, getEntry_of_holds h he, rfl⟩
  rest i hi := by rw [h.entry.get, getElem?_eq_none (by simpa using hi)]
  size := by rw [h.size, length_map]
  head := by
    refine ⟨Db.headOf es, h.headVal_eq, fun hnil => ?_⟩
    rw [map_eq_nil_iff.mp hnil]
    rfl

/-- **A log whose lock is free is served**: its tree has every entry, and its store every leaf. -/
theorem State.Upheld.mirrored {s : State R} (h : s.Upheld C RngHolds es) {p : Proc R}
    (hp : s.proc = some p) (hfree : p.mu = none) :
    Mirrored C RngHolds (es.map Entry.leafHash) s.db p.tree := by
  obtain ⟨pre, hready, hes⟩ := h.cached p hp
  rw [Proc.pending, hfree, append_nil] at hes
  subst hes
  exact ⟨hready, storeHas_of_holds h.inv.db⟩

end Stele.Core
