import Stele.Core.Serving

/-!
# Restarts of an operator

What `New` finds on the store that an operator left.
-/

namespace Stele.Core

open Lib List

variable {C : Crypto} {R : RangeImpl Bytes} {RngHolds : R.Rng → List Bytes → Prop}

/-! ## What was accepted -/

/-- **Accepted entries do not prevent a restart**: after every run that submits envelopes with
UTF-8 strings each stored document is an entry that passes `Verify`, and `New` succeeds, with any
options, with the size and the root of the running log. -/
theorem accepted_restarts (hR : R.Lawful (hashChildren C) (emptyRoot C) RngHolds) (opts : Options)
    (as : List Action) (has : ∀ a ∈ as, a.IsUtf8) :
    (∀ i doc, (run (step C opts) (init R) as).db.entry.get i = some doc →
      ∃ e, doc.decode Entry.unmarshal = .ok e ∧ e.verify C = .ok ()) ∧
    ∀ opts' faults, ReadsOk faults → ∃ db tree,
      newLog C R opts' faults (run (step C opts) (init R) as).db = (db, .ok tree) ∧
      ∀ p, (run (step C opts) (init R) as).proc = some p → (∀ t e, p.pc t ≠ .appendTree e) →
        tree.size = p.tree.size ∧ tree.root C = p.tree.root C := by
  obtain ⟨es, h⟩ := run_inv hR opts has
  refine ⟨fun i doc hi => ?_, fun opts' faults hf => ?_⟩
  · rw [h.db.entry.get, List.getElem?_map, Option.map_eq_some_iff] at hi
    obtain ⟨e, he, rfl⟩ := hi
    have hmem := mem_of_getElem? he
    exact ⟨e, Entry.unmarshal_marshal (h.db.utf8 e hmem), Entry.verify_ok.mpr (h.db.sound e hmem)⟩
  · obtain ⟨db, res, hnew, -, htree, hok⟩ := newLog_holds hR opts' faults h.db
    obtain ⟨tree, rfl⟩ := hok hf
    refine ⟨db, tree, hnew, fun p hp hquiet => ?_⟩
    have hrebuilt := htree tree rfl
    have hrunning := tree_of_quiet (h.proc p hp) hquiet
    exact ⟨by rw [Tree.size_eq hR hrebuilt, Tree.size_eq hR hrunning],
      by rw [Tree.root_eq hR hrebuilt, Tree.root_eq hR hrunning]⟩

theorem accepted_restarts_sample :
    sampleState.db.entry.keys = [0] ∧
    ∃ db tree, newLog Crypto.sample sampleRange {} (fun _ => {}) sampleState.db =
      (db, .ok tree) := by
  obtain ⟨db, tree, hnew, -⟩ := (accepted_restarts (leafList_lawful _ _) {} sampleRun
    (by decide +kernel)).2 {} (fun _ => {}) (fun _ => ⟨rfl, rfl, rfl⟩)
  exact ⟨by decide +kernel, db, tree, hnew⟩

def rawEnvelope : Envelope :=
  let env := { sampleEnvelope with source := [255] }
  { env with signature := Crypto.sample.edSign (List.replicate 32 5) env.canonical }

def rawRun : List Action :=
  [.start fun _ => {}, .registerProducer none 1 { id := lit "p", publicKey := List.replicate 32 5 },
    .callAppend 0 (some rawEnvelope) false] ++ steps 0 6

def rawState : State sampleRange := run (step Crypto.sample {}) (init sampleRange) rawRun

/-- **An accepted entry stops every restart**: the envelope is appended, but what is stored does not
pass `Verify`. -/
theorem raw_source_stops_restart :
    entryIndices rawState.returned = [0] ∧
    (rawState.db.getEntry none 0).toOption.map (fun e => (e.verify Crypto.sample).isOk) =
      some false ∧
    (newLog Crypto.sample sampleRange {} (fun _ => {}) rawState.db).2.isOk = false := by
  decide +kernel

/-! ## A mirror with gaps -/

structure Thinned (db₀ db : Db) : Prop where
  same : SameButLeaf db₀ db
  leaf : ∀ i h, db.leaf.get i = some h → db₀.leaf.get i = some h

/-- The replay of `es` after the entries `pre`, on a store without part of its mirror. -/
structure Replay.Fills (RngHolds : R.Rng → List Bytes → Prop) (db₀ : Db) (pre : List Entry)
    (s : Replay R) : Prop where
  db : Thinned db₀ s.db
  tree : s.tree.Holds RngHolds (pre.map Entry.leafHash)
  prev : s.prev = Entry.lastOr none pre
  count : s.count = pre.length

def WritesOk (faults : Nat → ReplayFaults) : Prop := ∀ i, (faults i).putLeaf = none

lemma backfill_thinned {db₀ db : Db} (h : Thinned db₀ db) {e : Entry}
    (he : db₀.leaf.get e.index = some e.leafHash) (f : ReplayFaults) :
    Thinned db₀ (backfill f e db).1 := by
  refine ⟨h.same.trans (backfill_sameButLeaf f e db), ?_⟩
  rcases hback : backfill f e db with ⟨db', flt | u⟩
  · -- an error leaves the store as it is
    have hsame : db' = db := by
      unfold backfill at hback
      split at hback
      · exact (congrArg Prod.fst hback).symm
      · cases hback
      · rcases hput : db.putLeafHash f.putLeaf e.index e.leafHash with ⟨db'', flt' | u⟩
        · rw [hput] at hback
          have hfst : db'' = db' := congrArg Prod.fst hback
          exact hfst ▸ Db.update_error hput
        · rw [hput] at hback
          cases hback
    exact hsame ▸ h.leaf
  · obtain ⟨-, hnew, hold⟩ := backfill_ok hback
    intro i x hx
    by_cases hi : i = e.index
    · subst hi
      rw [hnew] at hx
      cases hx
      cases hleaf : db.leaf.get e.index with
      | none => exact he
      | some =>
        have hy := h.leaf _ _ hleaf
        unfold fillLeaf
        simp only
        split
        · exact he
        · exact hy
    · rw [hold i hi] at hx
      exact h.leaf i x hx

lemma backfill_succeeds {f : ReplayFaults} (hget : f.getLeaf = none) (hput : f.putLeaf = none)
    (e : Entry) (db : Db) : (backfill f e db).2 = .ok () := by
  unfold backfill
  rw [hget, hput]
  simp only [Db.getLeafHash, Db.view, Db.putLeafHash, Db.update]
  cases db.leaf.get e.index with
  | none => rfl
  | some h =>
    by_cases hh : h = []
    · simp only [if_pos hh]
      rfl
    · simp only [if_neg hh]
      rfl

section
variable (hR : R.Lawful (hashChildren C) (emptyRoot C) RngHolds) {db₀ : Db} {es : List Entry}
  (h₀ : db₀.Holds C es)
include hR h₀

lemma replayEntry_fills {pre rest : List Entry} {e : Entry} (hes : es = pre ++ e :: rest)
    {s : Replay R} (h : s.Fills RngHolds db₀ pre) (f : ReplayFaults) :
    Thinned db₀ (replayEntry C f s e).1.db ∧
      ((replayEntry C f s e).2 = .ok () → (replayEntry C f s e).1.Fills RngHolds db₀ (pre ++ [e])) ∧
      (f.getLeaf = none → f.putLeaf = none → (replayEntry C f s e).2 = .ok ()) := by
  obtain ⟨hcheck, hidx⟩ := replayCheck_of_chained hes h₀.sound h₀.chained
  have hleaf : db₀.leaf.get e.index = some e.leafHash := by
    rw [h₀.leaf.get, hidx, List.getElem?_map, hes]
    simp
  have hthin := backfill_thinned h.db hleaf f
  have hsucceeds : f.getLeaf = none → f.putLeaf = none → (backfill f e s.db).2 = .ok () :=
    fun hget hput => backfill_succeeds hget hput e s.db
  obtain ⟨tree, happ, htree⟩ := Tree.appendLeafHash_ok hR h.tree e.leafHash
  unfold replayEntry
  rw [h.prev, hcheck]
  rcases hback : backfill f e s.db with ⟨db', flt | u⟩
  · rw [hback] at hthin hsucceeds
    refine ⟨hthin, ?_, fun hget hput => ?_⟩
    · rintro ⟨⟩
    · cases hsucceeds hget hput
  · rw [hback] at hthin
    simp only [happ]
    refine ⟨hthin, fun _ => ⟨hthin, ?_, ?_, ?_⟩, fun _ _ => trivial⟩
    · rw [map_append]
      exact htree
    · simp [Entry.lastOr]
    · simp [h.count]

/-- The loop keeps the store thinned, and it ends when nothing fails. -/
lemma replayEntries_fills (faults : Nat → ReplayFaults) {pre rest : List Entry}
    (hes : es = pre ++ rest) {s : Replay R} (h : s.Fills RngHolds db₀ pre) :
    ∃ s' res, replayEntries C faults
        (((rest.map fun e => some e.marshal).zipIdx pre.length).map Prod.swap) s = (s', res) ∧
      Thinned db₀ s'.db ∧ (res = .ok () → s'.Fills RngHolds db₀ es) ∧
      (ReadsOk faults → WritesOk faults → res = .ok ()) := by
  induction rest generalizing pre s with
  | nil =>
    rw [append_nil] at hes
    subst hes
    exact ⟨s, _, rfl, h.db, fun _ => h, fun _ _ => rfl⟩
  | cons e rest ih =>
    rw [map_cons, zipIdx_cons, map_cons, Prod.swap_prod_mk, replayEntries]
    rcases itemEntry_eq (h₀.utf8 e (by simp [hes])) (faults pre.length) with
      hitem | ⟨flt, hitem, hflt⟩
    · obtain ⟨hthin, hnext, hstop⟩ := replayEntry_fills hR h₀ hes h (faults pre.length)
      rcases hentry : replayEntry C (faults pre.length) s e with ⟨s', flt | u⟩
      · rw [hentry] at hthin hstop
        simp only [hitem, hentry]
        exact ⟨_, _, rfl, hthin, (fun hok => by cases hok),
          fun hr hw => by cases hstop (hr _).2.2 (hw _)⟩
      · rw [hentry] at hnext
        simp only [hitem, hentry]
        have hes' : es = (pre ++ [e]) ++ rest := by simp [hes]
        have hrest := ih hes' (hnext rfl)
        rwa [length_append] at hrest
    · rw [hitem]
      refine ⟨_, _, rfl, h.db, (fun hok => by cases hok), fun hr _ => ?_⟩
      exact absurd ⟨(hr _).1, (hr _).2.1⟩ hflt

/-- **A start leaves the store thinned**, wherever it is cut off, and it succeeds when nothing
fails. -/
theorem newLog_thinned (opts : Options) (faults : Nat → ReplayFaults) {db : Db}
    (h : Thinned db₀ db) :
    Thinned db₀ (newLog C R opts faults db).1 ∧
      (ReadsOk faults → WritesOk faults → ∃ tree, (newLog C R opts faults db).2 = .ok tree) := by
  have hstart : Replay.Fills RngHolds db₀ [] (⟨db, .newBoundedTreeWithStore R
      opts.merkleCacheNodes opts.merkleLeafCacheNodes .adapter, none, 0⟩ : Replay R) :=
    ⟨h, Tree.newBoundedTreeWithStore_holds hR _ _ _, rfl, rfl⟩
  obtain ⟨s, res, hrun, hthin, hall, hok⟩ :=
    replayEntries_fills hR h₀ faults (nil_append es).symm hstart
  have hitems : db.entry.toList = ((es.map fun e => some e.marshal).zipIdx 0).map Prod.swap := by
    obtain ⟨leaf, rfl⟩ := h.same
    exact h₀.entry
  unfold newLog replay
  rw [hitems]
  rw [length_nil] at hrun
  rw [hrun]
  cases res with
  | error => exact ⟨hthin, fun hr hw => by cases hok hr hw⟩
  | ok =>
    have hs := hall rfl
    have hcount : s.count = s.tree.size := by rw [Tree.size_eq hR hs.tree, hs.count, length_map]
    simp only [hcount, ne_eq, not_true_eq_false, ↓reduceIte]
    exact ⟨hthin, fun _ _ => ⟨_, rfl⟩⟩

/-- Starts one after another, each with its options and its faults. A crash after a number of
writes leaves what a fault at the next iteration leaves. -/
lemma starts_thinned {db : Db} (h : Thinned db₀ db)
    (starts : List (Options × (Nat → ReplayFaults))) :
    Thinned db₀ (run (fun db x => (newLog C R x.1 x.2 db).1) db starts) := by
  refine run_invariant (I := Thinned db₀) (fun db x _ hdb => ?_) h fun _ _ => trivial
  exact (newLog_thinned hR h₀ x.1 x.2 hdb).1

end

lemma Thinned.untampered {db₀ db : Db} {es : List Entry} (h : Thinned db₀ db)
    (h₀ : db₀.Holds C es) : (Disk.ofDb db).Untampered := by
  have hbase := untampered_of_holds h₀
  obtain ⟨leaf, rfl⟩ := h.same
  refine ⟨hbase.keys, fun i key doc e x hitem hdoc hx => ?_, hbase.size, hbase.head_empty,
    hbase.head⟩
  exact hbase.leaf i key doc e x hitem hdoc (h.leaf i x hx)

lemma newLog_ofDb {db : Db} {docs : List Doc} (h : db.entry.IsSeq docs) (opts : Options)
    (faults : Nat → ReplayFaults) :
    newLog C R opts faults db = newLogOn C R opts faults (.ofDb db) := by
  have hitems : (Disk.ofDb db).items = db.entry.toList := by
    have hvalues : (Disk.ofDb db).iter.map Prod.snd = docs := by
      rw [← h.values_eq, Disk.ofDb, map_map]
      rfl
    rw [Disk.items, hvalues]
    exact h.symm
  rw [newLog_eq, newLogOn, hitems]
  rfl

def cutOff : Options × (Nat → ReplayFaults) :=
  ({ merkleLeafCacheNodes := 1 }, fun _ => { putLeaf := some (.errorf "crash" []) })

end Stele.Core
