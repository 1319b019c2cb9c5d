import Stele.Core.Append
import Stele.Merkle.Proofs

/-!
# Starting on a database that somebody may have edited

`New` replays the entries of any store. It checks every entry and its link to the one before it, and
it rebuilds the tree; it compares neither the keys, nor the leaf mirror, nor the metadata with what
it read.
-/

namespace Stele.Core

open Lib List

variable {R : RangeImpl Bytes}

/-! ## Any content of the store -/

inductive EntryKey
  | index (i : Nat)
  | stray (suffix : Bytes)
  deriving DecidableEq, Repr

def indexed : EntryKey × Doc → Option (Nat × Doc)
  | (.index i, doc) => some (i, doc)
  | (.stray _, _) => none

/-- A store, and what an iteration over `entry/` meets: the keys that are indices are those of the
store, any others may lie between them. -/
structure Disk where
  db : Db
  iter : List (EntryKey × Doc)
  iter_indexed : iter.filterMap indexed = db.entry.toList

def Disk.items (d : Disk) : List (Nat × Doc) := (d.iter.map Prod.snd).zipIdx.map Prod.swap

def replayItems (C : Crypto) (faults : Nat → ReplayFaults) (items : List (Nat × Doc)) (db : Db)
    (tree : Tree R) : Db × Res (Tree R) :=
  match replayEntries C faults items ⟨db, tree, none, 0⟩ with
  | (s, .error flt) => (s.db, .error flt)
  | (s, .ok ()) =>
    if s.count ≠ s.tree.size then
      (s.db, .error (errorf "replay: tree size %d != entries replayed %d"
        [.nat s.tree.size, .nat s.count]))
    else (s.db, .ok s.tree)

def newLogOn (C : Crypto) (R : RangeImpl Bytes) (opts : Options) (faults : Nat → ReplayFaults)
    (d : Disk) : Db × Res (Tree R) :=
  replayItems C faults d.items d.db
    (.newBoundedTreeWithStore R opts.merkleCacheNodes opts.merkleLeafCacheNodes .adapter)

lemma newLog_eq (C : Crypto) (R : RangeImpl Bytes) (opts : Options)
    (faults : Nat → ReplayFaults) (db : Db) :
    newLog C R opts faults db = replayItems C faults db.entry.toList db
      (.newBoundedTreeWithStore R opts.merkleCacheNodes opts.merkleLeafCacheNodes .adapter) :=
  rfl

/-! ## What a replay leaves -/

def fillLeaf (e : Entry) : Option Bytes → Bytes
  | none => e.leafHash
  | some h => if h = [] then e.leafHash else h

structure Replay.Done (C : Crypto) (RngHolds : R.Rng → List Bytes → Prop) (db : Db)
    (es : List Entry) (s : Replay R) : Prop where
  tree : s.tree.Holds RngHolds (es.map Entry.leafHash)
  cached : s.tree.Cached C (es.map Entry.leafHash)
  stored : s.tree.leafStore.Stored (es.map Entry.leafHash)
  prev : s.prev = Entry.lastOr none es
  sound : ∀ e ∈ es, e.Sound C
  chained : Entry.Chained none es
  same : SameButLeaf db s.db
  leaf : ∀ i e, es[i]? = some e → s.db.leaf.get i = some (fillLeaf e (db.leaf.get i))
  rest : ∀ i, es.length ≤ i → s.db.leaf.get i = db.leaf.get i

section
variable {C : Crypto} {RngHolds : R.Rng → List Bytes → Prop}

lemma backfill_ok {f : ReplayFaults} {e : Entry} {db db' : Db} {u : Unit}
    (h : backfill f e db = (db', .ok u)) :
    SameButLeaf db db' ∧ db'.leaf.get e.index = some (fillLeaf e (db.leaf.get e.index)) ∧
      ∀ i, i ≠ e.index → db'.leaf.get i = db.leaf.get i := by
  have hsame := backfill_sameButLeaf f e db
  rw [h] at hsame
  refine ⟨hsame, ?_⟩
  have hput : ∀ {put : Res Unit}, db.putLeafHash f.putLeaf e.index e.leafHash = (db', put) →
      put = .ok u → db'.leaf = db.leaf.set e.index e.leafHash := by
    intro put hput hok
    unfold Db.putLeafHash at hput
    rcases db.update_cases f.putLeaf _ with ⟨db'', htxn, heq⟩ | ⟨flt, heq⟩
    · rw [heq] at hput
      cases hput
      cases htxn
      rfl
    · rw [heq] at hput
      cases hput
      cases hok
  have hwritten : (db.leaf.get e.index = none ∨ db.leaf.get e.index = some []) →
      db'.leaf = db.leaf.set e.index e.leafHash →
      db'.leaf.get e.index = some (fillLeaf e (db.leaf.get e.index)) ∧
        ∀ i, i ≠ e.index → db'.leaf.get i = db.leaf.get i := by
    intro hold hset
    rw [hset]
    refine ⟨?_, fun i hi => OrdMap.get_set_ne _ hi _⟩
    rw [OrdMap.get_set_self]
    rcases hold with hold | hold
    · rw [hold]
      rfl
    · rw [hold]
      rfl
  unfold backfill at h
  cases hfault : f.getLeaf with
  | some => simp [hfault, Db.getLeafHash, Db.view, wrapErr, Except.mapError] at h
  | none =>
    simp only [hfault, Db.getLeafHash, Db.view] at h
    cases hleaf : db.leaf.get e.index with
    | none =>
      rw [← hleaf]
      apply hwritten (.inl hleaf)
      simp only [hleaf, wrapErr, Except.mapError] at h
      rcases hp : db.putLeafHash f.putLeaf e.index e.leafHash with ⟨db'', put⟩
      rw [hp] at h
      simp only [Prod.mk.injEq] at h
      obtain ⟨rfl, hok⟩ := h
      exact hput hp (mapError_ok.mp hok)
    | some x =>
      by_cases hx : x = []
      · subst hx
        rw [← hleaf]
        apply hwritten (.inr hleaf)
        simp only [hleaf, wrapErr, Except.mapError, ↓reduceIte] at h
        rcases hp : db.putLeafHash f.putLeaf e.index e.leafHash with ⟨db'', put⟩
        rw [hp] at h
        simp only [Prod.mk.injEq] at h
        obtain ⟨rfl, hok⟩ := h
        exact hput hp (mapError_ok.mp hok)
      · simp only [hleaf, if_neg hx, wrapErr, Except.mapError, Prod.mk.injEq] at h
        obtain ⟨rfl, -⟩ := h
        exact ⟨by rw [hleaf, fillLeaf, if_neg hx], fun _ _ => rfl⟩

variable (hR : R.Lawful (hashChildren C) (emptyRoot C) RngHolds)
  (hrep : R.Reports (hashChildren C) (emptyRoot C) RngHolds)
include hR hrep

lemma replayEntry_done {db : Db} {es : List Entry} {s s' : Replay R} {f : ReplayFaults}
    {e : Entry} {u : Unit} (h : s.Done C RngHolds db es)
    (hok : replayEntry C f s e = (s', .ok u)) :
    s'.Done C RngHolds db (es ++ [e]) ∧ s'.count = s.count + 1 := by
  unfold replayEntry at hok
  cases hcheck : replayCheck C s.prev e with
  | error => simp [hcheck] at hok
  | ok =>
    simp only [replayCheck, bind_ok, wrapErr_ok, Entry.verify_ok, Entry.verifyChain_ok] at hcheck
    obtain ⟨-, hsound, hfollows⟩ := hcheck
    have hcheck : replayCheck C s.prev e = .ok () := by
      simp only [replayCheck, bind_ok, wrapErr_ok, Entry.verify_ok, Entry.verifyChain_ok]
      exact ⟨(), hsound, hfollows⟩
    have hchained : Entry.Chained none (es ++ [e]) := by
      rw [Entry.chained_concat, ← h.prev]
      exact ⟨h.chained, hfollows⟩
    have hidx : e.index = es.length := by
      rw [hchained.index_eq getElem?_concat_length, Entry.nextIndex, Nat.zero_add]
    rcases hback : backfill f e s.db with ⟨db', flt | u''⟩
    · simp [hcheck, hback] at hok
    · obtain ⟨hsame, hnew, hold⟩ := backfill_ok hback
      obtain ⟨tree, happ, htree⟩ := Tree.appendLeafHash_ok hR h.tree e.leafHash
      simp only [hcheck, hback, happ, Prod.mk.injEq] at hok
      obtain ⟨rfl, -⟩ := hok
      refine ⟨⟨?_, ?_, ?_, ?_, ?_, hchained, h.same.trans hsame, ?_, ?_⟩, rfl⟩
      · rw [map_append]
        exact htree
      · rw [map_append]
        exact Tree.appendLeafHash_cached hR hrep h.tree happ h.cached
      · rw [map_append]
        exact Tree.appendLeafHash_stored hR hrep h.tree happ h.stored
      · simp [Entry.lastOr]
      · intro x hx
        rcases mem_append.mp hx with hx | hx
        · exact h.sound x hx
        · rw [mem_singleton.mp hx]
          exact hsound
      · intro i x hi
        by_cases hlt : i < es.length
        · rw [getElem?_append_left hlt] at hi
          rw [hold i (by omega)]
          exact h.leaf i x hi
        · have hi' : i = es.length := by
            have := (List.getElem?_eq_some_iff.mp hi).1
            simp only [List.length_append, List.length_singleton] at this
            omega
          subst hi'
          rw [getElem?_concat_length, Option.some.injEq] at hi
          subst hi
          rw [← hidx, hnew, h.rest e.index (by omega)]
      · intro i hi
        simp only [List.length_append, List.length_singleton] at hi
        rw [hold i (by omega)]
        exact h.rest i (by omega)

lemma replayEntries_done {db : Db} {faults : Nat → ReplayFaults} {items : List (Nat × Doc)}
    {pre : List Entry} {s s' : Replay R} {u : Unit} (h : s.Done C RngHolds db pre)
    (hcount : s.count = pre.length) (hok : replayEntries C faults items s = (s', .ok u)) :
    ∃ es, items.map (fun x => x.2.decode Entry.unmarshal) = es.map .ok ∧
      s'.Done C RngHolds db (pre ++ es) ∧ s'.count = (pre ++ es).length := by
  induction items generalizing pre s with
  | nil =>
    cases hok
    exact ⟨[], rfl, by rwa [append_nil], by rwa [append_nil]⟩
  | cons item items ih =>
    obtain ⟨idx, doc⟩ := item
    rw [replayEntries] at hok
    cases hitem : itemEntry (faults idx) doc with
    | error => simp [hitem] at hok
    | ok e =>
      simp only [hitem] at hok
      rcases hentry : replayEntry C (faults idx) s e with ⟨s'', flt | u'⟩
      · simp [hentry] at hok
      · rw [hentry] at hok
        obtain ⟨hdone, hcount'⟩ := replayEntry_done hR hrep h hentry
        obtain ⟨es, hes, hdone', hall⟩ := ih hdone (by simp [hcount', hcount]) hok
        have hdoc : doc.decode Entry.unmarshal = .ok e := by
          unfold itemEntry at hitem
          split at hitem
          · cases hitem
          · cases hitem
          · exact hitem
        refine ⟨e :: es, ?_, ?_, ?_⟩
        · rw [map_cons, map_cons, hes, hdoc]
        · rwa [append_assoc] at hdone'
        · rwa [append_assoc] at hall

/-- **What a start that succeeds says**, on any store: the documents under `entry/` are sound
entries that follow each other from index 0, the tree is theirs and its caches are right, and the
mirror has a value for each of them. -/
theorem newLogOn_ok {opts : Options} {faults : Nat → ReplayFaults} {d : Disk} {db : Db}
    {tree : Tree R} (hnew : newLogOn C R opts faults d = (db, .ok tree)) :
    ∃ es, d.iter.map (fun x => x.2.decode Entry.unmarshal) = es.map .ok ∧
      Replay.Done C RngHolds d.db es ⟨db, tree, Entry.lastOr none es, es.length⟩ := by
  have hstart : Replay.Done C RngHolds d.db [] ⟨d.db, .newBoundedTreeWithStore R
      opts.merkleCacheNodes opts.merkleLeafCacheNodes .adapter, none, 0⟩ :=
    ⟨Tree.newBoundedTreeWithStore_holds hR _ _ _, Tree.newBoundedTreeWithStore_cached C _ _ _,
      trivial, rfl, by simp, trivial, .refl _, by simp, fun _ _ => rfl⟩
  have hitems : d.items.map (fun x => x.2.decode Entry.unmarshal) =
      d.iter.map (fun x => x.2.decode Entry.unmarshal) := by
    have hsnd : d.items.map Prod.snd = d.iter.map Prod.snd := by
      rw [Disk.items, map_map]
      exact zipIdx_map_fst 0 _
    have hdecode := congrArg (map (Doc.decode Entry.unmarshal)) hsnd
    rwa [map_map, map_map] at hdecode
  unfold newLogOn replayItems at hnew
  rcases hrun : replayEntries C faults d.items ⟨d.db, .newBoundedTreeWithStore R
      opts.merkleCacheNodes opts.merkleLeafCacheNodes .adapter, none, 0⟩ with ⟨s, flt | u⟩
  · simp [hrun] at hnew
  · obtain ⟨es, hes, hdone, hcount⟩ := replayEntries_done hR hrep hstart rfl hrun
    rw [nil_append] at hdone hcount
    have hsize : s.count = s.tree.size := by rw [Tree.size_eq hR hdone.tree, hcount, length_map]
    simp only [hrun, hsize, ne_eq, not_true_eq_false, ↓reduceIte, Prod.mk.injEq,
      Except.ok.injEq] at hnew
    obtain ⟨rfl, rfl⟩ := hnew
    refine ⟨es, hitems ▸ hes, ?_⟩
    exact ⟨hdone.tree, hdone.cached, hdone.stored, rfl, hdone.sound, hdone.chained, hdone.same,
      hdone.leaf, hdone.rest⟩

end

/-! ## Agreement -/

/-- The store of a log of `n` entries: key `i` holds the entry with index `i`, its leaf is in the
mirror, and the metadata are those of the last entry. -/
structure Agrees (n : Nat) (db : Db) : Prop where
  entry : ∀ i, i < n → ∃ e, db.getEntry none i = .ok e ∧ e.index = i ∧
    db.leaf.get i = some e.leafHash
  size : db.readSize = .ok n
  head_empty : n = 0 → db.headHash none = .ok zeroHash
  head : ∀ m e, n = m + 1 → db.getEntry none m = .ok e → db.headHash none = .ok e.entryHash

namespace Disk

/-- The store before the start: the keys under `entry/` are the indices in order, a mirrored leaf
that is there is its entry's, and the metadata are those of the last entry. -/
structure Untampered (d : Disk) : Prop where
  keys : d.iter.map Prod.fst = (range d.iter.length).map .index
  leaf : ∀ i key doc e h, d.iter[i]? = some (key, doc) → doc.decode Entry.unmarshal = .ok e →
    d.db.leaf.get i = some h → h = [] ∨ h = e.leafHash
  size : d.db.readSize = .ok d.iter.length
  head_empty : d.iter = [] → d.db.headHash none = .ok zeroHash
  head : ∀ key doc e, d.iter.getLast? = some (key, doc) → doc.decode Entry.unmarshal = .ok e →
    d.db.headHash none = .ok e.entryHash

lemma filterMap_indexed_cons (i : Nat) (doc : Doc) (l : List (EntryKey × Doc)) :
    ((.index i, doc) :: l).filterMap indexed = (i, doc) :: l.filterMap indexed :=
  rfl

lemma filterMap_indexed {l : List (EntryKey × Doc)} {k : Nat}
    (h : l.map Prod.fst = (range' k l.length).map .index) :
    l.filterMap indexed = ((l.map Prod.snd).zipIdx k).map Prod.swap := by
  induction l generalizing k with
  | nil => rfl
  | cons x l ih =>
    obtain ⟨key, doc⟩ := x
    simp only [map_cons, length_cons, range'_succ, cons.injEq] at h
    obtain ⟨hkey, hrest⟩ := h
    subst hkey
    rw [filterMap_indexed_cons, map_cons, zipIdx_cons, map_cons, ih hrest]
    rfl

lemma map_fst_of_length {l : List (EntryKey × Doc)}
    (h : (l.filterMap indexed).length = l.length) :
    l.map Prod.fst = ((l.filterMap indexed).map Prod.fst).map .index := by
  have hall := filterMap_length_eq_length.mp h
  clear h
  induction l with
  | nil => rfl
  | cons x l ih =>
    obtain ⟨key, doc⟩ := x
    have hx := hall (key, doc) (by simp)
    cases key with
    | stray => cases hx
    | index =>
      rw [filterMap_indexed_cons, map_cons, map_cons, map_cons,
        ih fun y hy => hall y (by simp [hy])]

lemma eq_range {ks : List Nat} {n : Nat} (hsorted : ks.Pairwise (· < ·))
    (hall : ∀ i, i < n → i ∈ ks) (hlen : ks.length ≤ n) : ks = range n := by
  have hsub : range n ⊆ ks := fun i hi => hall i (mem_range.mp hi)
  have hperm : Perm (range n) ks :=
    (nodup_range.subperm hsub).perm_of_length_le (by rwa [length_range])
  refine (hperm.eq_of_pairwise ?_ pairwise_lt_range hsorted).symm
  intro a b _ _ hab hba
  omega

lemma isSeq_of_keys {d : Disk}
    (hkeys : d.iter.map Prod.fst = (range d.iter.length).map .index) :
    d.db.entry.IsSeq (d.iter.map Prod.snd) := by
  rw [range_eq_range'] at hkeys
  rw [OrdMap.IsSeq, ← d.iter_indexed]
  exact filterMap_indexed hkeys

/-- The indices are in order exactly when the store has every index below the number of items. -/
lemma keys_iff (d : Disk) :
    d.iter.map Prod.fst = (range d.iter.length).map .index ↔
      ∀ i, i < d.iter.length → (d.db.entry.get i).isSome := by
  constructor
  · intro hkeys i hi
    rw [(isSeq_of_keys hkeys).get, getElem?_eq_getElem (by rwa [length_map])]
    rfl
  · intro hall
    have hsorted := d.db.entry.sorted
    have hmem : ∀ i, i < d.iter.length → i ∈ d.db.entry.toList.map Prod.fst := by
      intro i hi
      obtain ⟨doc, hdoc⟩ := Option.isSome_iff_exists.mp (hall i hi)
      exact OrdMap.mem_keys_of_get hdoc
    have hlen : (d.db.entry.toList.map Prod.fst).length ≤ d.iter.length := by
      rw [length_map, ← d.iter_indexed]
      exact length_filterMap_le _ _
    have hrange := eq_range hsorted hmem hlen
    have hfull : (d.iter.filterMap indexed).length = d.iter.length := by
      have := congrArg length hrange
      rwa [length_map, length_range, ← d.iter_indexed] at this
    rw [map_fst_of_length hfull, d.iter_indexed, hrange]

section
variable {d : Disk} {es : List Entry}
  (hdec : d.iter.map (fun x => x.2.decode Entry.unmarshal) = es.map .ok)
include hdec

lemma length_eq : d.iter.length = es.length := by simpa using congrArg length hdec

lemma decode_eq {i : Nat} {key : EntryKey} {doc : Doc} (hi : d.iter[i]? = some (key, doc)) :
    ∃ e, es[i]? = some e ∧ doc.decode Entry.unmarshal = .ok e := by
  have hget := congrArg (·[i]?) hdec
  simp only [getElem?_map, hi, Option.map_some] at hget
  cases he : es[i]? with
  | none => simp [he] at hget
  | some e =>
    simp only [he, Option.map_some, Option.some.injEq] at hget
    exact ⟨e, rfl, hget⟩

lemma item_eq {i : Nat} {e : Entry} (hi : es[i]? = some e) :
    ∃ key doc, d.iter[i]? = some (key, doc) ∧ doc.decode Entry.unmarshal = .ok e := by
  have hlt := (List.getElem?_eq_some_iff.mp hi).1
  rw [← length_eq hdec] at hlt
  obtain ⟨⟨key, doc⟩, hitem⟩ : ∃ x, d.iter[i]? = some x := ⟨_, getElem?_eq_getElem hlt⟩
  obtain ⟨e', he', hdoc⟩ := decode_eq hdec hitem
  cases hi.symm.trans he'
  exact ⟨key, doc, hitem, hdoc⟩

lemma getEntry_eq (hkeys : d.iter.map Prod.fst = (range d.iter.length).map .index) {i : Nat}
    {e : Entry} (hi : es[i]? = some e) : d.db.getEntry none i = .ok e := by
  obtain ⟨key, doc, hitem, hdoc⟩ := item_eq hdec hi
  have hget : d.db.entry.get i = some doc := by
    rw [(isSeq_of_keys hkeys).get, getElem?_map, hitem]
    rfl
  simp only [Db.getEntry, Db.view, hget]
  exact hdoc

lemma headOf_eq (hempty : d.iter = [] → d.db.headHash none = .ok zeroHash)
    (hlast : ∀ key doc e, d.iter.getLast? = some (key, doc) → doc.decode Entry.unmarshal = .ok e →
      d.db.headHash none = .ok e.entryHash) :
    d.db.headHash none = .ok (Db.headOf es) := by
  have hlen := length_eq hdec
  cases hn : es.length with
  | zero =>
    have hes : es = [] := length_eq_zero_iff.mp hn
    rw [hempty (length_eq_zero_iff.mp (hlen.trans hn)), hes]
    rfl
  | succ m =>
    obtain ⟨e, he⟩ : ∃ e, es[m]? = some e := ⟨_, getElem?_eq_getElem (by omega)⟩
    obtain ⟨key, doc, hitem, hdoc⟩ := item_eq hdec he
    have hlastItem : d.iter.getLast? = some (key, doc) := by
      rw [getLast?_eq_getElem?, hlen, hn, Nat.add_sub_cancel, hitem]
    have hlastEntry : es.getLast? = some e := by
      rw [getLast?_eq_getElem?, hn, Nat.add_sub_cancel, he]
    rw [hlast key doc e hlastItem hdoc, Db.headOf, hlastEntry]
    rfl

/-- **The representations agree after the start exactly when the store was not tampered with.** -/
theorem agrees_iff_untampered {C : Crypto} {RngHolds : R.Rng → List Bytes → Prop} {s : Replay R}
    (hdone : s.Done C RngHolds d.db es) : Agrees es.length s.db ↔ d.Untampered := by
  have hlen := length_eq hdec
  obtain ⟨leaf, hdb⟩ := hdone.same
  have hgetEntry : ∀ i, s.db.getEntry none i = d.db.getEntry none i := fun i => by rw [hdb]; rfl
  have hsize : s.db.readSize = d.db.readSize := by rw [hdb]; rfl
  have hhead : s.db.headHash none = d.db.headHash none := by rw [hdb]; rfl
  constructor
  · intro h
    have hkeys : d.iter.map Prod.fst = (range d.iter.length).map .index := by
      rw [keys_iff, hlen]
      intro i hi
      obtain ⟨e, he, -⟩ := h.entry i hi
      rw [hgetEntry] at he
      cases hget : d.db.entry.get i with
      | none => simp [Db.getEntry, Db.view, hget] at he
      | some => rfl
    refine ⟨hkeys, ?_, by rw [hlen, ← hsize]; exact h.size, ?_, ?_⟩
    · intro i key doc e x hitem hdoc hx
      obtain ⟨e', he', hdoc'⟩ := decode_eq hdec hitem
      cases hdoc.symm.trans hdoc'
      have hi := (List.getElem?_eq_some_iff.mp he').1
      obtain ⟨e'', hget, -, hleaf⟩ := h.entry i hi
      rw [hgetEntry, getEntry_eq hdec hkeys he'] at hget
      cases hget
      have hfill := hdone.leaf i e he'
      rw [hleaf, hx, Option.some.injEq, fillLeaf] at hfill
      by_cases hxe : x = []
      · exact .inl hxe
      · rw [if_neg hxe] at hfill
        exact .inr hfill.symm
    · intro hnil
      rw [← hhead]
      exact h.head_empty (by rw [← hlen, hnil]; rfl)
    · intro key doc e hlast hdoc
      rw [getLast?_eq_getElem?] at hlast
      obtain ⟨e', he', hdoc'⟩ := decode_eq hdec hlast
      cases hdoc.symm.trans hdoc'
      have hi := (List.getElem?_eq_some_iff.mp he').1
      rw [← hhead]
      refine h.head (d.iter.length - 1) e (by omega) ?_
      rw [hgetEntry]
      exact getEntry_eq hdec hkeys he'
  · intro h
    have hhead' := headOf_eq hdec h.head_empty h.head
    refine ⟨?_, by rw [hsize, h.size, hlen], ?_, ?_⟩
    · intro i hi
      obtain ⟨e, he⟩ : ∃ e, es[i]? = some e := ⟨_, getElem?_eq_getElem hi⟩
      obtain ⟨key, doc, hitem, hdoc⟩ := item_eq hdec he
      refine ⟨e, by rw [hgetEntry]; exact getEntry_eq hdec h.keys he, ?_, ?_⟩
      · rw [hdone.chained.index_eq he, Entry.nextIndex, Nat.zero_add]
      · rw [hdone.leaf i e he]
        cases hx : d.db.leaf.get i with
        | none => rfl
        | some x =>
          rcases h.leaf i key doc e x hitem hdoc hx with rfl | rfl
          · rfl
          · rw [fillLeaf]
            split
            · rfl
            · rfl
    · intro hz
      have hnil : es = [] := length_eq_zero_iff.mp hz
      rw [hhead, hhead', hnil]
      rfl
    · intro m e hm he
      obtain ⟨e', he'⟩ : ∃ e, es[m]? = some e := ⟨_, getElem?_eq_getElem (by omega)⟩
      rw [hgetEntry, getEntry_eq hdec h.keys he'] at he
      cases he
      have hlast : es.getLast? = some e := by rw [getLast?_eq_getElem?, hm, Nat.add_sub_cancel, he']
      rw [hhead, hhead', Db.headOf, hlast]
      rfl

end

end Disk

end Stele.Core
