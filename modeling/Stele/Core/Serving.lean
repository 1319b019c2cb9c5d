import Stele.Core.Startup

/-!
# A log after its start

What a log serves between two starts: proofs, appends and the calls that write beside the log. A
proof may read leaves from the mirror, and an append is refused when the metadata do not fit the
tree, so both rest on what the start found on the disk.
-/

namespace Stele.Core

open Lib List

variable {R : RangeImpl Bytes}

/-! ## The calls -/

inductive Request
  | inclusion (idx treeSize : Nat)
  | consistency (oldSize newSize : Nat)

def Request.Within (n : Nat) : Request → Prop
  | .inclusion idx treeSize => idx < treeSize ∧ treeSize ≤ n
  | .consistency oldSize newSize => oldSize ≤ newSize ∧ newSize ≤ n

def Request.Verified (C : Crypto) (P : ProofImpl Bytes) (leaves proof : List Bytes) :
    Request → Prop
  | .inclusion idx treeSize => ∃ leaf, leaves[idx]? = some leaf ∧
      P.verifyInclusion idx treeSize leaf proof (rfc6962Root C (leaves.take treeSize)) = .ok ()
  | .consistency oldSize newSize =>
      P.verifyConsistency oldSize newSize proof (rfc6962Root C (leaves.take oldSize))
        (rfc6962Root C (leaves.take newSize)) = .ok ()

def leafReads (faults : Nat → Option Err) (db : Db) : Tree.LeafReads :=
  fun k idx => db.getLeafHash (faults k) idx

def prove (C : Crypto) (P : ProofImpl Bytes) (read : Tree.LeafReads) (t : Tree R) :
    Request → Tree.Call R × Res (List Bytes)
  | .inclusion idx treeSize => Tree.inclusionProof C read P ⟨t, 0⟩ idx treeSize
  | .consistency oldSize newSize => Tree.consistencyProof C read P ⟨t, 0⟩ oldSize newSize

inductive Op
  | prove (faults : Nat → Option Err) (q : Request)
  | append (env : Option Envelope) (honeypot : Bool) (rs : List Reads)
  | registerProducer (fault : Option Err) (now : Int) (p : Producer)
  | revokeProducer (fault : Option Err) (now : Int) (id reason : Bytes)
  | saveCheckpoint (fault : Option Err) (size : Nat) (body : Json)

structure Serving (R : RangeImpl Bytes) where
  db : Db
  tree : Option (Tree R)

def grow (t : Tree R) : Option Ret → Option (Tree R)
  | some (.entry e) =>
    match t.appendLeafHash e.leafHash with
    | .ok (t, _) => some t
    | .error _ => none
  | some (.failed _) => some t
  | some (.checkpoint _) => none
  | none => none

def serve (C : Crypto) (opts : Options) (P : ProofImpl Bytes) (s : Serving R) (op : Op) :
    Serving R :=
  match s.tree with
  | none => s
  | some t =>
    match op with
    | .prove faults q => { s with tree := some (prove C P (leafReads faults s.db) t q).1.tree }
    | .append env honeypot rs =>
      let out := appendCtx C opts t.size env honeypot s.db rs
      ⟨out.1, grow t out.2⟩
    | .registerProducer fault now p => { s with db := (s.db.registerProducer fault now p).1 }
    | .revokeProducer fault now id reason =>
      { s with db := (s.db.revokeProducer fault now id reason).1 }
    | .saveCheckpoint fault size body => { s with db := (s.db.saveCheckpoint fault size body).1 }

/-! ## What an append leaves -/

variable {C : Crypto}

section
variable {opts : Options}

def withEntry (e : Entry) (db : Db) : Db :=
  { db with
    entry := db.entry.set e.index (some e.marshal)
    leaf := db.leaf.set e.index e.leafHash
    size := some (.u64 (e.index + 1))
    head := some e.entryHash }

/-- What a call may leave in the store `db` of a log of `size` entries. -/
inductive Outcome (C : Crypto) (size : Nat) (db : Db) : Db × Option Ret → Prop
  | died (db' : Db) : Outcome C size db (db', none)
  | failed (replay : AList fun _ : Bytes => ReplayVal) (f : Fault) :
    Outcome C size db ({ db with replay := replay }, some (.failed f))
  | entry (replay : AList fun _ : Bytes => ReplayVal) (e : Entry) (hindex : e.index = size)
    (hhash : e.entryHash.length = 32) (hleaf : e.leafHash ≠ []) :
    Outcome C size db (withEntry e { db with replay := replay }, some (.entry e))

lemma nextEntry_sealed (now : Int) (size : Nat) (head : Bytes) (env : Envelope)
    (honeypot : Bool) :
    let e := nextEntry C now size head env honeypot
    e.index = size ∧ e.entryHash.length = 32 ∧ e.leafHash ≠ [] := by
  refine ⟨rfl, C.sha256_length _, fun hnil => ?_⟩
  have hlen : (nextEntry C now size head env honeypot).leafHash.length = 32 := hashLeaf_length C _
  rw [hnil] at hlen
  cases hlen

lemma appendCtx_outcome (opts : Options) (size : Nat) (env : Option Envelope) (honeypot : Bool)
    (db : Db) (rs : List Reads) : Outcome C size db (appendCtx C opts size env honeypot db rs) := by
  rcases rs with _ | ⟨r, rs⟩
  · exact .died db
  rw [appendCtx]
  cases checkAppend C opts r db env with
  | error f => exact .failed db.replay f
  | ok env =>
    simp only
    rcases rs.tail with _ | ⟨r, rs⟩
    · exact .died db
    obtain ⟨replay, hframe⟩ :=
      db.checkAndRecordEnvelope_frame r.fault opts.replayTTL r.now (env.hash C) size
    rw [appendLocked]
    rcases hrec : db.checkAndRecordEnvelope r.fault opts.replayTTL r.now (env.hash C) size with
      ⟨db', f | _⟩
    · rw [hrec] at hframe
      subst hframe
      exact .failed replay _
    · rw [hrec] at hframe
      subst hframe
      simp only
      rcases rs with _ | ⟨r, rs⟩
      · exact .died _
      rw [appendRecorded]
      cases Db.headHash r.fault { db with replay := replay } with
      | error f => exact .failed replay f
      | ok head =>
        simp only
        rcases rs with _ | ⟨r', rs⟩
        · exact .died _
        obtain ⟨hindex, hhash, hleaf⟩ := nextEntry_sealed (C := C) r.now size head env honeypot
        rw [commitEntry]
        rcases happ : Db.appendEntry r'.fault (nextEntry C r.now size head env honeypot)
          { db with replay := replay } with ⟨db', f | _⟩
        · rw [Db.appendEntry_error happ]
          exact .failed replay f
        · obtain ⟨-, rfl⟩ := Db.appendEntry_ok happ
          simp only
          split
          · exact .died _
          · exact .entry replay _ hindex hhash hleaf

end

/-! ## The store of a tree -/

/-- The store has the entries with these leaf hashes and the next entry fits on top of them. -/
structure StoreHas (leaves : List Bytes) (db : Db) : Prop where
  leaf : ∀ i h, leaves[i]? = some h → db.leaf.get i = some h ∧ h ≠ []
  entry : ∀ i h, leaves[i]? = some h → ∃ e, db.getEntry none i = .ok e ∧ e.leafHash = h
  rest : ∀ i, leaves.length ≤ i → db.entry.get i = none
  size : db.readSize = .ok leaves.length
  head : ∃ h, (∀ wrongLength, db.headVal wrongLength = .ok h) ∧ (leaves = [] → h = zeroHash)

variable {leaves : List Bytes} {db : Db}

namespace StoreHas

variable (h : StoreHas leaves db)
include h

lemma of_eq {db' : Db} (he : db'.entry = db.entry) (hl : db'.leaf = db.leaf)
    (hs : db'.size = db.size) (hh : db'.head = db.head) : StoreHas leaves db' where
  leaf := hl ▸ h.leaf
  entry i x hi := by
    obtain ⟨e, hget, hleaf⟩ := h.entry i x hi
    refine ⟨e, ?_, hleaf⟩
    rw [← hget]
    simp only [Db.getEntry, Db.view, he]
  rest := he ▸ h.rest
  size := by rw [← h.size, Db.readSize, Db.readSize, hs]
  head := by
    obtain ⟨x, hx, hz⟩ := h.head
    refine ⟨x, fun w => ?_, hz⟩
    rw [← hx w, Db.headVal, Db.headVal, hh]

lemma withEntry {e : Entry} (hindex : e.index = leaves.length)
    (hhash : e.entryHash.length = 32) (hleaf : e.leafHash ≠ []) :
    StoreHas (leaves ++ [e.leafHash]) (withEntry e db) := by
  -- the new position is the last one, every other position was there before
  have hsplit : ∀ i x, (leaves ++ [e.leafHash])[i]? = some x →
      (i = e.index ∧ x = e.leafHash) ∨ (i ≠ e.index ∧ leaves[i]? = some x) := by
    intro i x hi
    by_cases hlt : i < leaves.length
    · rw [getElem?_append_left hlt] at hi
      exact .inr ⟨by omega, hi⟩
    · have hlen := (List.getElem?_eq_some_iff.mp hi).1
      simp only [List.length_append, List.length_singleton] at hlen
      have hlast : i = leaves.length := by omega
      subst hlast
      rw [getElem?_concat_length, Option.some.injEq] at hi
      exact .inl ⟨hindex.symm, hi.symm⟩
  refine ⟨?_, ?_, ?_, ?_, ?_⟩
  · intro i x hi
    rcases hsplit i x hi with ⟨rfl, rfl⟩ | ⟨hne, hi⟩
    · exact ⟨OrdMap.get_set_self _ _ _, hleaf⟩
    · rw [Core.withEntry, OrdMap.get_set_ne _ hne]
      exact h.leaf i x hi
  · intro i x hi
    rcases hsplit i x hi with ⟨rfl, rfl⟩ | ⟨hne, hi⟩
    · obtain ⟨env, hdecode⟩ := Entry.unmarshal_marshal_coerce e
      refine ⟨{ e with envelope := env }, ?_, rfl⟩
      simp only [Db.getEntry, Db.view, Core.withEntry, OrdMap.get_set_self]
      exact hdecode
    · obtain ⟨e', hget, hx⟩ := h.entry i x hi
      refine ⟨e', ?_, hx⟩
      rw [← hget]
      simp only [Db.getEntry, Db.view, Core.withEntry, OrdMap.get_set_ne _ hne]
  · intro i hi
    simp only [List.length_append, List.length_singleton] at hi
    have hne : i ≠ e.index := by omega
    rw [Core.withEntry, OrdMap.get_set_ne _ hne]
    exact h.rest i (by omega)
  · simp [Core.withEntry, Db.readSize, hindex]
  · refine ⟨e.entryHash, fun w => ?_, by simp⟩
    simp [Core.withEntry, Db.headVal, hhash]

lemma readsOf (faults : Nat → Option Err) : Tree.ReadsOf leaves (leafReads faults db) := by
  intro k i x hi
  obtain ⟨hget, hne⟩ := h.leaf i x hi
  simp only [leafReads, Db.getLeafHash]
  cases faults k with
  | some => exact .inr ⟨_, rfl⟩
  | none =>
    refine .inl ?_
    simp only [Db.view, hget, if_neg hne]

lemma appendEntry_accepts {e : Entry} (hindex : e.index = leaves.length)
    (hhash : e.entryHash ≠ []) (hleaf : e.leafHash ≠ [])
    (hprev : ∀ wrongLength, db.headVal wrongLength = .ok e.prevHash) :
    ∃ db', db.appendEntry none e = (db', .ok ()) := by
  have hnone : (db.entry.get e.index).isNone = true := by
    rw [h.rest e.index (by omega)]
    rfl
  have htxn : ∃ db', db.appendEntryTxn e = .ok db' := by
    simp only [Db.appendEntryTxn, bind_ok, ensure_ok, pure_ok, exists_const]
    exact ⟨_, _, h.size, hindex, _, hprev _, rfl, hnone, rfl⟩
  obtain ⟨db', htxn⟩ := htxn
  refine ⟨db', ?_⟩
  unfold Db.appendEntry Db.update
  rw [if_neg (not_or.mpr ⟨hhash, hleaf⟩)]
  simp only [htxn]

/-- **A valid append succeeds.** Its checks pass, the envelope was not recorded before, the database
works and the process lives. -/
theorem appendCtx_succeeds {C : Crypto} {opts : Options} {env : Envelope} {rs : List Reads}
    (hrec : Records C opts (some env) db rs) (hlong : 6 ≤ rs.length)
    (hfault : ∀ r ∈ rs, r.fault = none) (honeypot : Bool) :
    ∃ db' e, appendCtx C opts leaves.length (some env) honeypot db rs = (db', some (.entry e)) ∧
      e.index = leaves.length := by
  obtain _ | ⟨r0, _ | ⟨r1, _ | ⟨r2, _ | ⟨r3, _ | ⟨r4, _ | ⟨r5, rs⟩⟩⟩⟩⟩⟩ := rs
  -- the call has six steps
  iterate 6 exact absurd hlong (by simp)
  obtain ⟨env', hcheck, hfault2, hlive⟩ := hrec
  have hfault3 : r3.fault = none := hfault r3 (by simp)
  have hfault4 : r4.fault = none := hfault r4 (by simp)
  rcases checkAndRecordEnvelope_cases r2.fault opts.replayTTL r2.now (env'.hash C) leaves.length
      db with ⟨-, -, db', hrec⟩ | ⟨hnot, -⟩
  · obtain ⟨replay, hframe⟩ :=
      db.checkAndRecordEnvelope_frame r2.fault opts.replayTTL r2.now (env'.hash C) leaves.length
    rw [hrec] at hframe
    simp only at hframe
    have hhas : StoreHas leaves db' := by
      rw [hframe]
      exact h.of_eq rfl rfl rfl rfl
    obtain ⟨head, hhead, hzero⟩ := hhas.head
    obtain ⟨hindex, hhash, hleaf⟩ :=
      nextEntry_sealed (C := C) r3.now leaves.length head env' honeypot
    have hprev : (nextEntry C r3.now leaves.length head env' honeypot).prevHash = head :=
      nextEntry_prevHash fun hz => hzero (length_eq_zero_iff.mp hz)
    have hhashne : (nextEntry C r3.now leaves.length head env' honeypot).entryHash ≠ [] := by
      intro hnil
      rw [hnil] at hhash
      cases hhash
    obtain ⟨db'', happ⟩ := hhas.appendEntry_accepts hindex hhashne hleaf (by rwa [hprev])
    refine ⟨db'', _, ?_, hindex⟩
    have hheadHash : db'.headHash none = .ok head := hhead _
    simp only [appendCtx, hcheck, tail_cons, appendLocked, hrec, appendRecorded, hfault3,
      hheadHash, commitEntry, hfault4, happ, isEmpty_cons, Bool.false_eq_true, ↓reduceIte]
  · exact absurd ⟨hfault2, hlive⟩ hnot

end StoreHas

/-! ## Every call keeps the store and the tree together -/

structure Mirrored (C : Crypto) (RngHolds : R.Rng → List Bytes → Prop) (leaves : List Bytes)
    (db : Db) (t : Tree R) : Prop where
  ready : (⟨t, 0⟩ : Tree.Call R).Ready C RngHolds leaves
  store : StoreHas leaves db

def Serving.Mirrored (C : Crypto) (RngHolds : R.Rng → List Bytes → Prop) (s : Serving R) : Prop :=
  ∀ t, s.tree = some t → ∃ leaves, Core.Mirrored C RngHolds leaves s.db t

variable {P : ProofImpl Bytes} {RngHolds : R.Rng → List Bytes → Prop}
  (hR : R.Lawful (hashChildren C) (emptyRoot C) RngHolds)
  (hrep : R.Reports (hashChildren C) (emptyRoot C) RngHolds)
  (hP : P.Lawful (hashChildren C) (emptyRoot C)) {t : Tree R}

section
include hR hP in
lemma Mirrored.prove (h : Mirrored C RngHolds leaves db t) (faults : Nat → Option Err)
    (q : Request) : Mirrored C RngHolds leaves db (prove C P (leafReads faults db) t q).1.tree := by
  have hread := h.store.readsOf faults
  cases q with
  | inclusion idx treeSize =>
    have hready := Tree.inclusionProof_ready hread hR hP h.ready idx treeSize
    exact ⟨⟨hready.holds, hready.cached, hready.stored⟩, h.store⟩
  | consistency oldSize newSize =>
    have hready := Tree.consistencyProof_ready hread hR hP h.ready oldSize newSize
    exact ⟨⟨hready.holds, hready.cached, hready.stored⟩, h.store⟩

include hR hrep in
lemma Mirrored.append (h : Mirrored C RngHolds leaves db t) {out : Db × Option Ret}
    (hout : Outcome C t.size db out) :
    Serving.Mirrored C RngHolds ⟨out.1, grow t out.2⟩ := by
  intro t' ht'
  have hsize : t.size = leaves.length := Tree.size_eq hR h.ready.holds
  cases hout with
  | died => cases ht'
  | failed =>
    cases ht'
    exact ⟨leaves, h.ready, h.store.of_eq rfl rfl rfl rfl⟩
  | entry replay e hindex hhash hleaf =>
    have hholds := h.ready.holds
    obtain ⟨t'', happ, hholds'⟩ := Tree.appendLeafHash_ok hR hholds e.leafHash
    have ht'' : t'' = t' := by
      simp only [grow, happ, Option.some.injEq] at ht'
      exact ht'
    subst ht''
    have hstore : StoreHas leaves { db with replay := replay } := h.store.of_eq rfl rfl rfl rfl
    refine ⟨leaves ++ [e.leafHash], ⟨hholds', ?_, ?_⟩, ?_⟩
    · exact Tree.appendLeafHash_cached hR hrep hholds happ h.ready.cached
    · exact Tree.appendLeafHash_stored hR hrep hholds happ h.ready.stored
    · exact hstore.withEntry (hindex.trans hsize) hhash hleaf

include hR hrep hP

lemma serve_mirrored {opts : Options} {s : Serving R} (h : s.Mirrored C RngHolds) (op : Op) :
    (serve C opts P s op).Mirrored C RngHolds := by
  unfold serve
  cases ht : s.tree with
  | none => exact h
  | some t =>
    obtain ⟨leaves, hm⟩ := h t ht
    have hbeside : ∀ db', db'.entry = s.db.entry → db'.leaf = s.db.leaf → db'.size = s.db.size →
        db'.head = s.db.head → Serving.Mirrored C RngHolds ⟨db', some t⟩ := by
      rintro db' he hl hs hh t' ⟨⟩
      exact ⟨leaves, hm.ready, hm.store.of_eq he hl hs hh⟩
    cases op with
    | prove faults q =>
      rintro t' ⟨⟩
      exact ⟨leaves, hm.prove hR hP faults q⟩
    | append env honeypot rs =>
      exact hm.append hR hrep (appendCtx_outcome opts t.size env honeypot s.db rs)
    | registerProducer fault now p =>
      obtain ⟨producer, hframe⟩ := s.db.registerProducer_frame fault now p
      apply hbeside <;> rw [hframe]
    | revokeProducer fault now id reason =>
      obtain ⟨producer, hframe⟩ := s.db.revokeProducer_frame fault now id reason
      apply hbeside <;> rw [hframe]
    | saveCheckpoint fault size body =>
      obtain ⟨ckpt, hframe⟩ := s.db.saveCheckpoint_frame fault size body
      apply hbeside <;> rw [hframe]

lemma run_mirrored (opts : Options) (h : Mirrored C RngHolds leaves db t) (ops : List Op) :
    (run (serve C opts P) ⟨db, some t⟩ ops).Mirrored C RngHolds := by
  have hstep : ∀ (s : Serving R) (op : Op), True → s.Mirrored C RngHolds →
      (serve C opts P s op).Mirrored C RngHolds := fun s op _ hs => serve_mirrored hR hrep hP hs op
  have hstart : Serving.Mirrored C RngHolds ⟨db, some t⟩ := by
    rintro t' ⟨⟩
    exact ⟨leaves, h⟩
  exact run_invariant hstep hstart fun _ _ => trivial

end

/-! ## What a client sees -/

/-- The log of `leaves` is served well: a proof that is served verifies, it is served when the
database works, and a valid append succeeds. -/
structure Good (C : Crypto) (opts : Options) (P : ProofImpl Bytes) (leaves : List Bytes) (db : Db)
    (t : Tree R) : Prop where
  size : t.size = leaves.length
  root : t.root C = .ok (rfc6962Root C leaves)
  entry : ∀ i h, leaves[i]? = some h → ∃ e, db.getEntry none i = .ok e ∧ e.leafHash = h
  verified : ∀ faults q proof, (prove C P (leafReads faults db) t q).2 = .ok proof →
    q.Within leaves.length ∧ q.Verified C P leaves proof
  served : ∀ q, q.Within leaves.length →
    ∃ proof, (prove C P (leafReads (fun _ => none) db) t q).2 = .ok proof
  append : ∀ env honeypot rs, Records C opts (some env) db rs → 6 ≤ rs.length →
    (∀ r ∈ rs, r.fault = none) → ∃ db' e,
      appendCtx C opts t.size (some env) honeypot db rs = (db', some (.entry e)) ∧ e.index = t.size

/-- The log is served well after any calls, as long as the process lives. -/
def Works (C : Crypto) (opts : Options) (P : ProofImpl Bytes) (db : Db) (t : Tree R) : Prop :=
  ∀ ops t', (run (serve C opts P) ⟨db, some t⟩ ops).tree = some t' →
    ∃ leaves, Good C opts P leaves (run (serve C opts P) ⟨db, some t⟩ ops).db t'

section
lemma leafReads_noFault (db : Db) : Tree.NoFault (leafReads (fun _ => none) db) := by
  intro k i f hf
  simp only [leafReads, Db.getLeafHash, Db.view] at hf
  split at hf
  · cases hf
  · cases hf

include hR hP

lemma Mirrored.good (h : Mirrored C RngHolds leaves db t) (opts : Options) :
    Good C opts P leaves db t where
  size := Tree.size_eq hR h.ready.holds
  root := Tree.root_eq hR h.ready.holds
  entry := h.store.entry
  verified faults q proof hok := by
    have hread := h.store.readsOf faults
    cases q with
    | inclusion =>
      obtain ⟨hn, hidx, hver⟩ := Tree.inclusionProof_ok hread hR hP h.ready hok
      exact ⟨⟨hidx, hn⟩, hver⟩
    | consistency =>
      obtain ⟨hmn, hn, hver⟩ := Tree.consistencyProof_ok hread hR hP h.ready hok
      exact ⟨⟨hmn, hn⟩, hver⟩
  served q hq := by
    have hread := h.store.readsOf fun _ => none
    have hno := leafReads_noFault db
    cases q with
    | inclusion idx =>
      obtain ⟨hidx, hn⟩ := hq
      have hleaf : leaves[idx]? = some leaves[idx] := getElem?_eq_getElem (by omega)
      rcases (Tree.inclusionProof_spec hread hR hP h.ready hidx hn hleaf).yields with
        ⟨proof, hok, -⟩ | ⟨-, hfault⟩
      · exact ⟨proof, hok⟩
      · exact absurd hno hfault
    | consistency =>
      obtain ⟨hmn, hn⟩ := hq
      rcases (Tree.consistencyProof_spec hread hR hP h.ready hmn hn).yields with
        ⟨proof, hok, -⟩ | ⟨-, hfault⟩
      · exact ⟨proof, hok⟩
      · exact absurd hno hfault
  append env honeypot rs hrec hlong hfault := by
    rw [Tree.size_eq hR h.ready.holds]
    exact h.store.appendCtx_succeeds hrec hlong hfault honeypot

include hrep

lemma Mirrored.works (h : Mirrored C RngHolds leaves db t) (opts : Options) :
    Works C opts P db t := by
  intro ops t' ht'
  obtain ⟨leaves', h'⟩ := run_mirrored hR hrep hP opts h ops t' ht'
  exact ⟨leaves', h'.good hR hP opts⟩

end

/-! ## Starting and serving -/

lemma headVal_ok {db : Db} {wrongLength : String} {h : Bytes}
    (hok : db.headVal wrongLength = .ok h) (wrongLength' : String) :
    db.headVal wrongLength' = .ok h := by
  unfold Db.headVal at hok ⊢
  cases hhead : db.head with
  | none =>
    rw [hhead] at hok
    exact hok
  | some x =>
    simp only [hhead] at hok ⊢
    by_cases hlen : x.length = 32
    · rw [if_pos hlen] at hok ⊢
      exact hok
    · rw [if_neg hlen] at hok
      cases hok

/-- **A start on a store that was not tampered with**: the store has what the tree is made of. -/
theorem Disk.mirrored {C : Crypto} {RngHolds : R.Rng → List Bytes → Prop} {d : Disk}
    {es : List Entry} (hdec : d.iter.map (fun x => x.2.decode Entry.unmarshal) = es.map .ok)
    {s : Replay R} (hdone : s.Done C RngHolds d.db es) (h : d.Untampered) :
    Mirrored C RngHolds (es.map Entry.leafHash) s.db s.tree := by
  have hagrees := (Disk.agrees_iff_untampered hdec hdone).mpr h
  have hlen := Disk.length_eq hdec
  obtain ⟨leaf, hdb⟩ := hdone.same
  -- what is read at a place is the entry at that place
  have hat : ∀ i x, (es.map Entry.leafHash)[i]? = some x → ∃ e, es[i]? = some e ∧
      e.leafHash = x ∧ s.db.getEntry none i = .ok e ∧ s.db.leaf.get i = some x := by
    intro i x hi
    rw [getElem?_map, Option.map_eq_some_iff] at hi
    obtain ⟨e, he, rfl⟩ := hi
    have hget : s.db.getEntry none i = .ok e := by
      rw [hdb]
      exact Disk.getEntry_eq hdec h.keys he
    obtain ⟨e', hget', -, hleaf⟩ := hagrees.entry i (List.getElem?_eq_some_iff.mp he).1
    cases hget.symm.trans hget'
    exact ⟨e, he, rfl, hget, hleaf⟩
  refine ⟨⟨hdone.tree, hdone.cached, hdone.stored⟩, ?_, ?_, ?_, ?_, ?_⟩
  · intro i x hi
    obtain ⟨e, he, rfl, -, hleaf⟩ := hat i x hi
    refine ⟨hleaf, fun hnil => ?_⟩
    have hlength := (hdone.sound e (mem_of_getElem? he)).leafHash_length
    rw [hnil] at hlength
    cases hlength
  · intro i x hi
    obtain ⟨e, -, hleaf, hget, -⟩ := hat i x hi
    exact ⟨e, hget, hleaf⟩
  · intro i hi
    rw [length_map, ← hlen] at hi
    rw [hdb]
    show d.db.entry.get i = none
    rw [(Disk.isSeq_of_keys h.keys).get, getElem?_eq_none (by rwa [length_map])]
  · rw [hagrees.size, length_map]
  · have hhead : s.db.headHash none = .ok (Db.headOf es) := by
      rw [hdb]
      exact Disk.headOf_eq hdec h.head_empty h.head
    refine ⟨Db.headOf es, headVal_ok hhead, fun hnil => ?_⟩
    rw [map_eq_nil_iff.mp hnil]
    rfl

/-- **A start that succeeded leads to a log that agrees with its store and is served well exactly
when the store was not tampered with.** -/
theorem startup_agreement_iff {C : Crypto} {P : ProofImpl Bytes}
    {RngHolds : R.Rng → List Bytes → Prop}
    (hR : R.Lawful (hashChildren C) (emptyRoot C) RngHolds)
    (hrep : R.Reports (hashChildren C) (emptyRoot C) RngHolds)
    (hP : P.Lawful (hashChildren C) (emptyRoot C)) {opts : Options}
    {faults : Nat → ReplayFaults} {d : Disk} {db : Db} {tree : Tree R}
    (hnew : newLogOn C R opts faults d = (db, .ok tree)) :
    (Agrees tree.size db ∧ Works C opts P db tree) ↔ d.Untampered := by
  obtain ⟨es, hdec, hdone⟩ := newLogOn_ok hR hrep hnew
  have hsize : tree.size = es.length := by rw [Tree.size_eq hR hdone.tree, length_map]
  rw [hsize]
  constructor
  · rintro ⟨hagrees, -⟩
    exact (Disk.agrees_iff_untampered hdec hdone).mp hagrees
  · intro h
    refine ⟨(Disk.agrees_iff_untampered hdec hdone).mpr h, ?_⟩
    exact (Disk.mirrored hdec hdone h).works hR hrep hP opts

/-! ## Stores of an operator -/

def Disk.ofDb (db : Db) : Disk where
  db := db
  iter := db.entry.toList.map fun x => (.index x.1, x.2)
  iter_indexed := by
    rw [filterMap_map]
    exact filterMap_some

/-- **The store that an operator left was not tampered with.** -/
theorem untampered_of_holds {C : Crypto} {db : Db} {es : List Entry} (h : db.Holds C es) :
    (Disk.ofDb db).Untampered := by
  have hsnd : (Disk.ofDb db).iter.map Prod.snd = es.map fun e => some e.marshal := by
    have hvalues : db.entry.toList.map Prod.snd = es.map fun e => some e.marshal := by
      rw [h.entry, map_map]
      exact zipIdx_map_fst 0 _
    rw [← hvalues, Disk.ofDb, map_map]
    rfl
  have hdec : (Disk.ofDb db).iter.map (fun x => x.2.decode Entry.unmarshal) = es.map .ok := by
    have hdecode := congrArg (List.map (Doc.decode Entry.unmarshal)) hsnd
    rw [map_map, map_map] at hdecode
    refine hdecode.trans (map_congr_left fun e he => ?_)
    exact Entry.unmarshal_marshal (h.utf8 e he)
  have hlen := Disk.length_eq hdec
  refine ⟨?_, ?_, ?_, ?_, ?_⟩
  · have hkeys : db.entry.keys = List.range es.length := by rw [h.entry.keys_eq, length_map]
    rw [hlen, ← hkeys, OrdMap.keys, map_map, Disk.ofDb, map_map]
    rfl
  · intro i key doc e x hitem hdoc hx
    obtain ⟨e', he', hdoc'⟩ := Disk.decode_eq hdec hitem
    cases hdoc.symm.trans hdoc'
    have hleaf : db.leaf.get i = some e.leafHash := by
      rw [h.leaf.get, getElem?_map, he']
      rfl
    exact .inr (Option.some.inj (hx.symm.trans hleaf))
  · rw [hlen]
    exact h.size
  · intro hnil
    have hes : es = [] := by
      rw [hnil] at hlen
      exact length_eq_zero_iff.mp hlen.symm
    have hhead := h.headVal_eq "meta/head_hash has wrong length %d"
    rw [hes] at hhead
    exact hhead
  · intro key doc e hlast hdoc
    rw [getLast?_eq_getElem?, hlen] at hlast
    obtain ⟨e', he', hdoc'⟩ := Disk.decode_eq hdec hlast
    cases hdoc.symm.trans hdoc'
    have hhead := h.headVal_eq "meta/head_hash has wrong length %d"
    rw [Db.headOf, getLast?_eq_getElem?, he'] at hhead
    exact hhead

def sampleDisk : Disk := .ofDb sampleState.db

abbrev sampleProofs : ProofImpl Bytes :=
  wholeTree (hashChildren Crypto.sample) (emptyRoot Crypto.sample)

theorem startup_agreement_iff_sample :
    ∃ db tree,
      newLogOn Crypto.sample sampleRange {} (fun _ => {}) sampleDisk = (db, .ok tree) ∧
      tree.size = 1 ∧ Agrees tree.size db ∧ Works Crypto.sample {} sampleProofs db tree := by
  have hok : (newLogOn Crypto.sample sampleRange {} (fun _ => {}) sampleDisk).2.toOption.map
      Tree.size = some 1 := by
    decide +kernel
  have hutf8 : ∀ a ∈ sampleRun, a.IsUtf8 := by decide +kernel
  obtain ⟨es, hinv⟩ := run_inv (leafList_lawful _ _) {} hutf8
  rcases hnew : newLogOn Crypto.sample sampleRange {} (fun _ => {}) sampleDisk with ⟨db, f | tree⟩
  · rw [hnew] at hok
    cases hok
  · rw [hnew] at hok
    refine ⟨db, tree, rfl, Option.some.inj hok, ?_⟩
    exact (startup_agreement_iff (leafList_lawful _ _) (leafList_reports _ _)
      (wholeTree_lawful _ _) hnew).mpr (untampered_of_holds hinv.db)

def envelopeAt (timeNanos : Int) : Envelope :=
  let env := { sampleEnvelope with timeNanos := timeNanos }
  { env with signature := Crypto.sample.edSign (List.replicate 32 5) env.canonical }

def appendSample (size : Nat) (timeNanos : Int) (db : Db) : Db × Option Ret :=
  appendCtx Crypto.sample {} size (some (envelopeAt timeNanos)) false db
    (List.replicate 6 sampleReads)

def twoEntries : Db := (appendSample 1 8 sampleState.db).1

def editedDisk : Disk :=
  .ofDb { twoEntries with
    leaf := twoEntries.leaf.set 0 (List.replicate 32 9)
    size := some (.u64 7) }

def audit (db : Db) (t : Tree sampleRange) (idx : Nat) : Option Bool :=
  match (prove Crypto.sample sampleProofs (leafReads (fun _ => none) db) t
      (.inclusion idx t.size)).2, t.root Crypto.sample, db.getEntry none idx with
  | .ok proof, .ok root, .ok e =>
    some (sampleProofs.verifyInclusion idx t.size e.leafHash proof root).isOk
  | _, _, _ => none

/-- A log with room for one cached leaf starts on the edited store as on the other one. Then its
proof for entry 1 does not verify and an append is refused that the other store would take. -/
theorem edited_store_starts :
    let opts : Options := { merkleLeafCacheNodes := 1 }
    let edited := newLogOn Crypto.sample sampleRange opts (fun _ => {}) editedDisk
    let intact := newLogOn Crypto.sample sampleRange opts (fun _ => {}) (.ofDb twoEntries)
    edited.2.toOption.map Tree.size = some 2 ∧
    edited.1.leaf.get 0 = some (List.replicate 32 9) ∧
    (edited.1.getEntry none 0).toOption.map Entry.leafHash ≠ some (List.replicate 32 9) ∧
    edited.1.readSize.toOption = some 7 ∧
    (edited.2.toOption.bind fun t => audit edited.1 t 1) = some false ∧
    (intact.2.toOption.bind fun t => audit intact.1 t 1) = some true ∧
    failures (appendSample 2 9 edited.1).2.toList =
      [errorf "storage: append out of order: have size %d, entry index %d" [.nat 7, .nat 2]] ∧
    entryIndices (appendSample 2 9 intact.1).2.toList = [2] := by
  decide +kernel

end Stele.Core
