import Stele.Checkpoint.Checkpoint
import Stele.Storage.Store

/-!
# The log's calls and its start (`pkg/core/log.go`)

The pieces of `AppendCtx` and `CheckpointCtx` between two synchronisation points, and `New` with
its replay. How they interleave is `Stele.Core.Machine`.
-/

namespace Stele.Core

open Lib List

structure Options where
  requireEnrollment : Bool := false
  merkleCacheNodes : Nat := 0
  merkleLeafCacheNodes : Nat := 0
  replayTTL : Int := 0

/-- What a step of a call reads from outside the log: the error the database reports, the clock,
the operator's chain, the beacon, the signer and the witnesses' answers. -/
structure Reads where
  fault : Option Err := none
  now : Int := 0
  chainPubKey : Nat → Option Bytes := fun _ => none
  qChainPubKey : Nat → Option Bytes := fun _ => none
  beacon : Option Beacon := none
  signer : SignReads
  witnesses : List WitnessSig := []

variable (C : Crypto)

/-! ## `AppendCtx` -/

def checkEnrollment (r : Reads) (prod : Producer) (producerID : Bytes) : Res Unit := do
  ensure prod.hasEnrollment
    (errorf "core: producer %q has no enrollment but --require-enrollment is on"
      [.bytes producerID])
  ensure (¬ prod.isExpired r.now)
    (errorf "core: producer %q enrollment expired at %d" [.bytes producerID, .int prod.expiresAt])
  wrapErr "core: producer %q enrollment invalid: %w" [.bytes producerID]
    (prod.verifyEnrollment C r.chainPubKey r.qChainPubKey)

def checkProducer (opts : Options) (r : Reads) (env : Envelope) (prod : Producer) : Res Unit := do
  ensure (prod.revoked = false) (errorf "core: producer %q is revoked" [.bytes env.producerID])
  ensure (prod.publicKey = env.publicKey)
    (errorf "core: producer %q classical public key mismatch" [.bytes env.producerID])
  checkIf (prod.quantumPublicKey ≠ []) do
    ensure (env.quantumPublicKey ≠ [])
      (errorf "core: producer %q is registered as hybrid but envelope has no quantum_public_key (downgrade attempt?)"
        [.bytes env.producerID])
    ensure (prod.quantumPublicKey = env.quantumPublicKey)
      (errorf "core: producer %q quantum public key mismatch" [.bytes env.producerID])
  checkIf (opts.requireEnrollment = true) (checkEnrollment C r prod env.producerID)

def checkAppend (opts : Options) (r : Reads) (db : Db) : Option Envelope → Res Envelope
  | none => .error (errorf "core: nil envelope" [])
  | some env => do
    wrapErr "core: envelope rejected: %w" [] (env.verify C)
    let prod ← db.getProducer r.fault env.producerID
    checkProducer C opts r env prod
    return env

def nextEntry (now : Int) (idx : Nat) (head : Bytes) (env : Envelope) (honeypot : Bool) : Entry :=
  let prevEntry : Option Entry :=
    if idx = 0 then none
    else some {
      index := idx - 1
      timeNanos := 0
      prevHash := []
      envelope := none
      honeypot := false
      entryHash := head
      leafHash := [] }
  Entry.new C now idx prevEntry env honeypot

/-! ## `CheckpointCtx` -/

def defaultMaxClockSkew : Int := 5 * 60

def int64 (i : Int) : Int := i.bmod (2 ^ 64)

def checkSkew (now : Int) : Option Beacon → Res Unit
  | none => .ok ()
  | some b =>
    checkIf (0 < b.round ∧ b.source = lit "drand") <|
      let expected := int64 (1692489600 + 3 * b.round)
      let diff := int64 (now / 1000000000 - expected)
      let skew := if diff < 0 then int64 (-diff) else diff
      ensure (skew ≤ defaultMaxClockSkew)
        (errorf "core: refusing to checkpoint — operator clock disagrees with drand round %d by %ds (limit %ds)"
          [.nat b.round, .int skew, .int defaultMaxClockSkew])

def signCheckpoint (r : Reads) (size : Nat) (root head : Bytes) : Res Checkpoint := do
  checkSkew r.now r.beacon
  Checkpoint.sign C r.signer size root head r.beacon

def gatherWitnessSignatures (r : Reads) (c : Checkpoint) : Checkpoint :=
  { c with witnesses := c.witnesses ++ r.witnesses.map some }

variable {C} {env : Envelope}

lemma checkAppend_ok {opts : Options} {r : Reads} {db : Db} {o : Option Envelope}
    (h : checkAppend C opts r db o = .ok env) : o = some env ∧ env.Valid C := by
  cases o with
  | none => cases h
  | some =>
    simp only [checkAppend, bind_ok, wrapErr_ok, Envelope.verify_ok, pure_ok] at h
    obtain ⟨_, hvalid, _, -, _, -, rfl⟩ := h
    exact ⟨rfl, hvalid⟩

variable {head : Bytes}

lemma nextEntry_sound {now : Int} {idx : Nat} {honeypot : Bool} (h : env.Valid C) :
    (nextEntry C now idx head env honeypot).Sound C :=
  Entry.new_sound h

lemma nextEntry_prevHash {now : Int} {idx : Nat} {honeypot : Bool} (h : idx = 0 → head = zeroHash) :
    (nextEntry C now idx head env honeypot).prevHash = head := by
  by_cases hz : idx = 0
  · rw [h hz]
    simp [nextEntry, hz, Entry.new, Entry.sealEntry]
  · simp [nextEntry, hz, Entry.new, Entry.sealEntry]

lemma signCheckpoint_statement {r : Reads} {size : Nat} {root : Bytes} {c : Checkpoint}
    (h : signCheckpoint C r size root head = .ok c) :
    c.size = size ∧ c.rootHash = root ∧ c.headHash = head := by
  simp only [signCheckpoint, bind_ok] at h
  obtain ⟨_, -, h⟩ := h
  exact Checkpoint.sign_statement h

/-! ## `New` -/

structure ReplayFaults where
  ctx : Option Err := none
  value : Option Err := none
  getLeaf : Option Err := none
  putLeaf : Option Err := none

structure Replay (R : RangeImpl Bytes) where
  db : Db
  tree : Tree R
  prev : Option Entry
  count : Nat

variable {R : RangeImpl Bytes}

section
variable (C)

def replayCheck (prev : Option Entry) (e : Entry) : Res Unit := do
  wrapErr "replay: entry %d failed self-verify: %w" [.nat e.index] (e.verify C)
  wrapErr "replay: %w" [] (e.verifyChain prev)

def backfill (f : ReplayFaults) (e : Entry) (db : Db) : Db × Res Unit :=
  match wrapErr "replay: leaf check for entry %d: %w" [.nat e.index]
      (db.getLeafHash f.getLeaf e.index) with
  | .error flt => (db, .error flt)
  | .ok (some _) => (db, .ok ())
  | .ok none =>
    let (db, put) := db.putLeafHash f.putLeaf e.index e.leafHash
    (db, wrapErr "replay: leaf backfill for entry %d: %w" [.nat e.index] put)

def replayEntry (f : ReplayFaults) (s : Replay R) (e : Entry) : Replay R × Res Unit :=
  match replayCheck C s.prev e with
  | .error flt => (s, .error flt)
  | .ok () =>
    match backfill f e s.db with
    | (db, .error flt) => ({ s with db := db }, .error flt)
    | (db, .ok ()) =>
      match s.tree.appendLeafHash e.leafHash with
      | .error flt => ({ s with db := db }, .error flt)
      | .ok (tree, _) => (⟨db, tree, some e, s.count + 1⟩, .ok ())

def itemEntry (f : ReplayFaults) (doc : Doc) : Res Entry :=
  match f.ctx, f.value with
  | some e, _ => .error (.err e)
  | none, some e => .error (.err e)
  | none, none => doc.decode Entry.unmarshal

def replayEntries (faults : Nat → ReplayFaults) :
    List (Nat × Doc) → Replay R → Replay R × Res Unit
  | [], s => (s, .ok ())
  | (idx, doc) :: items, s =>
    match itemEntry (faults idx) doc with
    | .error flt => (s, .error flt)
    | .ok e =>
      match replayEntry C (faults idx) s e with
      | (s, .error flt) => (s, .error flt)
      | (s, .ok ()) => replayEntries faults items s

def replay (faults : Nat → ReplayFaults) (db : Db) (tree : Tree R) : Db × Res (Tree R) :=
  match replayEntries C faults db.entry.toList ⟨db, tree, none, 0⟩ with
  | (s, .error flt) => (s.db, .error flt)
  | (s, .ok ()) =>
    if s.count ≠ s.tree.size then
      (s.db, .error (errorf "replay: tree size %d != entries replayed %d"
        [.nat s.tree.size, .nat s.count]))
    else (s.db, .ok s.tree)

def newLog (R : RangeImpl Bytes) (opts : Options) (faults : Nat → ReplayFaults) (db : Db) :
    Db × Res (Tree R) :=
  replay C faults db
    (.newBoundedTreeWithStore R opts.merkleCacheNodes opts.merkleLeafCacheNodes .adapter)

end

/-! ### What `New` writes -/

def SameButLeaf (db db' : Db) : Prop := ∃ leaf, db' = { db with leaf := leaf }

lemma SameButLeaf.refl (db : Db) : SameButLeaf db db := ⟨db.leaf, rfl⟩

lemma SameButLeaf.trans {a b c : Db} (hab : SameButLeaf a b) (hbc : SameButLeaf b c) :
    SameButLeaf a c := by
  obtain ⟨leaf, rfl⟩ := hab
  obtain ⟨leaf', rfl⟩ := hbc
  exact ⟨leaf', rfl⟩

lemma putLeafHash_sameButLeaf (fault : Option Err) (idx : Nat) (hash : Bytes) (db : Db) :
    SameButLeaf db (db.putLeafHash fault idx hash).1 := by
  unfold Db.putLeafHash
  rcases db.update_cases fault _ with ⟨db', hdb', heq⟩ | ⟨f, heq⟩
  · rw [heq]
    cases hdb'
    exact ⟨_, rfl⟩
  · rw [heq]
    exact .refl db

lemma backfill_sameButLeaf (f : ReplayFaults) (e : Entry) (db : Db) :
    SameButLeaf db (backfill f e db).1 := by
  unfold backfill
  split
  · exact .refl db
  · exact .refl db
  · exact putLeafHash_sameButLeaf _ _ _ db

lemma replayEntry_sameButLeaf (f : ReplayFaults) (s : Replay R) (e : Entry) :
    SameButLeaf s.db (replayEntry C f s e).1.db := by
  have hback := backfill_sameButLeaf f e s.db
  unfold replayEntry
  split
  · exact .refl _
  · rcases hb : backfill f e s.db with ⟨db, flt | u⟩
    · rw [hb] at hback
      exact hback
    · rw [hb] at hback
      simp only
      split
      · exact hback
      · exact hback

lemma replayEntries_sameButLeaf (faults : Nat → ReplayFaults) (items : List (Nat × Doc))
    (s : Replay R) : SameButLeaf s.db (replayEntries C faults items s).1.db := by
  induction items generalizing s with
  | nil => exact .refl _
  | cons item items ih =>
    obtain ⟨idx, doc⟩ := item
    rw [replayEntries]
    cases itemEntry (faults idx) doc with
    | error => exact .refl _
    | ok e =>
      have hentry := replayEntry_sameButLeaf (C := C) (faults idx) s e
      simp only
      rcases hr : replayEntry C (faults idx) s e with ⟨s', flt | u⟩
      · rw [hr] at hentry
        exact hentry
      · rw [hr] at hentry
        exact hentry.trans (ih s')

/-- **`New` writes nothing but the leaf mirror**, on any store. -/
theorem newLog_sameButLeaf (opts : Options) (faults : Nat → ReplayFaults) (db : Db) :
    SameButLeaf db (newLog C R opts faults db).1 := by
  have hrun := replayEntries_sameButLeaf (C := C) faults db.entry.toList
    (⟨db, .newBoundedTreeWithStore R opts.merkleCacheNodes opts.merkleLeafCacheNodes .adapter,
      none, 0⟩ : Replay R)
  unfold newLog replay
  split
  · rename_i heq
    rw [heq] at hrun
    exact hrun
  · rename_i heq
    rw [heq] at hrun
    split
    · exact hrun
    · exact hrun

def ReadsOk (faults : Nat → ReplayFaults) : Prop :=
  ∀ i, (faults i).ctx = none ∧ (faults i).value = none ∧ (faults i).getLeaf = none

section
variable {RngHolds : R.Rng → List Bytes → Prop}

structure Replay.Holds (C : Crypto) (RngHolds : R.Rng → List Bytes → Prop)
    (es pre : List Entry) (s : Replay R) : Prop where
  db : s.db.Holds C es
  tree : s.tree.Holds RngHolds (pre.map Entry.leafHash)
  prev : s.prev = Entry.lastOr none pre
  count : s.count = pre.length

variable {es : List Entry} {e : Entry}

lemma backfill_eq {db : Db} (h : db.Holds C es) (he : es[e.index]? = some e) (f : ReplayFaults) :
    ∃ res, backfill f e db = (db, res) ∧ (f.getLeaf = none → res = .ok ()) := by
  unfold backfill
  cases hf : f.getLeaf with
  | none =>
    rw [h.getLeafHash_eq he]
    exact ⟨_, rfl, fun _ => rfl⟩
  | some => exact ⟨_, rfl, fun hn => nomatch hn⟩

lemma itemEntry_eq (h : e.IsUtf8) (f : ReplayFaults) :
    itemEntry f (some e.marshal) = .ok e ∨
      ∃ flt, itemEntry f (some e.marshal) = .error flt ∧ ¬ (f.ctx = none ∧ f.value = none) := by
  unfold itemEntry
  rcases f.ctx with _ | e₁
  · rcases f.value with _ | e₂
    · exact .inl (Entry.unmarshal_marshal h)
    · exact .inr ⟨_, rfl, by simp⟩
  · exact .inr ⟨_, rfl, by simp⟩

variable {pre rest : List Entry}

lemma replayCheck_of_chained (hes : es = pre ++ e :: rest) (hsound : ∀ x ∈ es, x.Sound C)
    (hchained : Entry.Chained none es) :
    replayCheck C (Entry.lastOr none pre) e = .ok () ∧ e.index = pre.length := by
  have hget : es[pre.length]? = some e := by simp [hes]
  have hidx : e.index = pre.length := by rw [hchained.index_eq hget, Entry.nextIndex, Nat.zero_add]
  rw [hes, Entry.chained_append] at hchained
  refine ⟨?_, hidx⟩
  simp only [replayCheck, bind_ok, wrapErr_ok, Entry.verify_ok, Entry.verifyChain_ok]
  exact ⟨(), hsound e (by simp [hes]), hchained.2.1⟩

variable (hR : R.Lawful (hashChildren C) (emptyRoot C) RngHolds)
include hR

/-- One iteration goes on to the next entry or stops, and it stops only on a failed read. -/
lemma replayEntry_holds (hes : es = pre ++ e :: rest) {s : Replay R}
    (h : s.Holds C RngHolds es pre) (f : ReplayFaults) :
    ∃ s' res, replayEntry C f s e = (s', res) ∧ s'.db.Holds C es ∧
      (res = .ok () → s'.Holds C RngHolds es (pre ++ [e])) ∧
      (f.getLeaf = none → res = .ok ()) := by
  have hget : es[pre.length]? = some e := by simp [hes]
  obtain ⟨hcheck, hidx⟩ := replayCheck_of_chained hes h.db.sound h.db.chained
  rw [← h.prev] at hcheck
  obtain ⟨res, hback, hok⟩ := backfill_eq h.db (hidx ▸ hget) f
  obtain ⟨tree, happ, htree⟩ := Tree.appendLeafHash_ok hR h.tree e.leafHash
  unfold replayEntry
  simp only [hcheck, hback]
  cases res with
  | error => exact ⟨_, _, rfl, h.db, (nofun), hok⟩
  | ok =>
    simp only [happ]
    refine ⟨_, _, rfl, h.db, fun _ => ⟨h.db, ?_, ?_, ?_⟩, fun _ => rfl⟩
    · rw [map_append]
      exact htree
    · simp [Entry.lastOr]
    · simp [h.count]

lemma replayEntries_holds (faults : Nat → ReplayFaults) (hes : es = pre ++ rest) {s : Replay R}
    (h : s.Holds C RngHolds es pre) :
    ∃ s' res, replayEntries C faults
        (((rest.map fun e => some e.marshal).zipIdx pre.length).map Prod.swap) s = (s', res) ∧
      s'.db.Holds C es ∧ (res = .ok () → s'.Holds C RngHolds es es) ∧
      (ReadsOk faults → res = .ok ()) := by
  induction rest generalizing pre s with
  | nil =>
    rw [append_nil] at hes
    subst hes
    exact ⟨s, _, rfl, h.db, fun _ => h, fun _ => rfl⟩
  | cons e rest ih =>
    rw [map_cons, zipIdx_cons, map_cons, Prod.swap_prod_mk, replayEntries]
    rcases itemEntry_eq (h.db.utf8 e (by simp [hes])) (faults pre.length) with
      hitem | ⟨flt, hitem, hflt⟩
    · obtain ⟨s', res, hentry, hdb, hnext, hstop⟩ := replayEntry_holds hR hes h (faults pre.length)
      simp only [hitem, hentry]
      cases res with
      | error => exact ⟨_, _, rfl, hdb, nofun, fun hr => hstop (hr _).2.2⟩
      | ok =>
        have hes' : es = (pre ++ [e]) ++ rest := by simp [hes]
        have hrest := ih hes' (hnext rfl)
        rwa [length_append] at hrest
    · rw [hitem]
      exact ⟨_, _, rfl, h.db, nofun, fun hr => absurd (hr _) (by tauto)⟩

lemma newLog_holds (opts : Options) (faults : Nat → ReplayFaults) {db : Db} (h : db.Holds C es) :
    ∃ db' res, newLog C R opts faults db = (db', res) ∧ db'.Holds C es ∧
      (∀ tree, res = .ok tree → tree.Holds RngHolds (es.map Entry.leafHash)) ∧
      (ReadsOk faults → ∃ tree, res = .ok tree) := by
  have hstart : Replay.Holds C RngHolds es [] ⟨db, .newBoundedTreeWithStore R
      opts.merkleCacheNodes opts.merkleLeafCacheNodes .adapter, none, 0⟩ :=
    ⟨h, Tree.newBoundedTreeWithStore_holds hR _ _ _, rfl, rfl⟩
  obtain ⟨s, res, hrun, hdb, hall, hok⟩ := replayEntries_holds hR faults (nil_append es).symm hstart
  unfold newLog replay
  rw [h.entry]
  rw [length_nil] at hrun
  simp only [hrun]
  cases res with
  | error => exact ⟨_, _, rfl, hdb, nofun, fun hr => nomatch hok hr⟩
  | ok =>
    have hs := hall rfl
    have hcount : s.count = s.tree.size := by rw [Tree.size_eq hR hs.tree, hs.count, length_map]
    simp only [hcount, ne_eq, not_true_eq_false, ↓reduceIte]
    refine ⟨_, _, rfl, hdb, ?_, fun _ => ⟨_, rfl⟩⟩
    rintro tree ⟨⟩
    exact hs.tree

end

end Stele.Core
