import Stele.Core.Invariant

/-!
# What the operator guarantees

The results about every run of the operator from an empty store, in the terms of the code.

`sampleRun` is a run with one append, a crash and a checkpoint on each side of it.
-/

namespace Stele.Core

open Lib List

variable {C : Crypto} {R : RangeImpl Bytes} {RngHolds : R.Rng → List Bytes → Prop}

/-- The store has exactly the entries `es`: entry `i` and its leaf under key `i`, chained to the
entry before it, and the metadata of the last one. -/
structure StoreOf (C : Crypto) (db : Db) (es : List Entry) : Prop where
  keys : db.entry.keys = List.range es.length
  leafKeys : db.leaf.keys = List.range es.length
  get : ∀ (i : Nat) (e : Entry), es[i]? = some e → db.getEntry none i = .ok e
  leaf : ∀ (i : Nat) (e : Entry), es[i]? = some e → db.leaf.get i = some e.leafHash
  index : ∀ (i : Nat) (e : Entry), es[i]? = some e → e.index = i
  verify : ∀ (i : Nat) (e : Entry), es[i]? = some e → e.verify C = .ok ()
  chain : ∀ (i : Nat) (e : Entry), es[i]? = some e → e.verifyChain (es.take i).getLast? = .ok ()
  size : db.readSize = .ok es.length
  head : db.head = es.getLast?.map Entry.entryHash

variable {es : List Entry}

lemma chained_at (h : Entry.Chained none es) {i : Nat} {e : Entry}
    (hi : es[i]? = some e) : e.Follows (es.take i).getLast? := by
  have hlt := (List.getElem?_eq_some_iff.mp hi).1
  have hsplit : es = es.take i ++ e :: es.drop (i + 1) := by
    rw [← (List.getElem?_eq_some_iff.mp hi).2, List.cons_getElem_drop_succ, List.take_append_drop]
  rw [hsplit, Entry.chained_append] at h
  have := h.2.1
  rwa [Entry.lastOr, Option.or_none] at this

lemma storeOf_of_holds {db : Db} (h : db.Holds C es) : StoreOf C db es where
  keys := by rw [h.entry.keys_eq, length_map]
  leafKeys := by rw [h.leaf.keys_eq, length_map]
  get i e hi := by
    have hget : db.entry.get i = some (some e.marshal) := by
      rw [h.entry.get, getElem?_map, hi]
      rfl
    simp only [Db.getEntry, Db.view, hget, Doc.decode]
    exact Entry.unmarshal_marshal (h.utf8 e (mem_of_getElem? hi))
  leaf i e hi := by
    rw [h.leaf.get, getElem?_map, hi]
    rfl
  index i e hi := by rw [h.chained.index_eq hi, Entry.nextIndex, Nat.zero_add]
  verify i e hi := Entry.verify_ok.mpr (h.sound e (mem_of_getElem? hi))
  chain i e hi := Entry.verifyChain_ok.mpr (chained_at h.chained hi)
  size := h.size
  head := h.head

lemma tree_of_quiet {p : Proc R} (h : p.Inv C RngHolds es)
    (hquiet : ∀ t e, p.pc t ≠ .appendTree e) : p.tree.Holds RngHolds (es.map Entry.leafHash) := by
  obtain ⟨pre, htree, hes⟩ := h.tree
  have hnil : p.pending = [] := by
    unfold Proc.pending
    cases p.mu with
    | none => rfl
    | some t =>
      simp only
      unfold Pc.pending
      split
      · rename_i e he
        exact absurd he (hquiet t e)
      · rfl
  rw [hnil, append_nil] at hes
  exact hes ▸ htree

def sampleEnvelope : Envelope :=
  let env : Envelope := {
    producerID := lit "p"
    timeNanos := 7
    source := lit "s"
    data := lit "d"
    publicKey := List.replicate 32 5
    type := lit "software"
    evidenceHash := []
    evidence := []
    signature := []
    quantumPublicKey := []
    quantumSignature := [] }
  { env with signature := Crypto.sample.edSign (List.replicate 32 5) env.canonical }

def sampleReads : Reads where
  signer := {
    origin := lit "log"
    pub := List.replicate 32 1
    epoch := 0
    now := 0
    threshold := none
    fwsSign := fun msg => .ok (Crypto.sample.edSign (List.replicate 32 1) msg)
    quantumSign := none }

def steps (t : Tid) (n : Nat) : List Action := List.replicate n (.thread t sampleReads)

def sampleRun : List Action :=
  [.start fun _ => {}, .registerProducer none 1 { id := lit "p", publicKey := List.replicate 32 5 },
    .callCheckpoint 0, .callAppend 1 (some sampleEnvelope) false] ++
  steps 0 1 ++ steps 1 2 ++ steps 0 4 ++ steps 1 5 ++
  [.crash, .start fun _ => {}, .callCheckpoint 2] ++ steps 2 5

abbrev sampleRange : RangeImpl Bytes :=
  leafList (hashChildren Crypto.sample) (emptyRoot Crypto.sample)

def sampleState : State sampleRange :=
  run (step Crypto.sample {}) (init sampleRange) sampleRun

/-- **The store and the tree agree after every run.** `New` succeeds whenever its reads do; the
store has the keys `0 … n-1` with sound chained entries, their leaves and their metadata; and unless
a thread is between committing its entry and adding it to the tree, the tree has size `n` and the
RFC 6962 root of the leaves. -/
theorem operator_store_invariant (hR : R.Lawful (hashChildren C) (emptyRoot C) RngHolds)
    (opts : Options) (as : List Action) (has : ∀ a ∈ as, a.IsUtf8) :
    (∀ faults, ReadsOk faults → ∃ db tree,
      newLog C R opts faults (run (step C opts) (init R) as).db = (db, .ok tree)) ∧
    ∃ es, StoreOf C (run (step C opts) (init R) as).db es ∧
      ∀ p, (run (step C opts) (init R) as).proc = some p → (∀ t e, p.pc t ≠ .appendTree e) →
        p.tree.size = es.length ∧ p.tree.root C = .ok (rfc6962Root C (es.map Entry.leafHash)) := by
  obtain ⟨es, h⟩ := run_inv hR opts has
  refine ⟨fun faults hf => ?_, es, storeOf_of_holds h.db, fun p hp hquiet => ?_⟩
  · obtain ⟨db', res, hnew, -, -, hok⟩ := newLog_holds hR opts faults h.db
    obtain ⟨tree, rfl⟩ := hok hf
    exact ⟨db', tree, hnew⟩
  · have htree := tree_of_quiet (h.proc p hp) hquiet
    exact ⟨by rw [Tree.size_eq hR htree, length_map], Tree.root_eq hR htree⟩

theorem operator_store_invariant_sample :
    sampleState.db.entry.keys = [0] ∧
    (∀ faults, ReadsOk faults → ∃ db tree,
      newLog Crypto.sample sampleRange {} faults sampleState.db = (db, .ok tree)) ∧
    ∃ es, StoreOf Crypto.sample sampleState.db es ∧
      ∀ p, sampleState.proc = some p → (∀ t e, p.pc t ≠ .appendTree e) →
        p.tree.size = es.length ∧ p.tree.root Crypto.sample =
          .ok (rfc6962Root Crypto.sample (es.map Entry.leafHash)) :=
  ⟨by decide +kernel,
    operator_store_invariant (leafList_lawful _ _) {} sampleRun (by decide +kernel)⟩

lemma Commits.headHash_eq {size : Nat} {root head : Bytes} (h : Commits C es size root head) :
    (size = 0 → head = zeroHash) ∧ ∀ m e, size = m + 1 → es[m]? = some e → head = e.entryHash := by
  rw [h.head]
  refine ⟨?_, ?_⟩
  · rintro rfl
    rfl
  · rintro m e rfl hm
    have hlast : (es.take (m + 1)).getLast? = some e := by
      rw [take_add_one, hm]
      simp
    rw [Db.headOf, hlast]
    rfl

/-- **An honest operator never equivocates.** All checkpoints that were ever returned commit to
prefixes of one log, so a smaller one commits to a prefix of what a larger one commits to. -/
theorem operator_never_equivocates (hR : R.Lawful (hashChildren C) (emptyRoot C) RngHolds)
    (opts : Options) (as : List Action) (has : ∀ a ∈ as, a.IsUtf8) :
    ∃ es, StoreOf C (run (step C opts) (init R) as).db es ∧
      ∀ c d, .checkpoint c ∈ (run (step C opts) (init R) as).returned →
        .checkpoint d ∈ (run (step C opts) (init R) as).returned → c.size ≤ d.size →
        d.size ≤ es.length ∧
        d.rootHash = rfc6962Root C ((es.map Entry.leafHash).take d.size) ∧
        c.rootHash = rfc6962Root C (((es.map Entry.leafHash).take d.size).take c.size) ∧
        (c.size = 0 → c.headHash = zeroHash) ∧
        (∀ m e, c.size = m + 1 → es[m]? = some e → c.headHash = e.entryHash) ∧
        (c.size = d.size → c.rootHash = d.rootHash ∧ c.headHash = d.headHash) := by
  obtain ⟨es, h⟩ := run_inv hR opts has
  refine ⟨es, storeOf_of_holds h.db, fun c d hc hd hle => ?_⟩
  have hcc := h.returned c hc
  have hcd := h.returned d hd
  obtain ⟨hzero, hsucc⟩ := hcc.headHash_eq
  refine ⟨hcd.size_le, by rw [hcd.root, map_take], ?_, hzero, hsucc, fun heq => ?_⟩
  · rw [hcc.root, map_take, take_take, Nat.min_eq_left hle]
  · rw [hcc.root, hcd.root, hcc.head, hcd.head, heq]
    exact ⟨rfl, rfl⟩

def checkpointSizes (rets : List Ret) : List Nat :=
  rets.filterMap fun
    | .checkpoint c => some c.size
    | _ => none

theorem operator_never_equivocates_sample :
    checkpointSizes sampleState.returned = [0, 1] ∧
    ∃ es, StoreOf Crypto.sample sampleState.db es ∧
      ∀ c d, .checkpoint c ∈ sampleState.returned → .checkpoint d ∈ sampleState.returned →
        c.size ≤ d.size →
        d.size ≤ es.length ∧
        d.rootHash = rfc6962Root Crypto.sample ((es.map Entry.leafHash).take d.size) ∧
        c.rootHash = rfc6962Root Crypto.sample (((es.map Entry.leafHash).take d.size).take c.size) ∧
        (c.size = 0 → c.headHash = zeroHash) ∧
        (∀ m e, c.size = m + 1 → es[m]? = some e → c.headHash = e.entryHash) ∧
        (c.size = d.size → c.rootHash = d.rootHash ∧ c.headHash = d.headHash) :=
  ⟨by decide +kernel,
    operator_never_equivocates (leafList_lawful _ _) {} sampleRun (by decide +kernel)⟩

end Stele.Core
