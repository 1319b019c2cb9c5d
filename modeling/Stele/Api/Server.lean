import Stele.Cmd.Client
import Stele.Core.Caches
import Stele.Keys.Signer

/-!
# The read handlers (`pkg/api`)

What an operator's server answers to the requests of the verifying commands, as their client
decodes it. A handler looks at the store, the tree and the signer of the process; a proof that was
served before may have filled the caches of the tree. The database works.
-/

namespace Stele

open Lib List

def Member.crossed (m : Member) : Member :=
  { m with id := coerce m.id, endpoint := coerce m.endpoint, description := coerce m.description }

def Group.crossed (g : Group) : Group :=
  { g with origin := coerce g.origin, members := g.members.map (Option.map Member.crossed) }

namespace Api

open Cmd

structure Server (R : RangeImpl Bytes) where
  db : Db
  tree : Tree R
  signer : Keys.Signer
  thresholdGroup : Option Group

def refuse (status : Nat) : Fault → Err
  | .err e => .wrap "HTTP %d: %s" [.nat status] e
  | .panic _ => .errorf "EOF" []

def respond {α : Type} (status : Nat) (r : Res α) : Except Err α := r.mapError (refuse status)

@[simp] lemma respond_ok {α : Type} {status : Nat} {r : Res α} {a : α} :
    respond status r = .ok a ↔ r = .ok a := mapError_ok

def parseUint (format : String) (n : Nat) : Res Nat :=
  if n < 2 ^ 64 then .ok n else .error (errorf format [])

lemma parseUint_ok {format : String} {n m : Nat} :
    parseUint format n = .ok m ↔ n < 2 ^ 64 ∧ n = m := by
  unfold parseUint
  by_cases h : n < 2 ^ 64
  · rw [if_pos h, Except.ok.injEq]
    exact ⟨fun heq => ⟨h, heq⟩, And.right⟩
  · rw [if_neg h]
    constructor
    · intro heq
      cases heq
    · intro hlt
      exact absurd hlt.1 h

variable {R : RangeImpl Bytes}

namespace Server

section
variable (C : Crypto) (P : ProofImpl Bytes) (s : Server R)

def after (s : Server R) : List Core.Request → Server R
  | [] => s
  | q :: qs =>
    let proved := Core.prove C P (Core.leafReads (fun _ => none) s.db) s.tree q
    after { s with tree := proved.1.tree } qs

def chain : Res Chain := do
  let _ ← s.signer.chain.certs.mapM deref
  return s.signer.chain

def handlePubKey : Except Err PubKeyResponse := respond 500 do
  let chain ← s.chain
  let root ← chain.rootPublicKey
  let _ ← chain.activePublicKey
  let _ ← chain.activeEpoch
  return { origin := coerce s.signer.origin, rootPublicKey := root }

def handleKeyChain : Except Err (Option Chain) := respond 500 do
  let chain ← s.chain
  return some chain.crossed

def handleThresholdGroup : Except Err (Option Group) := .ok (s.thresholdGroup.map Group.crossed)

def handleCheckpoint : Except Err (Option Checkpoint) :=
  match Core.latestCheckpoint none none s.db with
  | .error f => .error (refuse 500 f)
  | .ok none => .error (refuse 404 (errorf "no checkpoint yet" []))
  | .ok (some c) => .ok (some c.crossed)

def handleSize : Except Err Nat := respond 500 do
  let _ ← s.tree.root C
  return s.tree.size

def sendEntry (e : Entry) : Except Err (Option Entry) := respond 200 do
  return some (← Entry.unmarshal e.marshal)

def handleGetEntry (idx : Nat) : Except Err (Option Entry) := do
  let idx ← respond 400 (parseUint "invalid index: %w" idx)
  let e ← respond 404 (s.db.getEntry none idx)
  sendEntry e

def rangeEntries (db : Db) : Nat → Nat → List Entry
  | 0, _ => []
  | n + 1, i =>
    match db.getEntry none i with
    | .error _ => []
    | .ok e => e :: rangeEntries db n (i + 1)

def handleEntriesRange (start stop : Nat) : Except Err (List (Option Entry)) := do
  let start ← respond 400 (parseUint "invalid 'from': %w" start)
  let stop ← respond 400 (parseUint "invalid 'to': %w" stop)
  respond 400 (ensure (start < stop) (errorf "'to' must be > 'from'" []))
  respond 400 (ensure (stop - start ≤ 10000) (errorf "range too large (max 10000)" []))
  (rangeEntries s.db (stop - start) start).mapM sendEntry

def requestedSize (size : Nat) : Option Nat → Res Nat
  | none => .ok size
  | some n => parseUint "invalid tree_size: %w" n

def handleInclusionProof (idx : Nat) (treeSize : Option Nat) :
    Except Err InclusionProofResponse := do
  let idx ← respond 400 (parseUint "invalid index: %w" idx)
  let treeSize ← respond 400 (requestedSize s.tree.size treeSize)
  let _ ← respond 404 (s.db.getEntry none idx)
  let proof ← respond 400
    (Core.prove C P (Core.leafReads (fun _ => none) s.db) s.tree (.inclusion idx treeSize)).2
  let root ← respond 500 (s.tree.root C)
  respond 501 (ensure (treeSize = s.tree.size)
    (errorf "MVP only serves proofs at current tree size" []))
  return { treeSize := treeSize, proof := proof, rootHash := root }

def sampleOf (e : Option Entry) : SampleEntry where
  leafHash := (e.map Entry.leafHash).getD []
  producerID := ((e.bind Entry.envelope).map Envelope.producerID).getD []

def answers (served : Nat → Option Nat → List Core.Request) : Answers where
  pubkey := s.handlePubKey
  keychain := s.handleKeyChain
  thresholdGroup := s.handleThresholdGroup
  checkpoint := s.handleCheckpoint
  size := s.handleSize C
  entries := s.handleEntriesRange
  entry := s.handleGetEntry
  sampleEntry := fun idx => (s.handleGetEntry idx).map sampleOf
  inclusion := fun idx treeSize =>
    (s.after C P (served idx treeSize)).handleInclusionProof C P idx treeSize

end

/-! ## A server of a log -/

structure Serves (C : Crypto) (RngHolds : R.Rng → List Bytes → Prop) (es : List Entry)
    (s : Server R) : Prop where
  holds : s.db.Holds C es
  mirrored : Core.Mirrored C RngHolds (es.map Entry.leafHash) s.db s.tree

variable {C : Crypto} {P : ProofImpl Bytes} {RngHolds : R.Rng → List Bytes → Prop}
  {es : List Entry} {s : Server R}

lemma Serves.sendEntry_eq (h : s.Serves C RngHolds es) {e : Entry} (he : e ∈ es) :
    sendEntry e = .ok (some e) := by
  simp [sendEntry, Entry.unmarshal_marshal (h.holds.utf8 e he)]

lemma Serves.handleGetEntry_eq (h : s.Serves C RngHolds es) {i : Nat} {e : Entry}
    (hi : i < 2 ^ 64) (he : es[i]? = some e) : s.handleGetEntry i = .ok (some e) := by
  have hget := Core.getEntry_of_holds h.holds he
  simp only [handleGetEntry, parseUint, if_pos hi, respond, hget, Except.mapError, ok_bind]
  exact h.sendEntry_eq (mem_of_getElem? he)

lemma rangeEntries_of_holds {db : Db} (h : db.Holds C es) (n i : Nat) :
    rangeEntries db n i = (es.drop i).take n := by
  induction n generalizing i with
  | zero => rw [rangeEntries, take_zero]
  | succ n ih =>
    by_cases hi : i < es.length
    · have hget := Core.getEntry_of_holds h (getElem?_eq_getElem hi)
      rw [rangeEntries, hget, drop_eq_getElem_cons hi, take_succ_cons]
      simp only
      rw [ih]
    · have hnone : db.entry.get i = none := by
        rw [h.entry.get, getElem?_eq_none (by simpa using hi)]
      rw [rangeEntries, Db.getEntry, Db.view, hnone, drop_eq_nil_of_le (by omega)]
      simp

lemma handleEntriesRange_ok (h : s.db.Holds C es) {start stop : Nat}
    {answer : List (Option Entry)} :
    s.handleEntriesRange start stop = .ok answer ↔
      start < 2 ^ 64 ∧ stop < 2 ^ 64 ∧ start < stop ∧ stop - start ≤ 10000 ∧
        answer = ((es.drop start).take (stop - start)).map some := by
  have hsent : ∀ l : List Entry, (∀ e ∈ l, e ∈ es) → l.mapM sendEntry = .ok (l.map some) := by
    intro l hl
    induction l with
    | nil => rfl
    | cons e l ih =>
      have hsend : sendEntry e = .ok (some e) := by
        simp [sendEntry, Entry.unmarshal_marshal (h.utf8 e (hl e mem_cons_self))]
      rw [mapM_cons, hsend, ok_bind, ih fun x hx => hl x (mem_cons_of_mem _ hx)]
      rfl
  simp only [handleEntriesRange, bind_ok, respond_ok, parseUint_ok, ensure_ok, exists_const,
    rangeEntries_of_holds h]
  constructor
  · rintro ⟨_, ⟨hstart, rfl⟩, _, ⟨hstop, rfl⟩, hlt, hmax, hanswer⟩
    rw [hsent _ fun e he => mem_of_mem_drop (mem_of_mem_take he)] at hanswer
    exact ⟨hstart, hstop, hlt, hmax, (Except.ok.inj hanswer).symm⟩
  · rintro ⟨hstart, hstop, hlt, hmax, rfl⟩
    refine ⟨start, ⟨hstart, rfl⟩, stop, ⟨hstop, rfl⟩, hlt, hmax, ?_⟩
    exact hsent _ fun e he => mem_of_mem_drop (mem_of_mem_take he)

lemma Serves.handleEntriesRange_eq (h : s.Serves C RngHolds es) {start stop : Nat}
    (hlt : start < stop) (hmax : stop - start ≤ 10000) (hfits : stop < 2 ^ 64) :
    s.handleEntriesRange start stop = .ok (((es.drop start).take (stop - start)).map some) :=
  (handleEntriesRange_ok h.holds).mpr ⟨by omega, hfits, hlt, hmax, rfl⟩

section
variable (hR : R.Lawful (hashChildren C) (emptyRoot C) RngHolds)
  (hP : P.Lawful (hashChildren C) (emptyRoot C))
include hR

lemma Serves.handleSize_eq (h : s.Serves C RngHolds es) : s.handleSize C = .ok es.length := by
  have hsize := Tree.size_eq hR h.mirrored.ready.holds
  have hroot := Tree.root_eq hR h.mirrored.ready.holds
  simp [handleSize, hroot, hsize]

include hP

lemma Serves.after (h : s.Serves C RngHolds es) (qs : List Core.Request) :
    (s.after C P qs).Serves C RngHolds es := by
  induction qs generalizing s with
  | nil => exact h
  | cons q qs ih => exact ih ⟨h.holds, h.mirrored.prove hR hP _ q⟩

lemma Serves.handleInclusionProof_current (h : s.Serves C RngHolds es) {i : Nat} {e : Entry}
    (he : es[i]? = some e) (hfits : es.length < 2 ^ 64) {treeSize : Option Nat}
    (hsize : treeSize.getD es.length = es.length) :
    ∃ proof, s.handleInclusionProof C P i treeSize =
        .ok ⟨es.length, proof, rfc6962Root C (es.map Entry.leafHash)⟩ ∧
      P.verifyInclusion i es.length e.leafHash proof
        (rfc6962Root C (es.map Entry.leafHash)) = .ok () := by
  have hgood := h.mirrored.good hR hP {}
  have hlt : i < es.length := (List.getElem?_eq_some_iff.mp he).1
  have hlen : s.tree.size = es.length := by rw [hgood.size, List.length_map]
  have hwithin : (Core.Request.inclusion i es.length).Within (es.map Entry.leafHash).length := by
    rw [List.length_map]
    exact ⟨hlt, Nat.le.refl⟩
  obtain ⟨proof, hproof⟩ := hgood.served _ hwithin
  obtain ⟨-, leaf, hleaf, hverified⟩ := hgood.verified _ _ _ hproof
  rw [getElem?_map, he, Option.map_some, Option.some.injEq] at hleaf
  rw [take_of_length_le (by simp)] at hverified
  refine ⟨proof, ?_, hleaf ▸ hverified⟩
  have hget := Core.getEntry_of_holds h.holds he
  have hrequested : requestedSize es.length treeSize = .ok es.length := by
    cases treeSize with
    | none => rfl
    | some =>
      rw [Option.getD_some] at hsize
      rw [requestedSize, parseUint, hsize, if_pos hfits]
  have hi : i < 2 ^ 64 := by omega
  simp only [handleInclusionProof, parseUint, if_pos hi, respond, Except.mapError, ok_bind, hlen,
    hrequested, hget, hproof, hgood.root, ensure, if_true]
  rfl

lemma Serves.handleInclusionProof_other (h : s.Serves C RngHolds es) {i n : Nat}
    (hne : n ≠ es.length) : ∃ e, s.handleInclusionProof C P i (some n) = .error e := by
  have hlen : s.tree.size = es.length := by rw [(h.mirrored.good hR hP {}).size, List.length_map]
  cases hres : s.handleInclusionProof C P i (some n) with
  | error e => exact ⟨e, rfl⟩
  | ok =>
    simp only [handleInclusionProof, bind_ok, respond_ok, requestedSize, parseUint] at hres
    obtain ⟨idx, -, size, hsize, -, -, -, -, -, -, _, hcur, -⟩ := hres
    rw [ensure_ok, hlen] at hcur
    split at hsize
    · cases hsize
      exact absurd hcur hne
    · cases hsize

end

end Server

end Api

end Stele
