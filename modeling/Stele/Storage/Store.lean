import Stele.Lib.OrdMap
import Stele.LogEntry.Entry
import Stele.Storage.Producers

/-!
# The store (`pkg/storage`)

`Db` is the content of the BadgerDB keyspaces that the log reads and writes. A key prefix followed
by a big-endian `u64` is a map keyed by a number and iterated in its order; counters do not wrap.
`anchor/` records are not part of the model.

A transaction is atomic and durable. It is given the error the database reports for it, if any
(`fault`); a transaction that ends in an error is not applied (`update`).
-/

namespace Stele

open Lib List

abbrev Doc := Option Json

def Doc.decode {α : Type} (ofJson : Json → Res α) : Doc → Res α
  | some j => ofJson j
  | none => .error (errorf "invalid character" [])

/-- A stored value that should be 8 bytes: the number, or the wrong length it has. -/
inductive U64Val
  | u64 (n : Nat)
  | other (len : Nat)
  deriving DecidableEq

structure ReplayVal where
  idx : U64Val
  expiresAt : Option Int

structure Db where
  entry : OrdMap Nat Doc
  leaf : OrdMap Nat Bytes
  ckpt : OrdMap Nat Doc
  size : Option U64Val
  head : Option Bytes
  replay : AList fun _ : Bytes => ReplayVal
  producer : AList fun _ : Bytes => Doc

namespace Db

def empty : Db := ⟨.empty, .empty, .empty, none, none, ∅, ∅⟩

/-! ## Transactions -/

def update (fault : Option Err) (txn : Db → Res Db) (db : Db) : Db × Res Unit :=
  match fault with
  | some e => (db, .error (.err e))
  | none =>
    match txn db with
    | .ok db' => (db', .ok ())
    | .error f => (db, .error f)

def view {α : Type} (fault : Option Err) (read : Db → Res α) (db : Db) : Res α :=
  match fault with
  | some e => .error (.err e)
  | none => read db

lemma update_cases (fault : Option Err) (txn : Db → Res Db) (db : Db) :
    (∃ db', txn db = .ok db' ∧ db.update fault txn = (db', .ok ())) ∨
      ∃ f, db.update fault txn = (db, .error f) := by
  unfold update
  cases fault with
  | some => exact .inr ⟨_, rfl⟩
  | none =>
    cases h : txn db with
    | ok db' => exact .inl ⟨db', rfl, rfl⟩
    | error f => exact .inr ⟨f, rfl⟩

variable {fault : Option Err} {txn : Db → Res Db} {db db' : Db}

lemma update_ok (h : db.update fault txn = (db', .ok ())) : txn db = .ok db' := by
  rcases db.update_cases fault txn with ⟨db'', htxn, heq⟩ | ⟨f', heq⟩
  · rw [heq] at h
    cases h
    exact htxn
  · rw [heq] at h
    cases h

variable {f : Fault}

lemma update_error (h : db.update fault txn = (db', .error f)) : db' = db := by
  rcases db.update_cases fault txn with ⟨db'', -, heq⟩ | ⟨f', heq⟩
  · rw [heq] at h
    cases h
  · rw [heq] at h
    cases h
    rfl

/-! ## Entries -/

def readSize (db : Db) : Res Nat :=
  match db.size with
  | none => .ok 0
  | some (.u64 n) => .ok n
  | some (.other len) => .error (errorf "meta/size wrong length %d" [.nat len])

/-- The value of `meta/head_hash`; the error of a wrong length is the caller's. -/
def headVal (wrongLength : String) (db : Db) : Res Bytes :=
  match db.head with
  | none => .ok zeroHash
  | some h => if h.length = 32 then .ok h else .error (errorf wrongLength [.nat h.length])

def readHead (db : Db) : Res Bytes := db.headVal "meta/head_hash wrong length %d"

def headHash (fault : Option Err) (db : Db) : Res Bytes :=
  db.view fault (headVal "meta/head_hash has wrong length %d")

def appendEntryTxn (e : Entry) (db : Db) : Res Db := do
  let curSize ← db.readSize
  ensure (e.index = curSize)
    (errorf "storage: append out of order: have size %d, entry index %d"
      [.nat curSize, .nat e.index])
  let curHead ← db.readHead
  ensure (e.prevHash = curHead)
    (errorf "storage: PrevHash %x does not match head %x" [.bytes e.prevHash, .bytes curHead])
  ensure ((db.entry.get e.index).isNone = true)
    (errorf "storage: entry %d already present" [.nat e.index])
  return { db with
    entry := db.entry.set e.index (some e.marshal)
    leaf := db.leaf.set e.index e.leafHash
    size := some (.u64 (curSize + 1))
    head := some e.entryHash }

def appendEntry (fault : Option Err) (e : Entry) (db : Db) : Db × Res Unit :=
  if e.entryHash = [] ∨ e.leafHash = [] then (db, .error (errorf "storage: entry not sealed" []))
  else db.update fault (appendEntryTxn e)

def getEntry (fault : Option Err) (idx : Nat) (db : Db) : Res Entry :=
  db.view fault fun db =>
    match db.entry.get idx with
    | none => .error (errorf "storage: entry %d not found" [.nat idx])
    | some doc => doc.decode Entry.unmarshal

def getLeafHash (fault : Option Err) (idx : Nat) (db : Db) : Res (Option Bytes) :=
  db.view fault fun db =>
    match db.leaf.get idx with
    | none => .ok none
    | some h => .ok (if h = [] then none else some h)

def putLeafHash (fault : Option Err) (idx : Nat) (hash : Bytes) (db : Db) : Db × Res Unit :=
  db.update fault fun db => .ok { db with leaf := db.leaf.set idx hash }

def saveCheckpoint (fault : Option Err) (treeSize : Nat) (body : Json) (db : Db) :
    Db × Res Unit :=
  db.update fault fun db => .ok { db with ckpt := db.ckpt.set treeSize (some body) }

/-! ## Replay protection -/

def liveReplay (now : Int) (db : Db) (key : Bytes) : Option ReplayVal :=
  (db.replay.lookup key).filter fun v =>
    match v.expiresAt with
    | some t => decide (now < t)
    | none => true

def checkAndRecordEnvelope (fault : Option Err) (replayTTL now : Int) (envelopeHash : Bytes)
    (entryIdx : Nat) (db : Db) : Db × Res Unit :=
  db.update fault fun db =>
    let k := hex envelopeHash
    match db.liveReplay now k with
    | some v =>
      let origIdx := match v.idx with
        | .u64 n => n
        | .other _ => 0
      .error (errorf "replay: envelope already accepted as entry %d" [.nat origIdx])
    | none =>
      let expiresAt := if 0 < replayTTL then some (now + replayTTL) else none
      .ok { db with replay := db.replay.insert k ⟨.u64 entryIdx, expiresAt⟩ }

/-! ## Producers -/

def registerProducer (fault : Option Err) (now : Int) (p : Producer) (db : Db) : Db × Res Unit :=
  if p.id = [] then (db, .error (errorf "storage: producer requires id" []))
  else if p.publicKey.length ≠ edPublicKeySize then
    (db, .error (errorf "storage: producer public key wrong length %d" [.nat p.publicKey.length]))
  else
    let p := if p.registeredAt = 0 then { p with registeredAt := now } else p
    db.update fault fun db => .ok { db with producer := db.producer.insert p.id (some p.toJson) }

def getProducer (fault : Option Err) (id : Bytes) (db : Db) : Res Producer :=
  db.view fault fun db =>
    match db.producer.lookup id with
    | none => .error (errorf "storage: producer %q not registered" [.bytes id])
    | some doc => doc.decode Producer.ofJson

def revokeProducer (fault : Option Err) (now : Int) (id reason : Bytes) (db : Db) : Db × Res Unit :=
  db.update fault fun db =>
    match db.producer.lookup id with
    | none => .error (errorf "Key not found" [])
    | some doc => do
      let p ← doc.decode Producer.ofJson
      let p := { p with revoked := true, revokedAt := now, revokeReason := reason }
      return { db with producer := db.producer.insert id (some p.toJson) }

/-! ## What each transaction writes -/

lemma update_frame {α : Type} (put : Db → α → Db) (get : Db → α)
    (hput : ∀ db, put db (get db) = db) (htxn : ∀ db', txn db = .ok db' → ∃ a, db' = put db a)
    (fault : Option Err) : ∃ a, (db.update fault txn).1 = put db a := by
  rcases db.update_cases fault txn with ⟨db', hdb', heq⟩ | ⟨f, heq⟩
  · rw [heq]
    exact htxn db' hdb'
  · rw [heq]
    exact ⟨get db, (hput db).symm⟩

lemma checkAndRecordEnvelope_frame (fault : Option Err) (replayTTL now : Int)
    (envelopeHash : Bytes) (idx : Nat) (db : Db) : ∃ replay,
      (db.checkAndRecordEnvelope fault replayTTL now envelopeHash idx).1 =
        { db with replay := replay } := by
  apply update_frame (fun db replay => { db with replay := replay }) Db.replay fun _ => rfl
  intro db' hdb'
  simp only at hdb'
  split at hdb'
  · cases hdb'
  · cases hdb'
    exact ⟨_, rfl⟩

lemma saveCheckpoint_frame (fault : Option Err) (size : Nat) (body : Json) (db : Db) :
    ∃ ckpt, (db.saveCheckpoint fault size body).1 = { db with ckpt := ckpt } := by
  apply update_frame (fun db ckpt => { db with ckpt := ckpt }) Db.ckpt fun _ => rfl
  intro db' hdb'
  cases hdb'
  exact ⟨_, rfl⟩

lemma registerProducer_frame (fault : Option Err) (now : Int) (p : Producer) (db : Db) :
    ∃ producer, (db.registerProducer fault now p).1 = { db with producer := producer } := by
  unfold registerProducer
  split
  · exact ⟨db.producer, rfl⟩
  · split
    · exact ⟨db.producer, rfl⟩
    · apply update_frame (fun db producer => { db with producer := producer }) Db.producer
        fun _ => rfl
      intro db' hdb'
      cases hdb'
      exact ⟨_, rfl⟩

lemma revokeProducer_frame (fault : Option Err) (now : Int) (id reason : Bytes) (db : Db) :
    ∃ producer, (db.revokeProducer fault now id reason).1 = { db with producer := producer } := by
  apply update_frame (fun db producer => { db with producer := producer }) Db.producer
    fun _ => rfl
  intro db' hdb'
  split at hdb'
  · cases hdb'
  · simp only [bind_ok, pure_ok] at hdb'
    obtain ⟨p, -, rfl⟩ := hdb'
    exact ⟨_, rfl⟩

variable {now : Int}

lemma registerProducer_error {p : Producer}
    (h : db.registerProducer fault now p = (db', .error f)) : db' = db := by
  unfold registerProducer at h
  split at h
  · cases h
    rfl
  · split at h
    · cases h
      rfl
    · exact update_error h

lemma registerProducer_ok {p : Producer} (h : db.registerProducer fault now p = (db', .ok ())) :
    ∃ registeredAt, db' = { db with
      producer := db.producer.insert p.id
        (some (Producer.toJson { p with registeredAt := registeredAt })) } := by
  unfold registerProducer at h
  split at h
  · cases h
  · split at h
    · cases h
    · cases update_ok h
      split
      · exact ⟨now, rfl⟩
      · exact ⟨p.registeredAt, rfl⟩

lemma revokeProducer_ok {id reason : Bytes}
    (h : db.revokeProducer fault now id reason = (db', .ok ())) :
    ∃ p : Producer, p.revoked = true ∧
      db' = { db with producer := db.producer.insert id (some p.toJson) } := by
  have htxn := update_ok h
  simp only at htxn
  split at htxn
  · cases htxn
  · simp only [bind_ok, pure_ok] at htxn
    obtain ⟨p, -, rfl⟩ := htxn
    exact ⟨_, rfl, rfl⟩

lemma revokeProducer_error {id reason : Bytes}
    (h : db.revokeProducer fault now id reason = (db', .error f)) : db' = db :=
  update_error h

lemma appendEntry_ok {e : Entry} (h : db.appendEntry fault e = (db', .ok ())) :
    db.readSize = .ok e.index ∧ db' = { db with
      entry := db.entry.set e.index (some e.marshal)
      leaf := db.leaf.set e.index e.leafHash
      size := some (.u64 (e.index + 1))
      head := some e.entryHash } := by
  unfold appendEntry at h
  split at h
  · cases h
  · rcases db.update_cases fault (appendEntryTxn e) with ⟨db'', htxn, heq⟩ | ⟨f, heq⟩
    · rw [heq] at h
      cases h
      simp only [appendEntryTxn, bind_ok, ensure_ok, exists_const, pure_ok] at htxn
      obtain ⟨size, hsize, hidx, _, -, -, -, rfl⟩ := htxn
      rw [← hidx] at hsize ⊢
      exact ⟨hsize, rfl⟩
    · rw [heq] at h
      cases h

lemma appendEntry_error {e : Entry} (h : db.appendEntry fault e = (db', .error f)) :
    db' = db := by
  unfold appendEntry at h
  split at h
  · cases h
    rfl
  · exact update_error h

/-! ## What the store holds -/

variable (C : Crypto)

/-- **The store of the entries `es`.** Entry `i` is under key `i` and so is its leaf hash, the
metadata describe the last entry, and the entries are sound, chained and UTF-8. -/
structure Holds (db : Db) (es : List Entry) : Prop where
  entry : db.entry.IsSeq (es.map fun e => some e.marshal)
  leaf : db.leaf.IsSeq (es.map Entry.leafHash)
  size : db.readSize = .ok es.length
  head : db.head = es.getLast?.map Entry.entryHash
  sound : ∀ e ∈ es, e.Sound C
  utf8 : ∀ e ∈ es, e.IsUtf8
  chained : Entry.Chained none es

def headOf (es : List Entry) : Bytes := (es.getLast?.map Entry.entryHash).getD zeroHash

variable {C}

lemma empty_holds : empty.Holds C [] where
  entry := OrdMap.isSeq_empty
  leaf := OrdMap.isSeq_empty
  size := rfl
  head := rfl
  sound := by simp
  utf8 := by simp
  chained := trivial

namespace Holds

variable {db : Db} {es : List Entry} (h : db.Holds C es)
include h

lemma unique {es' : List Entry} (h' : db.Holds C es') : es = es' := by
  have hdocs := h.entry.values_eq.symm.trans h'.entry.values_eq
  have hdecode (l : List Entry) (hl : ∀ e ∈ l, e.IsUtf8) :
      (l.map fun e => some e.marshal).map (Doc.decode Entry.unmarshal) = l.map Except.ok := by
    rw [map_map]
    exact map_congr_left fun e he => Entry.unmarshal_marshal (hl e he)
  have hok := hdecode es h.utf8
  rw [hdocs, hdecode es' h'.utf8] at hok
  exact (map_injective_iff.mpr (fun _ _ heq => Except.ok.inj heq) hok).symm

lemma headVal_eq (wrongLength : String) : db.headVal wrongLength = .ok (headOf es) := by
  unfold headVal headOf
  rw [h.head]
  cases hl : es.getLast? with
  | none => rfl
  | some e =>
    have hlen := (h.sound e (mem_of_getLast? hl)).entryHash_length
    simp [hlen]

lemma headHash_cases (fault : Option Err) :
    db.headHash fault = .ok (headOf es) ∨ ∃ f, db.headHash fault = .error f := by
  cases fault with
  | none => exact .inl (h.headVal_eq _)
  | some => exact .inr ⟨_, rfl⟩

variable {e : Entry}

lemma getLeafHash_eq {i : Nat} (hi : es[i]? = some e) :
    db.getLeafHash none i = .ok (some e.leafHash) := by
  have hget : db.leaf.get i = some e.leafHash := by rw [h.leaf.get, getElem?_map, hi]; rfl
  have hlen := (h.sound e (mem_of_getElem? hi)).leafHash_length
  have hne : e.leafHash ≠ [] := fun he => by rw [he] at hlen; cases hlen
  unfold getLeafHash view
  simp [hget, hne]

lemma of_eq {db' : Db} (he : db'.entry = db.entry) (hl : db'.leaf = db.leaf)
    (hs : db'.size = db.size) (hh : db'.head = db.head) : db'.Holds C es where
  entry := he ▸ h.entry
  leaf := hl ▸ h.leaf
  size := by unfold readSize; rw [hs]; exact h.size
  head := hh ▸ h.head
  sound := h.sound
  utf8 := h.utf8
  chained := h.chained

lemma checkAndRecordEnvelope (fault : Option Err) (replayTTL now : Int) (envelopeHash : Bytes)
    (idx : Nat) :
    (db.checkAndRecordEnvelope fault replayTTL now envelopeHash idx).1.Holds C es := by
  obtain ⟨replay, heq⟩ := db.checkAndRecordEnvelope_frame fault replayTTL now envelopeHash idx
  rw [heq]
  exact h.of_eq rfl rfl rfl rfl

lemma saveCheckpoint (fault : Option Err) (size : Nat) (body : Json) :
    (db.saveCheckpoint fault size body).1.Holds C es := by
  obtain ⟨ckpt, heq⟩ := db.saveCheckpoint_frame fault size body
  rw [heq]
  exact h.of_eq rfl rfl rfl rfl

lemma registerProducer (fault : Option Err) (now : Int) (p : Producer) :
    (db.registerProducer fault now p).1.Holds C es := by
  obtain ⟨producer, heq⟩ := db.registerProducer_frame fault now p
  rw [heq]
  exact h.of_eq rfl rfl rfl rfl

lemma revokeProducer (fault : Option Err) (now : Int) (id reason : Bytes) :
    (db.revokeProducer fault now id reason).1.Holds C es := by
  obtain ⟨producer, heq⟩ := db.revokeProducer_frame fault now id reason
  rw [heq]
  exact h.of_eq rfl rfl rfl rfl

lemma follows (hi : e.index = es.length) (hp : e.prevHash = headOf es) :
    e.Follows (Entry.lastOr none es) := by
  unfold Entry.lastOr
  rw [Option.or_none]
  cases hl : es.getLast? with
  | none =>
    rw [getLast?_eq_none_iff] at hl
    subst hl
    exact ⟨hi, hp⟩
  | some last =>
    have hlast : es[es.length - 1]? = some last := by rw [← getLast?_eq_getElem?]; exact hl
    have hidx := h.chained.index_eq hlast
    have hpos : es ≠ [] := fun he => by subst he; cases hl
    have := length_pos_iff.mpr hpos
    refine ⟨?_, ?_⟩
    · rw [hi, hidx, Entry.nextIndex]
      omega
    · rw [hp, headOf, hl]
      rfl

lemma appendEntryTxn_ok (hi : e.index = es.length) (hp : e.prevHash = headOf es) (hs : e.Sound C)
    (hu : e.IsUtf8) : ∃ db', db.appendEntryTxn e = .ok db' ∧ db'.Holds C (es ++ [e]) := by
  have hnone : db.entry.get es.length = none := by
    rw [h.entry.get]
    simp
  refine ⟨{ db with
    entry := db.entry.set e.index (some e.marshal)
    leaf := db.leaf.set e.index e.leafHash
    size := some (.u64 (es.length + 1))
    head := some e.entryHash }, ?_, ?_⟩
  · simp only [appendEntryTxn, bind_ok, ensure_ok, pure_ok]
    refine ⟨_, h.size, (), hi, _, h.headVal_eq _, (), hp, (), ?_, rfl⟩
    rw [hi, hnone]
    rfl
  · refine ⟨?_, ?_, ?_, ?_, ?_, ?_, ?_⟩
    · rw [map_append, hi]
      simpa using h.entry.set (some e.marshal)
    · rw [map_append, hi]
      simpa using h.leaf.set e.leafHash
    · simp [readSize]
    · simp
    · intro x hx
      rcases mem_append.mp hx with hx | hx
      · exact h.sound x hx
      · rw [mem_singleton.mp hx]
        exact hs
    · intro x hx
      rcases mem_append.mp hx with hx | hx
      · exact h.utf8 x hx
      · rw [mem_singleton.mp hx]
        exact hu
    · exact Entry.chained_concat.mpr ⟨h.chained, h.follows hi hp⟩

lemma appendEntry (fault : Option Err) (hi : e.index = es.length) (hp : e.prevHash = headOf es)
    (hs : e.Sound C) (hu : e.IsUtf8) :
    (∃ db', db.appendEntry fault e = (db', .ok ()) ∧ db'.Holds C (es ++ [e])) ∨
      ∃ f, db.appendEntry fault e = (db, .error f) := by
  unfold Db.appendEntry
  split
  · exact .inr ⟨_, rfl⟩
  · obtain ⟨db', htxn, hdb'⟩ := h.appendEntryTxn_ok hi hp hs hu
    rcases db.update_cases fault (appendEntryTxn e) with ⟨db'', htxn', heq⟩ | ⟨f, heq⟩
    · rw [htxn] at htxn'
      cases htxn'
      exact .inl ⟨db', heq, hdb'⟩
    · exact .inr ⟨f, heq⟩

end Holds

end Db

end Stele
