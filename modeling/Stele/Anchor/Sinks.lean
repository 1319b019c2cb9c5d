import Stele.Core.Stored

/-!
# Anchoring (`pkg/anchor`, `Anchor` of `pkg/core/log.go`)

`Anchor` publishes the latest checkpoint to the sinks that the operator configured.
-/

namespace Stele.Anchor

open Lib List Core Json

structure Record where
  checkpoint : Checkpoint
  sinkName : Bytes
  sinkRef : Bytes
  anchoredAt : Int
  recordHash : Bytes
  deriving DecidableEq

def Record.toJson (record : Record) : Json := .obj <|
  fld "checkpoint" record.checkpoint.marshal ++
  fld "sink_name" (.ofStr record.sinkName) ++
  fld "sink_ref" (.ofStr record.sinkRef) ++
  fld "anchored_at" (.num record.anchoredAt) ++
  fld "record_hash" (.ofStr record.recordHash)

variable (C : Crypto)

def recordOf (name ref : Bytes) (now : Int) (c : Checkpoint) : Record where
  checkpoint := c
  sinkName := name
  sinkRef := ref
  anchoredAt := now
  recordHash := hex (C.sha256 c.canonical)

/-! ## `FileSink` -/

structure FileSink where
  path : Bytes
  lines : List (Option Json) := []
  head : Bytes := []

structure FileReads where
  openFile : Option Err := none
  seek : Except Err Nat := .ok 0
  now : Int := 0
  write : Option Err := none
  sync : Option Err := none
  writeHead : Option Err := none
  rename : Option Err := none

def FileReads.Answers (r : FileReads) : Prop :=
  r.openFile = none ∧ (∃ offset, r.seek = .ok offset) ∧ r.write = none ∧ r.sync = none ∧
    r.writeHead = none ∧ r.rename = none

namespace FileSink

def name (s : FileSink) : Bytes := lit "file:" ++ s.path

def append (s : FileSink) (r : FileReads) (offset : Nat) (c : Checkpoint) :
    FileSink × Res Record :=
  let record := recordOf C s.name (lit "offset=" ++ dec offset) r.now c
  match r.write with
  | some e => ({ s with lines := s.lines ++ [none] }, .error (.err e))
  | none =>
    let s := { s with lines := s.lines ++ [some record.toJson] }
    match r.sync.or (r.writeHead.or r.rename) with
    | some e => (s, .error (.err e))
    | none => ({ s with head := line record.recordHash }, .ok record)

def publish (s : FileSink) (r : FileReads) (c : Checkpoint) : FileSink × Res Record :=
  if c.signature = [] then
    (s, .error (errorf "anchor: refusing to publish unsigned checkpoint" []))
  else
    match r.openFile, r.seek with
    | some e, _ => (s, .error (.err e))
    | none, .error e => (s, .error (.err e))
    | none, .ok offset => s.append C r offset c

end FileSink

/-! ## `RekorSink` -/

structure RekorSink where
  endpoint : Bytes
  fallbackPath : Bytes := []
  strictRekor : Bool := false
  signatureFormat : Bytes := lit "raw"
  submitted : List Json := []
  fallbackLines : List Json := []

inductive Answer
  | failed (e : Err) (text : Bytes)
  /-- `uuid` is the key of the reply that the loop over the map meets first, empty when the body is
  not an object. -/
  | answered (status : Nat) (body uuid : Bytes)

/-- What the network answers to `Publish`, and the clock. The error of the fallback file is
dropped. -/
structure RekorReads where
  newRequest : Option Err := none
  answer : Answer
  now : Int := 0
  fallback : Option Err := none

def RekorReads.Answers (r : RekorReads) : Prop :=
  r.newRequest = none ∧ ∃ status body uuid, r.answer = .answered status body uuid ∧ status / 100 = 2

def truncate (b : Bytes) (n : Nat) : Bytes :=
  if b.length ≤ n then b else b.take n ++ lit "...(truncated)"

namespace RekorSink

def name (s : RekorSink) : Bytes := lit "rekor:" ++ s.endpoint

def metaOf (c : Checkpoint) : Json := .obj <|
  fld "epoch_idx" (.num c.epochIdx) ++
  fld "key_id" (.ofStr c.keyID) ++
  fld "origin" (.ofStr c.origin)

/-- `encode`. The content of the public key is the base64 text of the document that stands here. -/
def encode (s : RekorSink) (c : Checkpoint) : Json := .obj <|
  fld "apiVersion" (.ofStr (lit "0.0.1")) ++
  fld "kind" (.ofStr (lit "hashedrekord")) ++
  fld "spec" (.obj <|
    fld "data" (.obj <| fld "hash" (.obj <|
      fld "algorithm" (.ofStr (lit "sha256")) ++
      fld "value" (.ofStr (hex (C.sha256 c.canonical))))) ++
    fld "signature" (.obj <|
      fld "content" (.ofBytes c.signature) ++
      fld "format" (.ofStr s.signatureFormat) ++
      fld "publicKey" (.obj <| fld "content" (metaOf c))))

def fallback (s : RekorSink) (r : RekorReads) (c : Checkpoint) (reason : Bytes) :
    RekorSink × Res Record :=
  let record := recordOf C s.name (lit "fallback: " ++ reason) r.now c
  let line : Json := .obj <|
    fld "at" (.num r.now) ++ fld "payload" (s.encode C c) ++
    fld "reason" (.ofStr reason) ++ fld "record" record.toJson
  if s.fallbackPath = [] ∨ r.fallback.isSome then (s, .ok record)
  else ({ s with fallbackLines := s.fallbackLines ++ [line] }, .ok record)

def publish (s : RekorSink) (r : RekorReads) (c : Checkpoint) : RekorSink × Res Record :=
  if c.signature = [] then
    (s, .error (errorf "rekor: refusing to publish unsigned checkpoint" []))
  else
    match r.newRequest, r.answer with
    | some e, _ => (s, .error (.err e))
    | none, .failed e text =>
      if s.strictRekor then (s, .error (.err e))
      else s.fallback C r c (lit "network: " ++ text)
    | none, .answered status body uuid =>
      if status / 100 ≠ 2 then
        if s.strictRekor then
          (s, .error (errorf "rekor: HTTP %d: %s" [.nat status, .bytes body]))
        else
          s.fallback C r c (lit "rekor HTTP " ++ dec status ++ lit ": " ++ truncate body 200)
      else
        ({ s with submitted := s.submitted ++ [s.encode C c] },
          .ok (recordOf C s.name (lit "rekor_uuid=" ++ uuid) r.now c))

end RekorSink

/-! ## `Anchor` -/

inductive Sink
  | file (s : FileSink) (r : FileReads)
  | rekor (s : RekorSink) (r : RekorReads)

namespace Sink

def name : Sink → Bytes
  | file s _ => s.name
  | rekor s _ => s.name

def publish (c : Checkpoint) : Sink → Sink × Res Record
  | file s r => let (s, res) := s.publish C r c; (.file s r, res)
  | rekor s r => let (s, res) := s.publish C r c; (.rekor s r, res)

def Answers : Sink → Prop
  | file _ r => r.Answers
  | rekor _ r => r.Answers

lemma publish_refused {c : Checkpoint} (h : c.signature = []) (s : Sink) :
    ∃ e, s.publish C c = (s, .error (.err e)) := by
  cases s with
  | file =>
    refine ⟨.errorf "anchor: refusing to publish unsigned checkpoint" [], ?_⟩
    simp only [publish, FileSink.publish, if_pos h, errorf]
  | rekor =>
    refine ⟨.errorf "rekor: refusing to publish unsigned checkpoint" [], ?_⟩
    simp only [publish, RekorSink.publish, if_pos h, errorf]

lemma publish_succeeds {c : Checkpoint} (h : c.signature ≠ []) {s : Sink} (hs : s.Answers) :
    ∃ s' record, s.publish C c = (s', .ok record) ∧ record.checkpoint = c := by
  cases s with
  | file =>
    obtain ⟨hopen, ⟨offset, hseek⟩, hwrite, hsync, hhead, hrename⟩ := hs
    exact ⟨_, _, by simp only [publish, FileSink.publish, if_neg h, hopen, hseek, FileSink.append,
      hwrite, hsync, hhead, hrename, Option.or_none]; rfl, rfl⟩
  | rekor =>
    obtain ⟨hrequest, status, body, uuid, hanswer, hstatus⟩ := hs
    exact ⟨_, _, by simp only [publish, RekorSink.publish, if_neg h, hrequest, hanswer, hstatus,
      ne_eq, not_true_eq_false, ↓reduceIte]; rfl, rfl⟩

end Sink

def publishAll (c : Checkpoint) : List Sink → List (Bytes × Record) × List Err
  | [] => ([], [])
  | s :: sinks =>
    let (results, errs) := publishAll c sinks
    match (s.publish C c).2 with
    | .error (.err e) => (results, .wrap "%s: %w" [.bytes s.name] e :: errs)
    | .error (.panic _) => (results, errs)
    | .ok record => ((s.name, record) :: results, errs)

/-- `Anchor`. A sink's error does not stop the others; the errors are joined at the end. -/
def anchor (db : Db) (sinks : List Sink) : Res (List (Bytes × Record) × List Err) := do
  match ← latestCheckpoint none none db with
  | none => throw (errorf "anchor: no checkpoint exists yet" [])
  | some c => return publishAll C c sinks

def Anchored (db : Db) (sinks : List Sink) (c : Checkpoint) : Prop :=
  ∃ results, anchor C db sinks = .ok (results, []) ∧
    results.map Prod.fst = sinks.map Sink.name ∧ ∀ x ∈ results, x.2.checkpoint = c

variable {C}

lemma publishAll_refused {c : Checkpoint} (h : c.signature = []) {sinks : List Sink}
    (hne : sinks ≠ []) : (publishAll C c sinks).2 ≠ [] := by
  cases sinks with
  | nil => exact absurd rfl hne
  | cons s =>
    obtain ⟨e, he⟩ := s.publish_refused C h
    simp [publishAll, he]

lemma publishAll_succeeds {c : Checkpoint} (h : c.signature ≠ []) {sinks : List Sink}
    (hs : ∀ s ∈ sinks, s.Answers) :
    (publishAll C c sinks).2 = [] ∧
      (publishAll C c sinks).1.map Prod.fst = sinks.map Sink.name ∧
      ∀ x ∈ (publishAll C c sinks).1, x.2.checkpoint = c := by
  induction sinks with
  | nil => simp [publishAll]
  | cons s sinks ih =>
    obtain ⟨herrs, hnames, hrecords⟩ := ih fun x hx => hs x (mem_cons_of_mem _ hx)
    obtain ⟨s', record, hpub, hrec⟩ := s.publish_succeeds C h (hs s (mem_cons_self ..))
    simp only [publishAll, hpub, map_cons, hnames, true_and, forall_mem_cons]
    exact ⟨herrs, hrec, hrecords⟩

/-! ## What a signer signs -/

def Ed25519 (r : SignReads) : Prop :=
  ∀ msg sig, r.fwsSign msg = .ok sig → sig.length = edSignatureSize

lemma sign_signature {r : SignReads} (hed : Ed25519 r) {size : Nat} {root head : Bytes}
    {beacon : Option Beacon} {c : Checkpoint}
    (h : Checkpoint.sign C r size root head beacon = .ok c) :
    c.signature ≠ [] ↔ r.threshold = none := by
  unfold Checkpoint.sign at h
  cases ht : r.threshold with
  | some =>
    simp only [ht, Checkpoint.signThreshold, bind_ok] at h
    obtain ⟨digest, -, res, -, h⟩ := h
    cases hres : res.err with
    | some => simp [hres] at h
    | none =>
      simp only [hres, pure_ok] at h
      subst h
      simp [Checkpoint.unsigned]
  | none =>
    simp only [ht, Checkpoint.signSingle, bind_ok] at h
    obtain ⟨sig, hsig, h⟩ := h
    have hlen := hed _ _ hsig
    have hne : sig ≠ [] := by
      rintro rfl
      cases hlen
    have hc : c.signature = sig := by
      cases hq : r.quantumSign with
      | none =>
        simp only [hq, pure_ok] at h
        rw [← h]
      | some =>
        simp only [hq, bind_ok, pure_ok] at h
        obtain ⟨qsig, -, h⟩ := h
        rw [← h]
    simp [hc, hne]

/-- **What is minted can be anchored**: when the calls of the sinks do not fail, the checkpoint that
`CheckpointCtx` signed and stored as the newest one is published to every sink, exactly when the
signer is in single-signature mode and the log is not empty. -/
theorem anchored_iff {r : Reads} (r' : Reads) (hed : Ed25519 r.signer) {size : Nat}
    {root head : Bytes} {c : Checkpoint} (hsign : signCheckpoint C r size root head = .ok c)
    {db : Db} {n : Nat}
    (hlast : db.ckpt.toList.getLast? = some (c.size, some (gatherWitnessSignatures r' c).marshal))
    (hsize : db.getSize none = .ok n) (hle : c.size ≤ n) {sinks : List Sink} (hne : sinks ≠ [])
    (hio : ∀ s ∈ sinks, s.Answers) :
    Anchored C db sinks (gatherWitnessSignatures r' c).crossed ↔
      r.signer.threshold = none ∧ n ≠ 0 := by
  simp only [signCheckpoint, bind_ok] at hsign
  obtain ⟨-, -, hsign⟩ := hsign
  rw [← sign_signature hed hsign]
  by_cases hn : n = 0
  · subst hn
    have hnone : latestCheckpoint none none db = .ok none := by
      simp [latestCheckpoint, Db.latestCheckpoint, hsize, ok_bind]
    simp [Anchored, anchor, hnone, ok_bind]
  · have hfound : latestCheckpoint none none db =
        .ok (some (gatherWitnessSignatures r' c).crossed) := by
      rw [latestCheckpoint_found hlast hsize hle hn, Doc.decode, Checkpoint.unmarshal_marshal]
      rfl
    have hsig : (gatherWitnessSignatures r' c).crossed.signature = c.signature := rfl
    simp only [Anchored, anchor, hfound, ok_bind, pure_ok]
    constructor
    · rintro ⟨results, heq, -, -⟩
      refine ⟨fun hempty => ?_, hn⟩
      have herrs := publishAll_refused (C := C) (hsig.trans hempty) hne
      rw [heq] at herrs
      exact herrs rfl
    · rintro ⟨hsigned, -⟩
      have hsigned' : (gatherWitnessSignatures r' c).crossed.signature ≠ [] := hsig.trans_ne hsigned
      obtain ⟨herrs, hnames, hrecords⟩ := publishAll_succeeds (C := C) hsigned' hio
      exact ⟨_, Prod.ext rfl herrs, hnames, hrecords⟩

def sampleReads (threshold : Option (Group × Coordinator)) : Reads where
  signer := {
    origin := lit "log"
    pub := []
    epoch := 0
    now := 0
    threshold := threshold
    fwsSign := fun _ => .ok (List.replicate 64 0)
    quantumSign := none }

def storeOf (c : Checkpoint) : Db :=
  (({ Db.empty with size := some (.u64 1) }).saveCheckpoint none c.size c.marshal).1

def sampleSinks : List Sink :=
  [.file { path := lit "anchors" } {},
    .rekor { endpoint := lit "https://rekor" } { answer := .answered 201 [] (lit "uuid") }]

theorem anchored_iff_single :
    ∃ c, signCheckpoint .sample (sampleReads none) 1 [] [] = .ok c ∧
      Anchored .sample (storeOf c) sampleSinks c.crossed := by
  have hed : Ed25519 (sampleReads none).signer := by
    rintro msg sig ⟨⟩
    rfl
  have hio : ∀ s ∈ sampleSinks, s.Answers := by
    simp [sampleSinks, Sink.Answers, FileReads.Answers, RekorReads.Answers]
  refine ⟨_, rfl, ?_⟩
  exact (anchored_iff (sampleReads none) hed rfl rfl rfl (by decide) (by decide) hio).mpr
    ⟨rfl, by decide⟩

def signingRound (msg : Bytes) : Round replayGroup where
  arrivals := replayGroup.asked.map fun m => (m, .http 200 [] (some (some {
    memberID := m.id
    publicKey := m.publicKey
    signature := Crypto.sample.edSign m.publicKey msg })))
  perm := by
    rw [map_map]
    exact List.Perm.of_eq (map_id _)

/-- **A checkpoint that the group signed is refused by both sinks.** -/
theorem threshold_not_anchored :
    ∃ c, signCheckpoint .sample
        (sampleReads (some (replayGroup, ⟨replayGroup, signingRound⟩))) 1 [] [] = .ok c ∧
      anchor .sample (storeOf c) sampleSinks = .ok ([], [
        .wrap "%s: %w" [.bytes (lit "file:anchors")]
          (.errorf "anchor: refusing to publish unsigned checkpoint" []),
        .wrap "%s: %w" [.bytes (lit "rekor:https://rekor")]
          (.errorf "rekor: refusing to publish unsigned checkpoint" [])]) :=
  ⟨_, rfl, rfl⟩

end Stele.Anchor
