import Stele.Core.AtMostOnce

/-!
# One `AppendCtx` call

What a call does when no other call runs beside it, and what it leaves behind when it returns no
entry. It is given what its steps read, in order; a list that ends before the call does is a process
that died there.
-/

namespace Stele.Core

open Lib List Option

variable {R : RangeImpl Bytes}

section
variable (C : Crypto)

/-! ## The call -/

def commitEntry (e : Entry) (db : Db) : List Reads → Db × Option Ret
  | [] => (db, none)
  | r :: rs =>
    match db.appendEntry r.fault e with
    | (db, .error f) => (db, some (.failed f))
    -- the tree has the leaf and the call returns in one more step
    | (db, .ok ()) => (db, if rs.isEmpty then none else some (.entry e))

def appendRecorded (size : Nat) (env : Envelope) (honeypot : Bool) (db : Db) :
    List Reads → Db × Option Ret
  | [] => (db, none)
  | r :: rs =>
    match db.headHash r.fault with
    | .error f => (db, some (.failed f))
    | .ok head => commitEntry (nextEntry C r.now size head env honeypot) db rs

def appendLocked (opts : Options) (size : Nat) (env : Envelope) (honeypot : Bool) (db : Db) :
    List Reads → Db × Option Ret
  | [] => (db, none)
  | r :: rs =>
    match db.checkAndRecordEnvelope r.fault opts.replayTTL r.now (env.hash C) size with
    | (db, .error f) => (db, some (.failed (f.wrap "core: %w" [])))
    | (db, .ok ()) => appendRecorded C size env honeypot db rs

/-- `AppendCtx` on a log of `size` entries: the store, and what the call returns if it gets to its
end. -/
def appendCtx (opts : Options) (size : Nat) (env : Option Envelope) (honeypot : Bool) (db : Db) :
    List Reads → Db × Option Ret
  | [] => (db, none)
  | r :: rs =>
    match checkAppend C opts r db env with
    | .error f => (db, some (.failed f))
    -- one step takes the lock
    | .ok env => appendLocked C opts size env honeypot db rs.tail

end

/-! ## The call in the machine -/

def appendActions (t : Tid) (env : Option Envelope) (honeypot : Bool) (rs : List Reads) :
    List Action :=
  .callAppend t env honeypot :: rs.map (.thread t)

/-- The process serves the store and thread `t` may call: the lock is free, the thread is in no call
and the tree has as many leaves as the store has entries. -/
structure Proc.Serves (RngHolds : R.Rng → List Bytes → Prop) (db : Db) (t : Tid) (p : Proc R) :
    Prop where
  free : p.mu = none
  idle : p.pc t = .idle
  tree : ∃ leaves, p.tree.Holds RngHolds leaves ∧ db.readSize = .ok leaves.length

/-- What thread `t` leaves after a call that found the returned values `rets`: the store and the
returned value are those of `out`, and after an error the process serves on. -/
structure State.Shows (RngHolds : R.Rng → List Bytes → Prop) (t : Tid) (rets : List Ret)
    (out : Db × Option Ret) (s : State R) : Prop where
  db : s.db = out.1
  returned : s.returned = rets ++ out.2.toList
  serves : ∀ f, out.2 = some (.failed f) → ∃ p, s.proc = some p ∧ p.Serves RngHolds s.db t

section
variable {C : Crypto} {opts : Options} {RngHolds : R.Rng → List Bytes → Prop} {t : Tid}
  {p : Proc R}

lemma solo_idle (hpc : p.pc t = .idle) (db : Db) (rets : List Ret) (rs : List Reads) :
    run (step C opts) ⟨db, some p, rets⟩ (rs.map (.thread t)) = ⟨db, some p, rets⟩ := by
  induction rs with
  | nil => rfl
  | cons r rs ih =>
    have hstep : step C opts (⟨db, some p, rets⟩ : State R) (.thread t r) = ⟨db, some p, rets⟩ := by
      simp [step, threadStep, hpc]
    rw [map_cons, run_cons, hstep]
    exact ih

lemma solo_failed {db : Db} (h : p.Serves RngHolds db t) (rets : List Ret) (f : Fault)
    (rs : List Reads) :
    (run (step C opts) ⟨db, some p, rets ++ [.failed f]⟩ (rs.map (.thread t))).Shows RngHolds t rets
      (db, some (.failed f)) := by
  rw [solo_idle h.idle]
  exact ⟨rfl, rfl, fun _ _ => ⟨p, rfl, h⟩⟩

lemma solo_died (db : Db) (p : Proc R) (rets : List Ret) :
    (⟨db, some p, rets⟩ : State R).Shows RngHolds t rets (db, none) :=
  ⟨rfl, by simp, by simp⟩

variable {db : Db} {leaves : List Bytes}

lemma serves_leave (htree : p.tree.Holds RngHolds leaves)
    (hsize : db.readSize = .ok leaves.length) :
    (p.leave t .idle).Serves RngHolds db t :=
  ⟨rfl, by simp [Proc.leave, Proc.goto], leaves, htree, hsize⟩

variable (hR : R.Lawful (hashChildren C) (emptyRoot C) RngHolds)
include hR

section

variable (htree : p.tree.Holds RngHolds leaves) (hsize : db.readSize = .ok leaves.length)

include htree hsize

lemma solo_commit {e : Entry} (hpc : p.pc t = .appendEntry e) (rets : List Ret) (rs : List Reads) :
    (run (step C opts) ⟨db, some p, rets⟩ (rs.map (.thread t))).Shows RngHolds t rets
      (commitEntry e db rs) := by
  cases rs with
  | nil => exact solo_died db p rets
  | cons r rs =>
    rw [map_cons, run_cons, commitEntry]
    simp only [step, threadStep, hpc]
    rcases happ : db.appendEntry r.fault e with ⟨db', f | _⟩
    · rw [Db.appendEntry_error happ]
      exact solo_failed (serves_leave htree hsize) rets f rs
    · cases rs with
      | nil =>
        simp only [toList_none, append_nil]
        exact solo_died db' _ rets
      | cons r' =>
        obtain ⟨tree, htadd, -⟩ := Tree.appendLeafHash_ok hR htree e.leafHash
        let p' := p.goto t (.appendTree e)
        have hadd : step C opts (⟨db', some p', rets⟩ : State R) (.thread t r') =
            ⟨db', some ({ p' with tree := tree }.leave t .idle), rets ++ [.entry e]⟩ := by
          have hpc' : p'.pc t = .appendTree e := by simp [p', Proc.goto]
          have htadd' : p'.tree.appendLeafHash e.leafHash = .ok (tree, leaves.length) := htadd
          simp [step, threadStep, hpc', htadd']
        have hidle : ({ p' with tree := tree }.leave t .idle).pc t = .idle := by
          simp [Proc.leave, Proc.goto]
        simp only [toList_none, append_nil]
        rw [map_cons, run_cons, hadd, solo_idle hidle]
        exact ⟨rfl, rfl, by simp⟩

lemma solo_recorded {size : Nat} {env : Envelope} {honeypot : Bool}
    (hpc : p.pc t = .appendHead size env honeypot) (rets : List Ret) (rs : List Reads) :
    (run (step C opts) ⟨db, some p, rets⟩ (rs.map (.thread t))).Shows RngHolds t rets
      (appendRecorded C size env honeypot db rs) := by
  cases rs with
  | nil => exact solo_died db p rets
  | cons r rs =>
    rw [map_cons, run_cons, appendRecorded]
    simp only [step, threadStep, hpc]
    cases db.headHash r.fault with
    | error f => exact solo_failed (serves_leave htree hsize) rets f rs
    | ok head =>
      let e := nextEntry C r.now size head env honeypot
      have htree' : (p.goto t (.appendEntry e)).tree.Holds RngHolds leaves := htree
      simp only [toList_none, append_nil]
      exact solo_commit hR htree' hsize (by simp [e, Proc.goto]) rets rs

lemma solo_locked {size : Nat} {env : Envelope} {honeypot : Bool}
    (hpc : p.pc t = .appendRecord size env honeypot) (rets : List Ret) (rs : List Reads) :
    (run (step C opts) ⟨db, some p, rets⟩ (rs.map (.thread t))).Shows RngHolds t rets
      (appendLocked C opts size env honeypot db rs) := by
  cases rs with
  | nil => exact solo_died db p rets
  | cons r rs =>
    rw [map_cons, run_cons, appendLocked]
    simp only [step, threadStep, hpc]
    rcases hrec : db.checkAndRecordEnvelope r.fault opts.replayTTL r.now (env.hash C) size with
      ⟨db', f | _⟩
    · rw [Db.checkAndRecordEnvelope_error hrec]
      exact solo_failed (serves_leave htree hsize) rets _ rs
    · have hsize' : db'.readSize = .ok leaves.length := by
        obtain ⟨-, -, -, -, hkeep⟩ := Db.checkAndRecordEnvelope_ok hrec
        rwa [Db.readSize, hkeep]
      have htree' : (p.goto t (.appendHead size env honeypot)).tree.Holds RngHolds leaves := htree
      simp only [toList_none, append_nil]
      exact solo_recorded hR htree' hsize' (by simp [Proc.goto]) rets rs

end

lemma run_appendActions (opts : Options) (h : p.Serves RngHolds db t) {size : Nat}
    (hsize : db.readSize = .ok size) (env : Option Envelope) (honeypot : Bool) (rets : List Ret)
    (rs : List Reads) :
    (run (step C opts) ⟨db, some p, rets⟩ (appendActions t env honeypot rs)).Shows RngHolds t rets
      (appendCtx C opts size env honeypot db rs) := by
  obtain ⟨leaves, htree, hleaves⟩ := h.tree
  have hlen : p.tree.size = size := by
    rw [Tree.size_eq hR htree]
    exact Except.ok.inj (hleaves.symm.trans hsize)
  have hbegin : step C opts (⟨db, some p, rets⟩ : State R) (.callAppend t env honeypot) =
      ⟨db, some (p.goto t (.appendCheck env honeypot)), rets⟩ := by
    simp [step, begin, h.idle]
  rw [appendActions, run_cons, hbegin]
  cases rs with
  | nil => exact solo_died db _ rets
  | cons r rs =>
    have hcheck : (p.goto t (.appendCheck env honeypot)).pc t = .appendCheck env honeypot := by
      simp [Proc.goto]
    rw [map_cons, run_cons, appendCtx]
    simp only [step, threadStep, hcheck]
    cases checkAppend C opts r db env with
    | error f =>
      have hserves : ((p.goto t (.appendCheck env honeypot)).goto t .idle).Serves RngHolds db t :=
        ⟨h.free, by simp [Proc.goto], leaves, htree, hleaves⟩
      exact solo_failed hserves rets f rs
    | ok env' =>
      simp only [toList_none, append_nil]
      cases rs with
      | nil => exact solo_died db _ rets
      | cons r' rs =>
        let p' := (p.goto t (.appendCheck env honeypot)).goto t (.appendLock env' honeypot)
        have henter : step C opts (⟨db, some p', rets⟩ : State R) (.thread t r') =
            ⟨db, some (p'.enter t (.appendRecord size env' honeypot)), rets⟩ := by
          have hlock : p'.pc t = .appendLock env' honeypot := by simp [p', Proc.goto]
          have hfree : p'.mu = none := h.free
          have hsize' : p'.tree.size = size := hlen
          simp [step, threadStep, hlock, hfree, hsize']
        have htree' : (p'.enter t (.appendRecord size env' honeypot)).tree.Holds RngHolds leaves :=
          htree
        rw [map_cons, run_cons, henter, tail_cons]
        exact solo_locked hR htree' hleaves (by simp [Proc.enter, Proc.goto]) rets rs

lemma newLog_serves (opts : Options) (faults : Nat → ReplayFaults) {es : List Entry}
    (h : db.Holds C es) {db' : Db} {tree : Tree R}
    (hnew : newLog C R opts faults db = (db', .ok tree)) (t : Tid) :
    (⟨tree, none, fun _ => .idle⟩ : Proc R).Serves RngHolds db' t := by
  obtain ⟨db'', res, hnew', hdb, htree, -⟩ := newLog_holds hR opts faults h
  cases hnew.symm.trans hnew'
  exact ⟨rfl, rfl, _, htree tree rfl, by rw [hdb.size, length_map]⟩

end

/-! ## What a call without an entry leaves behind -/

section
variable {C : Crypto} {opts : Options}

def Records (C : Crypto) (opts : Options) (env : Option Envelope) (db : Db) : List Reads → Prop
  | r :: _ :: r' :: _ => ∃ e, checkAppend C opts r db env = .ok e ∧ r'.fault = none ∧
      db.liveReplay r'.now (hex (e.hash C)) = none
  | _ => False

lemma checkAndRecordEnvelope_cases (fault : Option Err) (replayTTL now : Int) (hash : Bytes)
    (size : Nat) (db : Db) :
    (fault = none ∧ db.liveReplay now (hex hash) = none ∧
      ∃ db', db.checkAndRecordEnvelope fault replayTTL now hash size = (db', .ok ())) ∨
    (¬ (fault = none ∧ db.liveReplay now (hex hash) = none) ∧
      ∃ f, db.checkAndRecordEnvelope fault replayTTL now hash size = (db, .error f)) := by
  unfold Db.checkAndRecordEnvelope Db.update
  cases fault with
  | some => exact .inr ⟨by simp, _, rfl⟩
  | none =>
    cases hlive : db.liveReplay now (hex hash) with
    | some => exact .inr ⟨by simp, _, by simp only [hlive]; rfl⟩
    | none => exact .inl ⟨rfl, rfl, _, by simp only [hlive]; rfl⟩

lemma commitEntry_replay (e : Entry) (db : Db) (rs : List Reads) :
    (commitEntry e db rs).1.replay = db.replay := by
  cases rs with
  | nil => rfl
  | cons r =>
    rw [commitEntry]
    rcases happ : db.appendEntry r.fault e with ⟨db', f | _⟩
    · rw [Db.appendEntry_error happ]
    · obtain ⟨-, rfl⟩ := Db.appendEntry_ok happ
      rfl

lemma appendRecorded_replay (size : Nat) (env : Envelope) (honeypot : Bool) (db : Db)
    (rs : List Reads) : (appendRecorded C size env honeypot db rs).1.replay = db.replay := by
  cases rs with
  | nil => rfl
  | cons r rs =>
    rw [appendRecorded]
    cases db.headHash r.fault with
    | error => rfl
    | ok => exact commitEntry_replay _ db rs

/-- The replay table as `CheckAndRecordEnvelope` reads it depends on the table only. -/
lemma liveReplay_congr {db db' : Db} (h : db.replay = db'.replay) (now : Int) (key : Bytes) :
    db.liveReplay now key = db'.liveReplay now key := by
  rw [Db.liveReplay, Db.liveReplay, h]

/-- **A call writes to the store exactly when it commits its replay record.** -/
theorem appendCtx_db_eq_iff (size : Nat) (env : Option Envelope) (honeypot : Bool) (db : Db)
    (rs : List Reads) :
    (appendCtx C opts size env honeypot db rs).1 = db ↔ ¬ Records C opts env db rs := by
  rcases rs with _ | ⟨r, _ | ⟨r', _ | ⟨r'', rs⟩⟩⟩
  · simp [appendCtx, Records]
  -- the process dies before it comes to the replay check
  · simp only [appendCtx, Records, not_false_iff, iff_true]
    cases checkAppend C opts r db env <;> rfl
  · simp only [appendCtx, Records, not_false_iff, iff_true]
    cases checkAppend C opts r db env <;> rfl
  · rw [appendCtx]
    cases hcheck : checkAppend C opts r db env with
    | error => simp [Records, hcheck]
    | ok e =>
      simp only [tail_cons, appendLocked, Records, hcheck, Except.ok.injEq, exists_eq_left']
      rcases checkAndRecordEnvelope_cases r''.fault opts.replayTTL r''.now (e.hash C) size db with
        ⟨hfault, hlive, db', hrec⟩ | ⟨hnot, f, hrec⟩
      · rw [hrec]
        refine iff_of_false (fun heq => ?_) (not_not_intro ⟨hfault, hlive⟩)
        -- the record is live right after it was written, and nothing takes it back
        obtain ⟨hrecorded, -⟩ := Db.checkAndRecordEnvelope_ok hrec
        have hreplay : db.replay = db'.replay := by
          rw [← appendRecorded_replay (C := C) size e honeypot db' rs, heq]
        rw [liveReplay_congr hreplay] at hlive
        have hexpired := hrecorded.expired hlive
        omega
      · rw [hrec]
        exact iff_of_true rfl hnot

variable {RngHolds : R.Rng → List Bytes → Prop}

/-- **A call that returns no entry is all-or-nothing exactly when it commits no replay record.**
Otherwise the record stays behind. The store is as it was, and any process that serves it answers
the same envelope as the first one would have. -/
theorem append_all_or_nothing_iff (hR : R.Lawful (hashChildren C) (emptyRoot C) RngHolds)
    {db : Db} {t : Tid} {p : Proc R} (h : p.Serves RngHolds db t) (env : Option Envelope)
    (honeypot : Bool) (rets : List Ret) (rs : List Reads) :
    let s := run (step C opts) ⟨db, some p, rets⟩ (appendActions t env honeypot rs)
    (∀ e, s.returned ≠ rets ++ [.entry e]) →
      ((s.db = db ∧ ∀ (q : Proc R) (u : Tid) (rs' : List Reads), q.Serves RngHolds s.db u →
          (∀ r ∈ rs', r.fault = none) →
          let again := run (step C opts) ⟨s.db, some q, rets⟩ (appendActions u env honeypot rs')
          let first := run (step C opts) ⟨db, some p, rets⟩ (appendActions t env honeypot rs')
          again.db = first.db ∧ again.returned = first.returned) ↔
        ¬ Records C opts env db rs) := by
  intro s _
  obtain ⟨leaves, -, hsize⟩ := h.tree
  have hs := run_appendActions hR opts h hsize env honeypot rets rs
  have hdb : s.db = db ↔ ¬ Records C opts env db rs := by
    rw [← appendCtx_db_eq_iff leaves.length env honeypot db rs, ← hs.db]
  constructor
  · rintro ⟨heq, -⟩
    exact hdb.mp heq
  · intro hrec
    have heq := hdb.mpr hrec
    refine ⟨heq, fun q u rs' hq _ => ?_⟩
    rw [heq] at hq ⊢
    have hagain := run_appendActions hR opts hq hsize env honeypot rets rs'
    have hfirst := run_appendActions hR opts h hsize env honeypot rets rs'
    exact ⟨hagain.db.trans hfirst.db.symm, hagain.returned.trans hfirst.returned.symm⟩

def entryIndices (rets : List Ret) : List Nat :=
  rets.filterMap fun
    | .entry e => some e.index
    | _ => none

def failures (rets : List Ret) : List Fault :=
  rets.filterMap fun
    | .failed f => some f
    | _ => none

def sampleProc : Proc sampleRange :=
  ⟨.newBoundedTreeWithStore sampleRange 0 0 .adapter, none, fun _ => .idle⟩

def sampleRefused : State sampleRange :=
  run (step Crypto.sample {}) ⟨.empty, some sampleProc, []⟩
    (appendActions 0 (some sampleEnvelope) false [sampleReads])

theorem append_all_or_nothing_iff_refused :
    failures sampleRefused.returned =
      [errorf "storage: producer %q not registered" [.bytes (lit "p")]] ∧
    sampleRefused.db = .empty ∧
    ∀ (q : Proc sampleRange) (u : Tid) (rs' : List Reads),
      q.Serves (fun rng leaves => rng = leaves) sampleRefused.db u → (∀ r ∈ rs', r.fault = none) →
      let again := run (step Crypto.sample {}) ⟨sampleRefused.db, some q, []⟩
        (appendActions u (some sampleEnvelope) false rs')
      let first := run (step Crypto.sample {}) ⟨.empty, some sampleProc, []⟩
        (appendActions 0 (some sampleEnvelope) false rs')
      again.db = first.db ∧ again.returned = first.returned := by
  have hserves : sampleProc.Serves (fun rng leaves => rng = leaves) .empty 0 :=
    newLog_serves (leafList_lawful _ _) {} (fun _ => {}) (Db.empty_holds (C := Crypto.sample)) rfl 0
  have hno : ∀ e, sampleRefused.returned ≠ [] ++ [.entry e] := by
    intro e he
    have hnone : entryIndices sampleRefused.returned = [] := by decide +kernel
    rw [he] at hnone
    cases hnone
  refine ⟨by decide +kernel, ?_⟩
  exact (append_all_or_nothing_iff (leafList_lawful _ _) hserves _ _ _ _ hno).mpr fun h => h

def sampleStart : State sampleRange :=
  run (step Crypto.sample {}) (init sampleRange) (sampleRun.take 2)

def diskFull : List Reads :=
  List.replicate 4 sampleReads ++
    [{ sampleReads with fault := some (.errorf "no space left on device" []) }]

/-- A call whose `AppendEntry` fails has left its replay record, so the envelope is refused when it
is sent again; the first time it would have become entry 0. -/
theorem failed_append_blocks_its_envelope :
    let failed := run (step Crypto.sample {}) sampleStart
      (appendActions 0 (some sampleEnvelope) false diskFull)
    let again := run (step Crypto.sample {}) failed
      (appendActions 0 (some sampleEnvelope) false (List.replicate 6 sampleReads))
    let first := run (step Crypto.sample {}) sampleStart
      (appendActions 0 (some sampleEnvelope) false (List.replicate 6 sampleReads))
    entryIndices failed.returned = [] ∧
    sampleStart.db.replay.keys = [] ∧ failed.db.replay.keys ≠ [] ∧
    entryIndices again.returned = [] ∧
    (failures again.returned).getLast? = some ((errorf
      "replay: envelope already accepted as entry %d" [.nat 0]).wrap "core: %w" []) ∧
    entryIndices first.returned = [0] := by
  decide +kernel

end

end Stele.Core
